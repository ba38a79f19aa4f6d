import Mtcl.Base.Runs
import Mtcl.Base.Safe
import Mtcl.Proxy.Main

/-!
# The routes of a proxy

A proxy finds the other proxy that a connection goes through by the connection's ID in `connid2proxy`.
`RoutesKnown` is what it counts on: every ID associated in `loc2connID` has an entry there, and the entry refers
to the proxy through which the connection was made (`Proxy.route`).

A connection that another proxy has asked for with `CONN` gets no entry.  `proxy_routed` says when the entries
are there all the same, and that the proxy then never uses a null pointer to another proxy.
-/

namespace Mtcl

open Safety

variable {W : Type}

namespace Proxy

/-- The handle of the `HandleUser` a pointer refers to. -/
def behind (s : Proxy W) (p : Nat) : Option Nat := s.heap[p]?.bind HandleUser.realHandle

/-- The entry of an ID refers to the proxy with the handle `via`. -/
def Names (s : Proxy W) (identifier : Nat) (via : Option Nat) : Prop :=
  ∃ p, s.connid2proxy identifier = some (some p) ∧ p < s.heap.length ∧ s.behind p = via

/-- Every associated ID has its entry. -/
def RoutesKnown (s : Proxy W) : Prop := ∀ v ∈ s.loc2connID.valueTree.elems, s.Names v (s.route v)

/-- The tables of the routes are the same. -/
structure SameRoutes (s s' : Proxy W) : Prop where
  length : s'.heap.length = s.heap.length
  behind : s'.behind = s.behind
  connid2proxy : s'.connid2proxy = s.connid2proxy
  loc2connID : s'.loc2connID = s.loc2connID
  route : s'.route = s.route

variable {s s' s'' : Proxy W} {env : ProxyEnv W} {ev : ProxyEvent W}

theorem SameRoutes.refl (s : Proxy W) : s.SameRoutes s := ⟨rfl, rfl, rfl, rfl, rfl⟩

theorem SameRoutes.trans (h : s.SameRoutes s') (h' : s'.SameRoutes s'') : s.SameRoutes s'' :=
  ⟨h'.length.trans h.length, h'.behind.trans h.behind, h'.connid2proxy.trans h.connid2proxy,
    h'.loc2connID.trans h.loc2connID, h'.route.trans h.route⟩

theorem SameRoutes.names (h : s.SameRoutes s') (v : Nat) (via : Option Nat) : s'.Names v via ↔ s.Names v via := by
  unfold Names
  rw [h.length, h.behind, h.connid2proxy]

theorem SameRoutes.known (h : s.SameRoutes s') : s'.RoutesKnown ↔ s.RoutesKnown := by
  unfold RoutesKnown
  rw [h.loc2connID, h.route]
  exact forall₂_congr fun v _ => h.names v _

private theorem same_world (s : Proxy W) (w : W) : s.SameRoutes { s with world := w } := ⟨rfl, rfl, rfl, rfl, rfl⟩

private theorem RoutesKnown.fewer (hs : s.RoutesKnown) (hlength : s.heap.length ≤ s'.heap.length)
    (hbehind : ∀ p < s.heap.length, s'.behind p = s.behind p) (hroute : s'.route = s.route)
    (hvalues : ∀ v ∈ s'.loc2connID.valueTree.elems, v ∈ s.loc2connID.valueTree.elems ∧
      s'.connid2proxy v = s.connid2proxy v) :
    s'.RoutesKnown := by
  intro v hv
  obtain ⟨hv, hc⟩ := hvalues v hv
  obtain ⟨p, hp, hlt, hb⟩ := hs v hv
  exact ⟨p, hc.trans hp, Nat.lt_of_lt_of_le hlt hlength, (hbehind p hlt).trans (hb.trans (congrFun hroute v).symm)⟩

/-! ### The parts of an iteration -/

theorem sendThrough_safe (s : Proxy W) (env : ProxyEnv W) (p : Nat) (buff : Bytes) :
    Safe .nullProxy (fun s' => p < s.heap.length ∧ s.SameRoutes s') (s.sendThrough env (some p) buff) := by
  unfold sendThrough
  dsimp only
  cases hp : s.heap[p]? with
  | none => exact nofun
  | some u =>
    refine (lift_safe _).bind ?_
    rintro ⟨r, u', w'⟩ hu
    have hlt := (List.getElem?_eq_some_iff.1 hp).1
    refine ⟨hlt, List.length_set .., funext fun q => ?_, rfl, rfl, rfl⟩
    unfold behind
    by_cases hq : p = q
    · subst hq
      rw [List.getElem?_set_self hlt, hp]
      exact HandleUser.send_user hu
    · rw [List.getElem?_set_ne hq]

private theorem handleAt_same (s : Proxy W) (k : Nat) : s.SameRoutes (s.handleAt k).2 := by
  unfold handleAt
  split
  · exact .refl s
  · exact ⟨rfl, rfl, rfl, rfl, rfl⟩

private theorem eraseHandle_safe (s : Proxy W) (env : ProxyEnv W) (k : Nat) :
    Safe .nullProxy s.SameRoutes (s.eraseHandle env k) := by
  unfold eraseHandle
  split
  · exact SameRoutes.refl s
  · exact (lift_safe _).bind fun w _ => SameRoutes.mk rfl rfl rfl rfl rfl

theorem keepHandle_safe (s : Proxy W) (env : ProxyEnv W) (h : HandleUser Nat) :
    Safe .nullProxy s.SameRoutes (s.keepHandle env h) := by
  unfold keepHandle
  refine (lift_safe _).bind ?_
  rintro ⟨h', w⟩ -
  dsimp only
  split
  · exact SameRoutes.mk rfl rfl rfl rfl rfl
  · exact (lift_safe _).bind fun w' _ => same_world s w'

private theorem mem_of_eraseKey {b b' : Bimap Nat Nat} {k v : Nat} (h : b.eraseKey k = some b')
    (hv : v ∈ b'.valueTree.elems) : v ∈ b.valueTree.elems := by
  unfold Bimap.eraseKey at h
  dsimp only at h
  split at h
  · cases h
    exact List.mem_of_mem_eraseIdx hv
  · cases h

/-- The value that a key has is erased with it when the position of the key is below `2 ^ 32`, and stays otherwise. -/
private theorem getValue_erased {b b' : Bimap Nat Nat} {k v : Nat} (hg : b.getValue k = some v)
    (h : b.eraseKey k = some b') : v ∉ b'.valueTree.elems ↔ b.keyTree.elems.idxOf k < unsignedRange := by
  unfold Bimap.eraseKey at h
  dsimp only at h
  split at h
  · rename_i hlt
    cases h
    unfold Bimap.getValue Bimap.indexOfKey at hg
    dsimp only at hg
    rw [if_pos (Nat.lt_of_le_of_lt (Nat.mod_le ..) hlt.1), List.getElem?_eq_some_iff] at hg
    obtain ⟨hi, hg⟩ := hg
    constructor
    · intro hv
      by_contra hge
      refine hv (List.mem_eraseIdx_iff_getElem.2 ⟨_, hi, fun he => ?_, hg⟩)
      rw [← he] at hge
      exact hge (Nat.mod_lt _ (by decide))
    · intro hk hv
      obtain ⟨j, hj, hne, hv⟩ := List.mem_eraseIdx_iff_getElem.1 hv
      rw [← hg] at hv
      exact hne (((List.Nodup.getElem_inj_iff b.valueTree.nodup).1 hv).trans (Nat.mod_eq_of_lt hk))
  · cases h

private theorem newProxy_safe (hs : s.RoutesKnown) (env : ProxyEnv W) (ev : ProxyEvent W) (h : HandleUser Nat) :
    Safe .nullProxy (fun x => x.2.RoutesKnown) (s.newProxy env ev h) := by
  have hheap (u : HandleUser Nat) (w : W) (m : Bytes → Option (Option Nat)) :
      RoutesKnown { s with world := w, heap := s.heap ++ [u], proxies := m } := by
    refine hs.fewer ?_ (fun p hp => ?_) rfl fun v hv => ⟨hv, rfl⟩
    · simp
    · exact congrArg (·.bind HandleUser.realHandle) (List.getElem?_append_left hp)
  unfold newProxy
  refine (lift_safe _).bind ?_
  rintro ⟨sz, buff, h', w⟩ -
  dsimp only
  split
  · split
    · exact nofun
    · exact hheap _ _ _
  · exact hheap _ _ _

private theorem frameEOS_safe (hs : s.RoutesKnown) (env : ProxyEnv W) (identifier : Nat) :
    Safe .nullProxy RoutesKnown (s.frameEOS env identifier) := by
  unfold frameEOS
  split
  · refine (fromBimap_safe _).bind fun hID _ => ?_
    split
    · exact nofun
    · refine (lift_safe _).bind fun w _ => (lift_safe _).bind fun closed _ => ?_
      dsimp only
      split
      · refine (eraseHandle_safe ..).bind fun s1 h1 => (fromBimap_safe _).bind fun b hb => ?_
        refine RoutesKnown.fewer (h1.known.2 hs) (Nat.le_refl _) (fun _ _ => rfl) rfl fun v hv =>
          ⟨mem_of_eraseKey hb hv, rfl⟩
      · exact hs
  · exact hs

private theorem frameFWD_safe (hs : s.RoutesKnown) (env : ProxyEnv W) (identifier : Nat) (payload : Bytes) :
    Safe .nullProxy RoutesKnown (s.frameFWD env identifier payload) := by
  unfold frameFWD
  split
  · refine (fromBimap_safe _).bind fun key _ => (lift_safe _).bind fun _ _ => ?_
    exact (handleAt_same s key).known.2 hs
  · exact hs

private theorem associate_known (hs : s.RoutesKnown) (env : ProxyEnv W) (h : HandleUser Nat) (identifier : Nat)
    (via : Option Nat) : (s.associate env h identifier via).RoutesKnown ↔ s.Names identifier via := by
  constructor
  · intro hk
    have hn := hk identifier (OrdSet.mem_insert.2 (.inl rfl))
    change ∃ p, s.connid2proxy identifier = _ ∧ p < s.heap.length ∧
      s.behind p = Function.update s.route identifier via identifier at hn
    rwa [Function.update_self] at hn
  · intro hn v hv
    change ∃ p, s.connid2proxy v = _ ∧ p < s.heap.length ∧ s.behind p = Function.update s.route identifier via v
    by_cases hvi : v = identifier
    · subst hvi
      rw [Function.update_self]
      exact hn
    · rw [Function.update_of_ne hvi]
      exact hs v ((OrdSet.mem_insert.1 hv).resolve_left hvi)

private theorem frameCONN_exact (hs : s.RoutesKnown) (env : ProxyEnv W) (via : Option Nat) (identifier : Nat)
    (payload : Bytes) : Exactly .nullProxy (∀ c u w, env.components (afterColon payload) = some c →
      env.connectFirst (beforeColon payload) c.listenStrs s.world = .ok (some u, w) → s.Names identifier via)
      RoutesKnown (s.frameCONN env via identifier payload) := by
  refine .of_safe ?_
  unfold frameCONN
  cases hc : env.components (afterColon payload) with
  | none => exact iff_of_true hs nofun
  | some c =>
    refine (lift_safe _).bind ?_
    rintro ⟨found, w⟩ hw
    cases found with
    | none =>
      refine iff_of_true hs fun c' u w' hc' hw' => ?_
      cases hc'
      rw [hw] at hw'
      cases hw'
    | some u =>
      refine (keepHandle_safe ..).mono fun s' h' => h'.known.trans ((associate_known hs env u identifier via).trans ?_)
      constructor
      · exact fun hn _ _ _ _ _ => hn
      · exact fun hn => hn c u w rfl hw

private theorem oneHop_safe (hs : s.RoutesKnown) (env : ProxyEnv W) (h : HandleUser Nat) (protocol : Bytes)
    (c : Component) : Safe .nullProxy (fun x => x.2.RoutesKnown) (s.oneHop env h protocol c) := by
  unfold oneHop
  split
  · exact (keepHandle_safe ..).bind fun s1 h1 => h1.known.2 hs
  · refine (lift_safe _).bind ?_
    rintro ⟨found, w⟩ -
    cases found with
    | none => exact (lift_safe _).bind fun _ _ => hs
    | some u =>
      exact (keepHandle_safe ..).bind fun s1 h1 => (keepHandle_safe ..).bind fun s2 h2 => (h1.trans h2).known.2 hs

private theorem emplace_known (hs : s.RoutesKnown) (identifier : Nat) (ptr : Option Nat) :
    ({ s with
        connid2proxy := Function.update s.connid2proxy identifier (some ((s.connid2proxy identifier).getD ptr)) } :
      Proxy W).RoutesKnown := by
  intro v hv
  obtain ⟨p, hp, hlt, hb⟩ := hs v hv
  refine ⟨p, ?_, hlt, hb⟩
  change Function.update s.connid2proxy identifier _ v = _
  by_cases hvi : v = identifier
  · subst hvi
    rw [Function.update_self, hp]
    rfl
  · rw [Function.update_of_ne hvi]
    exact hp

private theorem otherPool_exact (hs : s.RoutesKnown) (env : ProxyEnv W) (h : HandleUser Nat)
    (connectString pool : Bytes) : Exactly .nullProxy (∃ p, s.proxies pool = some (some p) ∧
      (s.connid2proxy (env.connID connectString h) = none ∨ s.Names (env.connID connectString h) (s.behind p)))
      (fun x => x.2.RoutesKnown) (s.otherPool env h connectString pool) := by
  unfold otherPool
  generalize hid : env.connID connectString h = identifier
  dsimp only
  cases hptr : (s.proxies pool).getD none with
  | none =>
    refine .of_error ?_
    rintro ⟨p, hp, -⟩
    rw [hp] at hptr
    cases hptr
  | some p =>
    have hp : s.proxies pool = some (some p) := by
      cases hx : s.proxies pool with
      | none =>
        rw [hx] at hptr
        cases hptr
      | some x =>
        rw [hx] at hptr
        exact congrArg some hptr
    refine .of_safe ((sendThrough_safe ..).bind ?_)
    rintro s1 ⟨hlt, h1⟩
    have h1 : s.SameRoutes s1 := ⟨h1.length, h1.behind, h1.connid2proxy, h1.loc2connID, h1.route⟩
    refine (keepHandle_safe ..).bind fun s2 h2 => h2.known.trans ?_
    have hassoc := associate_known (emplace_known (h1.known.2 hs) identifier (some p)) env h identifier (s1.behind p)
    refine Iff.trans hassoc ?_
    change (∃ q, Function.update s1.connid2proxy identifier (some ((s1.connid2proxy identifier).getD (some p)))
      identifier = _ ∧ q < s1.heap.length ∧ s1.behind q = s1.behind p) ↔ _
    rw [Function.update_self, h1.connid2proxy, h1.length, h1.behind, hp]
    constructor
    · rintro ⟨q, hq, hqlt, hqb⟩
      refine ⟨p, rfl, ?_⟩
      cases hx : s.connid2proxy identifier with
      | none => exact .inl rfl
      | some x =>
        rw [hx] at hq
        exact .inr ⟨q, hx.trans hq, hqlt, hqb⟩
    · rintro ⟨p', hp', hn⟩
      cases hp'
      rcases hn with hn | ⟨q, hq, hqlt, hqb⟩
      · rw [hn]
        exact ⟨p, rfl, hlt, rfl⟩
      · rw [hq]
        exact ⟨q, rfl, hqlt, hqb⟩

/-- When a connection ends, its entry goes with it as long as its handle has one of the first `2 ^ 32` IDs. -/
private theorem closeRoute_exact (hs : s.RoutesKnown) (env : ProxyEnv W) (h : HandleUser Nat) :
    Exactly .nullProxy (∀ v s1, s.loc2connID.getValue (env.getID h) = some v →
      s.sendThrough env ((s.connid2proxy v).getD none) (ProxyFrame.toBytes ⟨Cmd.EOS.toByte, v, []⟩) = .ok s1 →
      h.isClosed env.vt s1.world = .ok (true, true) → env.getID h ∈ s.loc2connID.keyTree.elems →
      s.loc2connID.keyTree.elems.idxOf (env.getID h) < unsignedRange) RoutesKnown (s.closeRoute env h) := by
  refine .of_safe ?_
  unfold closeRoute
  by_cases hkey : env.getID h ∈ s.loc2connID.keyTree.elems
  · rw [if_pos hkey]
    refine (fromBimap_safe _).bind fun v hv => ?_
    obtain ⟨p, hp, hlt, hb⟩ := hs v (List.mem_of_getElem? hv)
    have hself :
        ({ s with connid2proxy := Function.update s.connid2proxy v (some ((s.connid2proxy v).getD none)) } :
        Proxy W) = s := by
      rw [hp]
      change { s with connid2proxy := Function.update s.connid2proxy v (some (some p)) } = s
      rw [← hp, Function.update_eq_self]
    dsimp only
    rw [hself]
    have hptr : (s.connid2proxy v).getD none = some p := by rw [hp]; rfl
    have hsend := sendThrough_safe s env p (ProxyFrame.toBytes ⟨Cmd.EOS.toByte, v, []⟩)
    rw [← hptr] at hsend
    cases hx : s.sendThrough env ((s.connid2proxy v).getD none) (ProxyFrame.toBytes ⟨Cmd.EOS.toByte, v, []⟩) with
    | error e =>
      rw [hx] at hsend
      exact hsend
    | ok s1 =>
      obtain ⟨-, h1⟩ := hsend.of_eq hx
      refine (lift_safe _).bind fun closed hclosed => ?_
      by_cases hboth : closed = (true, true)
      · rw [if_pos hboth, h1.loc2connID]
        subst hboth
        refine (fromBimap_safe _).bind fun b hbm => ?_
        refine (eraseHandle_safe ..).mono fun s2 h2 => h2.known.trans ?_
        have hgone := getValue_erased hv hbm
        constructor
        · intro hknown v' s1' hv' hx' _ _
          rw [← hgone]
          intro hmem
          obtain ⟨q, hq, -⟩ := hknown v hmem
          change Function.update s1.connid2proxy v none v = some (some q) at hq
          rw [Function.update_self] at hq
          cases hq
        · intro hidx
          have hnot := hgone.2 (hidx v s1 hv hx hclosed hkey)
          refine RoutesKnown.fewer (h1.known.2 hs) (Nat.le_refl _) (fun _ _ => rfl) rfl fun u hu => ⟨?_, ?_⟩
          · rw [h1.loc2connID]
            exact mem_of_eraseKey hbm hu
          · refine Function.update_of_ne ?_ ..
            rintro rfl
            exact hnot hu
      · rw [if_neg hboth]
        refine iff_of_true (h1.known.2 hs) fun v' s1' hv' hx' hclosed' => ?_
        cases hv.symm.trans hv'
        cases hx.symm.trans hx'
        rw [hclosed] at hclosed'
        exact absurd (Except.ok.inj hclosed') hboth
  · rw [if_neg hkey]
    exact iff_of_true hs fun _ _ _ _ _ h => absurd h hkey

private theorem closeHop_safe (s : Proxy W) (env : ProxyEnv W) (connId : Nat) :
    Safe .nullProxy s.SameRoutes (s.closeHop env connId) := by
  unfold closeHop
  split
  · exact SameRoutes.refl s
  · rename_i dest _
    refine (lift_safe _).bind fun w _ => (lift_safe _).bind fun closed _ => ?_
    have hsame := handleAt_same s dest
    dsimp only
    split
    · refine (eraseHandle_safe ..).mono fun s' h => hsame.trans ?_
      exact ⟨h.length, h.behind, h.connid2proxy, h.loc2connID, h.route⟩
    · exact hsame.trans (same_world _ w)

private theorem forward_safe (hs : s.RoutesKnown) (env : ProxyEnv W) (connId : Nat) (m : Bytes) :
    Safe .nullProxy RoutesKnown (s.forward env connId m) := by
  unfold forward
  split
  · refine (fromBimap_safe _).bind fun v hv => ?_
    obtain ⟨p, hp, hlt, hb⟩ := hs v (List.mem_of_getElem? hv)
    dsimp only
    rw [hp]
    change Safe _ _ (sendThrough env { s with
      connid2proxy := Function.update s.connid2proxy v (some (some p)) } (some p) _)
    rw [← hp, Function.update_eq_self]
    exact (sendThrough_safe ..).mono fun s' h => h.2.known.2 hs
  · split
    · exact hs
    · rename_i dest _
      exact (lift_safe _).bind fun _ _ => (handleAt_same s dest).known.2 hs

end Proxy

/-! ### An iteration -/

namespace ProxyEnv

/-- What is read is read from the handle that `getNext` returned. -/
theorem readMessage_user {env : ProxyEnv W} {ev : ProxyEvent W} {h h' : HandleUser Nat} {w w' : W}
    {sz : Nat} {buff : Bytes} (he : env.readMessage ev h w = .ok (sz, buff, h', w')) :
    h'.realHandle = h.realHandle := by
  unfold readMessage at he
  obtain ⟨⟨r, sz1, h1, w1⟩, h1e, he⟩ := bind_eq_ok.1 he
  obtain ⟨⟨r2, bs, h2, w2⟩, h2e, he⟩ := bind_eq_ok.1 he
  cases he
  exact (HandleUser.receive_user h2e).trans (HandleUser.probe_user h1e)

/-- The message is a `CONN` with the identifier, for a component to which the proxy gets a connection. -/
def Accepts (env : ProxyEnv W) (ev : ProxyEvent W) (identifier : Nat) : Prop :=
  ∃ sz buff h w f c u w', env.readMessage ev ⟨some ev.id, true, ev.isNew⟩ ev.world = .ok (sz, buff, h, w) ∧
    ProxyFrame.ofBytes buff = some f ∧ f.cmd = Cmd.CONN.toByte ∧ f.identifier = identifier ∧
    env.components (afterColon f.payload) = some c ∧
    env.connectFirst (beforeColon f.payload) c.listenStrs w = .ok (some u, w')

/-- The message asks for a component of another pool, and the connection gets the identifier. -/
def AsksFor (env : ProxyEnv W) (ev : ProxyEvent W) (pool : Bytes) (identifier : Nat) : Prop :=
  ∃ sz connectString h w c, env.readMessage ev ⟨some ev.id, true, ev.isNew⟩ ev.world = .ok (sz, connectString, h, w) ∧
    env.components (afterColon connectString) = some c ∧ ¬(Proxy.poolOf c = [] ∨ Proxy.poolOf c = env.pool) ∧
    Proxy.poolOf c = pool ∧ env.connID connectString h = identifier

end ProxyEnv

namespace Proxy

variable {s : Proxy W} {env : ProxyEnv W} {ev : ProxyEvent W}

/-- The message ends a connection through another proxy for good, and its handle has an ID. -/
def Ends (env : ProxyEnv W) (ev : ProxyEvent W) (s : Proxy W) (id : Nat) : Prop :=
  ∃ r h w v s1, HandleUser.probe env.vt ⟨some ev.id, true, ev.isNew⟩ ev.size true ev.world = .ok (r, 0, h, w) ∧
    env.getID h = id ∧ id ∈ s.loc2connID.keyTree.elems ∧ s.loc2connID.getValue id = some v ∧
    ({ s with world := w } : Proxy W).sendThrough env ((s.connid2proxy v).getD none)
      (ProxyFrame.toBytes ⟨Cmd.EOS.toByte, v, []⟩) = .ok s1 ∧
    h.isClosed env.vt s1.world = .ok (true, true)

/-- The event does not lead to a connection without its entry.  A connection that another proxy asks for and
gets has an entry that refers to this proxy already; the proxy of a pool that a process asks for is connected,
and an entry that the new identifier has already refers to it; and the handle of a connection that ends has one
of the first `2 ^ 32` IDs. -/
structure Routed (env : ProxyEnv W) (ev : ProxyEvent W) (s : Proxy W) : Prop where
  accepts : env.instanceName ev.id = literal ['P'] → ev.isNew = false →
    ∀ identifier, env.Accepts ev identifier → s.Names identifier (some ev.id)
  asks : env.instanceName ev.id ≠ literal ['P'] → ev.isNew = true → ∀ pool identifier, env.AsksFor ev pool identifier →
    ∃ p, s.proxies pool = some (some p) ∧ (s.connid2proxy identifier = none ∨ s.Names identifier (s.behind p))
  ends : env.instanceName ev.id ≠ literal ['P'] → ev.isNew = false → ∀ id, s.Ends env ev id →
    s.loc2connID.keyTree.elems.idxOf id < unsignedRange

private theorem frame_exact (hs : s.RoutesKnown) :
    Exactly .nullProxy (∀ identifier, env.Accepts ev identifier → s.Names identifier (some ev.id))
    (fun x => x.2.RoutesKnown)
      (({ s with world := ev.world } : Proxy W).frame env ev ⟨some ev.id, true, ev.isNew⟩) := by
  unfold frame
  refine .after (lift_safe _) ?_
  rintro ⟨sz, buff, h, w⟩ hread
  have hs1 : ({ s with world := w } : Proxy W).RoutesKnown := hs
  dsimp only
  cases hf : ProxyFrame.ofBytes buff with
  | none => exact .of_safe nofun
  | some f =>
    have hother (hcmd : f.cmd ≠ Cmd.CONN.toByte) {identifier : Nat} : ¬env.Accepts ev identifier := by
      rintro ⟨sz', buff', h', w', f', c, u, w'', hread', hf', hcmd', -⟩
      cases hread.symm.trans hread'
      cases hf.symm.trans hf'
      exact hcmd hcmd'
    refine Exactly.bind (P := RoutesKnown) ?_ fun s1 => Iff.rfl
    split
    · rename_i hcmd
      refine .of_safe ((frameEOS_safe hs1 ..).mono fun s1 h1 => iff_of_true h1 fun _ ha => absurd ha (hother ?_))
      rw [hcmd]
      decide
    · split
      · rename_i hcmd
        refine .of_safe ((frameFWD_safe hs1 ..).mono fun s1 h1 => iff_of_true h1 fun _ ha => absurd ha (hother ?_))
        rw [hcmd]
        decide
      · split
        · rename_i hcmd
          refine .congr ?_ (frameCONN_exact hs1 env _ _ _)
          rw [ProxyEnv.readMessage_user hread]
          constructor
          · exact fun hn c u w' hc hconn =>
              hn f.identifier ⟨sz, buff, h, w, f, c, u, w', hread, hf, hcmd, rfl, hc, hconn⟩
          · rintro hn identifier ⟨sz', buff', h', w', f', c, u, w'', hread', hf', -, rfl, hc, hconn⟩
            cases hread.symm.trans hread'
            cases hf.symm.trans hf'
            exact hn c u w'' hc hconn
        · rename_i hcmd
          exact .of_safe (iff_of_true hs1 fun _ ha => absurd ha (hother hcmd))

private theorem newProcess_exact (hs : s.RoutesKnown) :
    Exactly .nullProxy (∀ pool identifier, env.AsksFor ev pool identifier →
      ∃ p, s.proxies pool = some (some p) ∧ (s.connid2proxy identifier = none ∨ s.Names identifier (s.behind p)))
      (fun x => x.2.RoutesKnown)
      (({ s with world := ev.world } : Proxy W).newProcess env ev ⟨some ev.id, true, ev.isNew⟩) := by
  unfold newProcess
  refine .after (lift_safe _) ?_
  rintro ⟨sz, cs, h, w⟩ hread
  have hs1 : ({ s with world := w } : Proxy W).RoutesKnown := hs
  dsimp only
  cases hc : env.components (afterColon cs) with
  | none =>
    refine .of_safe (iff_of_true hs1 ?_)
    rintro pool identifier ⟨sz', cs', h', w', c, hread', hc', -⟩
    cases hread.symm.trans hread'
    cases hc.symm.trans hc'
  | some c =>
    dsimp only
    by_cases hpool : poolOf c = [] ∨ poolOf c = env.pool
    · rw [if_pos hpool]
      refine .of_safe ((oneHop_safe hs1 ..).mono fun x hx => iff_of_true hx ?_)
      rintro pool identifier ⟨sz', cs', h', w', c', hread', hc', hpool', -⟩
      cases hread.symm.trans hread'
      cases hc.symm.trans hc'
      exact absurd hpool hpool'
    · rw [if_neg hpool]
      refine .congr ?_ (otherPool_exact hs1 env h cs (poolOf c))
      constructor
      · exact fun hn => hn (poolOf c) _ ⟨sz, cs, h, w, c, hread, hc, hpool, rfl, rfl⟩
      · rintro hn pool identifier ⟨sz', cs', h', w', c', hread', hc', -, rfl, rfl⟩
        cases hread.symm.trans hread'
        cases hc.symm.trans hc'
        exact hn

private theorem message_exact (hs : s.RoutesKnown) :
    Exactly .nullProxy (∀ id, s.Ends env ev id → s.loc2connID.keyTree.elems.idxOf id < unsignedRange)
      (fun x => x.2.RoutesKnown)
      (({ s with world := ev.world } : Proxy W).message env ev ⟨some ev.id, true, ev.isNew⟩) := by
  unfold message
  refine .after (lift_safe _) ?_
  rintro ⟨r, sz, h, w⟩ hprobe
  have hs1 : ({ s with world := w } : Proxy W).RoutesKnown := hs
  dsimp only
  by_cases hsz : sz = 0
  · rw [if_pos hsz]
    subst hsz
    refine .bind (P := RoutesKnown) (.congr ?_ (closeRoute_exact hs1 env h)) fun s1 =>
      (closeHop_safe ..).bind fun s2 h2 => h2.known
    constructor
    · exact fun hn v s1 hv hx hclosed hkey => hn (env.getID h) ⟨r, h, w, v, s1, hprobe, rfl, hkey, hv, hx, hclosed⟩
    · rintro hn id ⟨r', h', w', v, s1, hprobe', rfl, hkey, hv, hx, hclosed⟩
      cases hprobe.symm.trans hprobe'
      exact hn v s1 hv hx hclosed hkey
  · rw [if_neg hsz]
    refine .after (lift_safe _) ?_
    rintro ⟨r1, bs, h1, w1⟩ -
    have hs2 : ({ s with world := w1 } : Proxy W).RoutesKnown := hs
    refine .of_safe ((forward_safe hs2 env _ _).bind fun s1 hs1 => iff_of_true hs1 ?_)
    rintro id ⟨r', h', w', v, s2, hprobe', -⟩
    cases hprobe.symm.trans hprobe'
    exact absurd rfl hsz

/-- An iteration uses no null pointer to a proxy and keeps the entries, exactly when the event is such an event. -/
theorem iteration_exact (hs : s.RoutesKnown) : Exactly .nullProxy (s.Routed env ev) RoutesKnown
    (s.iteration env ev) := by
  unfold iteration
  refine Exactly.bind (P := fun x => x.2.RoutesKnown) ?_ ?_
  · unfold dispatch
    dsimp only
    by_cases hp : env.instanceName ev.id = literal ['P']
    · rw [if_pos hp]
      by_cases hnew : ev.isNew = true
      · rw [if_pos hnew]
        refine .of_safe ((newProxy_safe (s := { s with world := ev.world }) hs ..).mono fun x hx =>
          iff_of_true hx ⟨fun _ h => ?_, ?_, ?_⟩)
        · rw [hnew] at h
          cases h
        · exact fun h => absurd hp h
        · exact fun h => absurd hp h
      · rw [if_neg hnew]
        refine .congr ?_ (frame_exact hs)
        exact ⟨fun h => h.accepts hp (Bool.eq_false_iff.2 hnew), fun h =>
          ⟨fun _ _ => h, fun h => absurd hp h, fun h => absurd hp h⟩⟩
    · rw [if_neg hp]
      by_cases hnew : ev.isNew = true
      · rw [if_pos hnew]
        refine .congr ?_ (newProcess_exact hs)
        refine ⟨fun h => h.asks hp hnew, fun h => ⟨fun h => absurd h hp, fun _ _ => h, fun _ h => ?_⟩⟩
        rw [hnew] at h
        cases h
      · rw [if_neg hnew]
        refine .congr ?_ (message_exact hs)
        exact ⟨fun h => h.ends hp (Bool.eq_false_iff.2 hnew), fun h =>
          ⟨fun h => absurd h hp, fun _ h => absurd h hnew, fun _ _ => h⟩⟩
  · rintro ⟨h, s1⟩
    exact (lift_safe _).bind fun w _ => (same_world s1 w).known

/-! ### Runs -/

/-- The proxy has connected to the proxies of other pools. -/
def Started (env : ProxyEnv W) (pools : List (Bytes × List Bytes)) (s : Proxy W) : Prop :=
  ∃ w, start env pools { world := w } = .ok s

private theorem connectProxy_safe (env : ProxyEnv W) (name addr : Bytes) (s : Proxy W) :
    Safe .nullProxy (fun s' => s'.loc2connID = s.loc2connID) (s.connectProxy env name addr) := by
  unfold connectProxy
  refine (lift_safe _).bind ?_
  rintro ⟨u, w⟩ -
  dsimp only
  split
  · exact rfl
  · refine (lift_safe _).bind ?_
    rintro ⟨r, u1, w1⟩ -
    refine (lift_safe _).bind ?_
    rintro ⟨u2, w2⟩ -
    exact rfl

private theorem start_safe (env : ProxyEnv W) (pools : List (Bytes × List Bytes)) (s : Proxy W) :
    Safe .nullProxy (fun s' => s'.loc2connID = s.loc2connID) (start env pools s) := by
  induction pools generalizing s with
  | nil => exact rfl
  | cons x pools ih =>
    obtain ⟨name, addrs⟩ := x
    unfold start
    refine Safe.bind (P := fun s' => s'.loc2connID = s.loc2connID) ?_ fun s1 h1 => (ih s1).mono fun s2 h2 => h2.trans h1
    split
    · clear ih
      induction addrs generalizing s with
      | nil => exact rfl
      | cons addr addrs ih =>
        rw [List.foldlM_cons]
        exact (connectProxy_safe env name addr s).bind fun s1 h1 => (ih s1).mono fun s2 h2 => h2.trans h1
    · exact rfl

/-- In every run whose events do not lead to a connection without its entry, every connection that is associated
has an entry that refers to the proxy it goes through, and no event of this kind makes the proxy use a null
pointer to another proxy; and the first event that is of another kind does, or it leaves a connection without
its entry. -/
theorem proxy_routed {pools : List (Bytes × List Bytes)}
    (h : Runs.Reach (Started env pools) (fun ev s s' => s.Routed env ev ∧ s.iteration env ev = .ok s') s) :
    s.RoutesKnown ∧ ∀ ev, (s.iteration env ev = .error .nullProxy → ¬s.Routed env ev) ∧
      ∀ s', s.iteration env ev = .ok s' → (s'.RoutesKnown ↔ s.Routed env ev) := by
  have hk : s.RoutesKnown := by
    refine h.invariant RoutesKnown ?_ fun ev s s' hs ⟨hr, he⟩ => ((iteration_exact hs).safe hr).of_eq he
    rintro s ⟨w, hs⟩ v hv
    rw [(start_safe env pools _).of_eq hs] at hv
    exact absurd hv List.not_mem_nil
  refine ⟨hk, fun ev => ⟨fun he hr => ((iteration_exact hk).safe hr).ne he, fun s' he => ?_⟩⟩
  have hx : Exactly .nullProxy (s.Routed env ev) RoutesKnown (s.iteration env ev) := iteration_exact hk
  exact ⟨hx.only s' he, fun hr => (hx.safe hr).of_eq he⟩

/-! ### A connection from another pool -/

section

/-- One queue of messages for all handles. -/
private structure Messages where
  base : CommBase := {}
  inbox : List Bytes := []

private def messages : CommunicationHandle Messages where
  base w := .ok w.base
  setProbed pr w := { w with base := { w.base with probed := pr } }
  probe _ _ w := match w.inbox with
    | [] => .error .blocked
    | m :: _ => .ok (.ok sizeofSizeT, m.length, w)
  receive n w := .ok (.ok n, w.inbox.headD [], { w with inbox := w.inbox.tail })
  send bs w := .ok (.ok bs.length, w)
  close wr rd w :=
    .ok { w with base := { w.base with closedWr := w.base.closedWr || wr, closedRd := w.base.closedRd || rd } }
  yield w := .ok w
  incrementReferenceCounter w := .ok w
  decrementReferenceCounter w := .ok w

/-- The proxy of pool `A`, with a component `c` in it and a component `d` in pool `B`; handle `0` is that of the
proxy of pool `B`. -/
private def proxyA : ProxyEnv Messages where
  pool := literal ['A']
  components name :=
    if name = literal ['c'] then some ⟨[], [], [literal ['T', ':', 'x']]⟩
    else if name = literal ['d'] then some ⟨literal ['B', ':', 'h'], [], []⟩ else none
  hash _ := 5
  vt _ := messages
  instanceName id := if id = 0 then literal ['P'] else literal ['T']
  address id := id
  connect le w := .ok (⟨if le.headD 0 = 80 then some 0 else some 1, true, true⟩, w)

private def poolB : List (Bytes × List Bytes) := [(literal ['B'], [literal ['b']])]

private def connected : Proxy Messages :=
  { world := {}, heap := [⟨some 0, false, false⟩], proxies := Function.update (fun _ => none) (literal
    ['B']) (some (some 0)) }

private def connEvent : ProxyEvent Messages where
  id := 0
  isNew := false
  world := { inbox := [ProxyFrame.toBytes ⟨Cmd.CONN.toByte, 7, literal ['T', ':', 'c']⟩] }

private def messageEvent : ProxyEvent Messages where
  id := 1
  isNew := false
  world := { inbox := [[1]] }

private def askEvent : ProxyEvent Messages where
  id := 1
  isNew := true
  world := { inbox := [literal ['T', ':', 'd']] }

private theorem started : Started proxyA poolB connected := ⟨{}, rfl⟩

/-- A process asks for the component of pool `B`. -/
theorem proxy_routed_run : ∃ s, Runs.Reach (Started proxyA poolB)
    (fun ev s s' => s.Routed proxyA ev ∧ s.iteration proxyA ev = .ok s') s ∧
    s.loc2connID.valueTree.elems = [5] ∧ s.RoutesKnown := by
  have hr : connected.Routed proxyA askEvent := by
    refine ⟨fun h => ?_, fun _ _ pool identifier => ?_, fun _ h => ?_⟩
    · exact absurd h (by decide)
    · rintro ⟨sz, cs, h, w, c, hread, hc, -, rfl, rfl⟩
      cases hread
      cases hc
      exact ⟨0, rfl, .inl rfl⟩
    · cases h
  cases hs : connected.iteration proxyA askEvent with
  | error e => cases hs
  | ok s =>
    have h1 : Runs.Reach (Started proxyA poolB) (fun ev s s' => s.Routed proxyA ev ∧
        s.iteration proxyA ev = .ok s') s :=
      .next askEvent (.start started) ⟨hr, hs⟩
    refine ⟨s, h1, ?_, (proxy_routed h1).1⟩
    cases hs
    rfl

/-- The proxy of pool `B` asks for the component, and the component sends a message. -/
theorem proxy_unrouted : ∃ s, Runs.Reach (Started proxyA poolB) (fun ev s s' => s.iteration proxyA ev = .ok s') s ∧
    ¬s.RoutesKnown ∧ s.iteration proxyA messageEvent = .error .nullProxy := by
  have h0 : Runs.Reach (Started proxyA poolB) (fun ev s s' => s.iteration proxyA ev = .ok s') connected :=
    .start started
  cases hs : connected.iteration proxyA connEvent with
  | error e => cases hs
  | ok s =>
    refine ⟨s, .next connEvent h0 hs, ?_, ?_⟩
    · intro hk
      cases hs
      obtain ⟨p, hp, -⟩ := hk 7 (by decide)
      cases hp
    · cases hs
      rfl

end

end Proxy

end Mtcl
