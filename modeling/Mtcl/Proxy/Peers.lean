import Mtcl.Collective.Sending
import Mtcl.Proxy.Frames
import Mtcl.Proxy.Listening
import Mtcl.Proxy.Routes

/-!
# The other proxies that a proxy knows

`peer s name` is the handle on which the proxy reaches the proxy of a pool: the one that the pointer in
`proxies` refers to.  It is written at the start (`connectProxy_announces`), which is the list of `attempts` one
after the other (`start_eq`), and when a proxy connects; no other iteration of the main loop changes it
(`iteration_stays`).
-/

namespace Mtcl

open Safety

variable {W : Type}

/-- What `connectProxy` connects to. -/
def proxyAddress (addr : Bytes) : Bytes :=
  literal ['P', ':'] ++ addr ++ if UInt8.ofNat ':'.toNat ∈ addr then [] else literal [':', '8', '0', '0', '2']

/-- What the calls on handles and `Manager::connect` keep. -/
structure ProxyEnv.Keeps (env : ProxyEnv W) (I : W → Prop) : Prop where
  handles : ∀ h, (env.vt h).Keeps I
  connect : ∀ {le w u w'}, I w → env.connect le w = .ok (u, w') → I w'

namespace Proxy

/-- The handle of the proxy of a pool. -/
def peer (s : Proxy W) (name : Bytes) : Option Nat := ((s.proxies name).getD none).bind s.behind

/-- The pointers to proxies refer to objects. -/
def Pointed (s : Proxy W) : Prop := ∀ name p, (s.proxies name).getD none = some p → p < s.heap.length

/-- The pointers to proxies are the same, and so are the handles behind them. -/
structure SamePeers (s s' : Proxy W) : Prop where
  length : s'.heap.length = s.heap.length
  behind : s'.behind = s.behind
  proxies : ∀ name, (s'.proxies name).getD none = (s.proxies name).getD none

/-- A property of the world is kept, and the other proxies stay the same. -/
structure Stays (I : W → Prop) (s s' : Proxy W) : Prop where
  world : I s'.world
  peers : s.SamePeers s'

variable {s s' s'' : Proxy W} {env : ProxyEnv W} {ev : ProxyEvent W} {I : W → Prop}

theorem SamePeers.refl (s : Proxy W) : s.SamePeers s := ⟨rfl, rfl, fun _ => rfl⟩

theorem SamePeers.trans (h : s.SamePeers s') (h' : s'.SamePeers s'') : s.SamePeers s'' :=
  ⟨h'.length.trans h.length, h'.behind.trans h.behind, fun name => (h'.proxies name).trans (h.proxies name)⟩

theorem SamePeers.peer (h : s.SamePeers s') (name : Bytes) : s'.peer name = s.peer name := by
  unfold Proxy.peer
  rw [h.proxies, h.behind]

theorem SamePeers.pointed (h : s.SamePeers s') (hs : s.Pointed) : s'.Pointed := by
  intro name p hp
  rw [h.proxies] at hp
  rw [h.length]
  exact hs name p hp

/-- An object on the heap for the proxy of a pool. -/
theorem peer_toHeap (hs : s.Pointed) (u : HandleUser Nat) (w : W) (name other : Bytes) :
    ({ s with
        world := w
        heap := s.heap ++ [u]
        proxies := Function.update s.proxies name (some (some s.heap.length)) } : Proxy W).peer other =
      if other = name then u.realHandle else s.peer other := by
  unfold peer behind
  dsimp only
  by_cases ho : other = name
  · subst ho
    rw [Function.update_self, if_pos rfl, Option.getD_some, Option.bind_some, List.getElem?_concat_length]
    rfl
  · rw [Function.update_of_ne ho, if_neg ho]
    cases hp : (s.proxies other).getD none with
    | none => rfl
    | some p =>
      rw [Option.bind_some, Option.bind_some, List.getElem?_append_left (hs other p hp)]

theorem pointed_toHeap (hs : s.Pointed) (u : HandleUser Nat) (w : W) (name : Bytes) :
    ({ s with
        world := w
        heap := s.heap ++ [u]
        proxies := Function.update s.proxies name (some (some s.heap.length)) } : Proxy W).Pointed := by
  intro other p hp
  dsimp only at hp ⊢
  rw [List.length_append, List.length_singleton]
  by_cases ho : other = name
  · subst ho
    rw [Function.update_self] at hp
    cases hp
    exact Nat.lt_succ_self _
  · rw [Function.update_of_ne ho] at hp
    exact Nat.lt_succ_of_lt (hs other p hp)

/-! ### The start -/

/-- The attempts of the start, in their order: the proxies of the pools whose names come behind that of the own one. -/
def attempts (pool : Bytes) (pools : List (Bytes × List Bytes)) : List (Bytes × Bytes) :=
  pools.flatMap fun x => if pool < x.1 then x.2.map (x.1, ·) else []

theorem mem_attempts {pool name addr : Bytes} {pools : List (Bytes × List Bytes)} :
    (name, addr) ∈ attempts pool pools ↔ pool < name ∧ ∃ addrs, (name, addrs) ∈ pools ∧ addr ∈ addrs := by
  unfold attempts
  rw [List.mem_flatMap]
  constructor
  · rintro ⟨⟨n, addrs⟩, hx, hm⟩
    dsimp only at hm
    split at hm
    · obtain ⟨a, ha, he⟩ := List.mem_map.1 hm
      cases he
      exact ⟨‹_›, addrs, hx, ha⟩
    · cases hm
  · rintro ⟨hlt, addrs, hx, ha⟩
    refine ⟨_, hx, ?_⟩
    dsimp only
    rw [if_pos hlt]
    exact List.mem_map.2 ⟨addr, ha, rfl⟩

/-- There is an attempt for every address of a pool. -/
theorem countP_attempts {pool name : Bytes} (hlt : pool < name) {pools : List (Bytes × List Bytes)} {addrs : List Bytes}
    (hn : (pools.map Prod.fst).Nodup) (hm : (name, addrs) ∈ pools) :
    (attempts pool pools).countP (fun x => decide (x.1 = name)) = addrs.length := by
  induction pools with
  | nil => cases hm
  | cons x pools ih =>
    obtain ⟨n, as⟩ := x
    obtain ⟨hnew, hn⟩ := List.nodup_cons.1 hn
    have hcons : attempts pool ((n, as) :: pools) = (if pool < n then as.map (n, ·) else []) ++
        attempts pool pools := rfl
    rw [hcons, List.countP_append]
    rcases List.mem_cons.1 hm with he | hm
    · obtain ⟨rfl, rfl⟩ := Prod.mk.inj he
      have hrest : (attempts pool pools).countP (fun x => decide (x.1 = name)) = 0 := by
        refine List.countP_eq_zero.2 fun x hx => ?_
        obtain ⟨-, addrs', hp, -⟩ := mem_attempts.1 (show (x.1, x.2) ∈ attempts pool pools from hx)
        simp only [decide_eq_true_eq]
        rintro rfl
        exact hnew (List.mem_map.2 ⟨_, hp, rfl⟩)
      rw [if_pos hlt, hrest, List.countP_map]
      exact List.countP_eq_length.2 fun _ _ => decide_eq_true rfl
    · have hne : n ≠ name := by
        rintro rfl
        exact hnew (List.mem_map.2 ⟨_, hm, rfl⟩)
      have hfirst : (if pool < n then as.map (n, ·) else []).countP
          (fun x : Bytes × Bytes => decide (x.1 = name)) = 0 := by
        split
        · rw [List.countP_map]
          exact List.countP_eq_zero.2 fun _ _ => by simpa using hne
        · rfl
      rw [hfirst, Nat.zero_add]
      exact ih hn hm

/-- The start makes its attempts one after the other. -/
theorem start_eq (env : ProxyEnv W) (pools : List (Bytes × List Bytes)) (s : Proxy W) :
    start env pools s = (attempts env.pool pools).foldlM (fun s a => s.connectProxy env a.1 a.2) s := by
  induction pools generalizing s with
  | nil => rfl
  | cons x pools ih =>
    obtain ⟨name, addrs⟩ := x
    unfold start attempts
    rw [List.flatMap_cons, List.foldlM_append]
    dsimp only
    split
    · rw [List.foldlM_map]
      exact bind_congr fun s1 => ih s1
    · exact ih s

section

variable {V : Type} {vt : Nat → CommunicationHandle V} {u u' : HandleUser Nat} {w w' : V × List (Sent Nat)} {j : Nat}

private theorem send_recorded {m : Bytes} {r : Ret} {b : CommBase} (h : u.send (record vt) m w = .ok (r, u', w'))
    (hu : u.realHandle = some j) (hb : (vt j).base w.1 = .ok b) (hopen : b.closedWr = false) :
    w'.2 = w.2 ++ [.message j m r] := by
  unfold HandleUser.send at h
  rw [hu] at h
  obtain ⟨b', hb', h⟩ := bind_eq_ok.1 h
  cases hb.symm.trans hb'
  rw [if_neg (by rw [hopen]; decide)] at h
  obtain ⟨⟨r', w1⟩, hsend, h⟩ := bind_eq_ok.1 h
  cases h
  exact (record_send hsend).2

private theorem yield_recorded (h : u.yield (record vt) w = .ok (u', w')) : w'.2 = w.2 := by
  unfold HandleUser.yield at h
  dsimp only at h
  split at h
  · cases h
    rfl
  · obtain ⟨w1, hyield, h⟩ := bind_eq_ok.1 h
    obtain ⟨w2, -, hyield⟩ := bind_eq_ok.1 hyield
    cases hyield
    cases h
    rfl

/-- What an attempt does: a proxy that can be connected to is told the own pool first, and it is then the one of
its pool. -/
theorem connectProxy_announces {env : ProxyEnv (V × List (Sent Nat))} (hvt : env.vt = record vt) (name addr : Bytes)
    (s : Proxy (V × List (Sent Nat))) :
    Returns (fun s' => ∃ u w, env.connect (proxyAddress addr) s.world = .ok (u, w) ∧
      match u.realHandle with
      | none => s' = { s with world := w }
      | some j => (∃ b, (vt j).base w.1 = .ok b ∧ b.closedWr = false) →
        ∃ r v w', w'.2 = w.2 ++ [.message j (ProxyFrame.toBytes ⟨Cmd.PRX.toByte, 0, env.pool⟩) r] ∧
          v.realHandle = some j ∧ s' = { s with
            world := w'
            heap := s.heap ++ [v]
            proxies := Function.update s.proxies name (some (some s.heap.length)) })
              (s.connectProxy env name addr) := by
  unfold connectProxy
  refine (lift_returns _).bind ?_
  rintro ⟨u, w⟩ hconn
  dsimp only
  cases hu : u.realHandle with
  | none => exact .ok ⟨u, w, hconn, by rw [hu]⟩
  | some j =>
    refine (lift_returns _).bind ?_
    rintro ⟨r, u1, w1⟩ hsend
    refine (lift_returns _).bind ?_
    rintro ⟨v, w2⟩ hyield
    refine .ok ⟨u, w, hconn, ?_⟩
    rw [hu]
    rintro ⟨b, hb, hopen⟩
    rw [hvt] at hsend hyield
    refine ⟨r, v, w2, ?_, ?_, rfl⟩
    · rw [yield_recorded hyield]
      exact send_recorded hsend hu hb hopen
    · exact (HandleUser.yield_user hyield).trans ((HandleUser.send_user hsend).trans hu)

end

/-! ### The other iterations -/

theorem Stays.trans (h : Stays I s s') (h' : Stays I s' s'') : Stays I s s'' := ⟨h'.world, h.peers.trans h'.peers⟩

/-- A change of the world and of tables in which there are no proxies. -/
private theorem stays_of (hI : I s'.world) (hheap : s'.heap = s.heap) (hproxies : s'.proxies = s.proxies) :
    Stays I s s' := by
  refine ⟨hI, congrArg List.length hheap, funext fun p => ?_, fun name => by rw [hproxies]⟩
  unfold behind
  rw [hheap]

private theorem Stays.after (h : Stays I s' s'') (hheap : s'.heap = s.heap)
    (hproxies : s'.proxies = s.proxies) : Stays I s s'' := by
  refine ⟨h.world, SamePeers.trans ⟨congrArg List.length hheap, funext fun p => ?_,
    fun name => by rw [hproxies]⟩ h.peers⟩
  unfold behind
  rw [hheap]

private theorem handleAt_stays (hI : I s.world) (k : Nat) : Stays I s (s.handleAt k).2 := by
  unfold handleAt
  split
  · exact stays_of hI rfl rfl
  · exact stays_of hI rfl rfl

section

variable (hk : env.Keeps I)

include hk

private theorem sendThrough_stays (hI : I s.world) (ptr : Option Nat) (buff : Bytes) :
    Returns (Stays I s) (s.sendThrough env ptr buff) := by
  unfold sendThrough
  split
  · exact .error
  · rename_i p
    split
    · exact .error
    · rename_i u hp
      refine (lift_returns _).bind ?_
      rintro ⟨r, u', w'⟩ hsend
      have hlt := (List.getElem?_eq_some_iff.1 hp).1
      refine .ok ⟨HandleUser.send_keeps hk.handles hI hsend, List.length_set .., funext fun q => ?_, fun _ => rfl⟩
      unfold behind
      by_cases hq : p = q
      · subst hq
        rw [List.getElem?_set_self hlt, hp]
        exact HandleUser.send_user hsend
      · rw [List.getElem?_set_ne hq]

private theorem eraseHandle_stays (hI : I s.world) (k : Nat) : Returns (Stays I s) (s.eraseHandle env k) := by
  unfold eraseHandle
  split
  · exact .ok (stays_of hI rfl rfl)
  · exact (lift_returns _).bind fun w hw => .ok (stays_of (HandleUser.destroy_keeps hk.handles hI hw) rfl rfl)

private theorem keepHandle_stays (hI : I s.world) (u : HandleUser Nat) : Returns (Stays I s) (s.keepHandle env u) := by
  unfold keepHandle
  refine (lift_returns _).bind ?_
  rintro ⟨u', w'⟩ hyield
  have hI' := HandleUser.yield_keeps hk.handles hI hyield
  dsimp only
  split
  · exact .ok (stays_of hI' rfl rfl)
  · exact (lift_returns _).bind fun w hw => .ok (stays_of (HandleUser.destroy_keeps hk.handles hI' hw) rfl rfl)

private theorem connectFirst_keeps {protocol : Bytes} {les : List Bytes} {found : Option (HandleUser Nat)}
    {w w' : W} (hI : I w) (h : env.connectFirst protocol les w = .ok (found, w')) : I w' := by
  induction les generalizing w with
  | nil =>
    cases h
    exact hI
  | cons le les ih =>
    unfold ProxyEnv.connectFirst at h
    split at h
    · obtain ⟨⟨u, w1⟩, hconn, h⟩ := bind_eq_ok.1 h
      have hI1 := hk.connect hI hconn
      dsimp only at h
      split at h
      · cases h
        exact hI1
      · exact ih hI1 h
    · exact ih hI h

private theorem readMessage_keeps {ev : ProxyEvent W} {u u' : HandleUser Nat} {w w' : W} {sz : Nat}
    {buff : Bytes} (hI : I w) (h : env.readMessage ev u w = .ok (sz, buff, u', w')) : I w' := by
  unfold ProxyEnv.readMessage at h
  obtain ⟨⟨r, sz1, u1, w1⟩, h1, h⟩ := bind_eq_ok.1 h
  obtain ⟨⟨r2, bs, u2, w2⟩, h2, h⟩ := bind_eq_ok.1 h
  cases h
  exact HandleUser.receive_keeps hk.handles (HandleUser.probe_keeps hk.handles hI h1) h2

private theorem frameEOS_stays (hI : I s.world) (identifier : Nat) :
    Returns (Stays I s) (s.frameEOS env identifier) := by
  unfold frameEOS
  split
  · refine (fromBimap_safe _).returns.bind fun hID _ => ?_
    split
    · exact .error
    · refine (lift_returns _).bind fun w hw => (lift_returns _).bind fun closed _ => ?_
      have hs : Stays I s { s with world := w } := stays_of (HandleUser.close_keeps hk.handles hI hw) rfl rfl
      dsimp only
      split
      · refine (eraseHandle_stays hk hs.world hID).bind fun s1 h1 => (fromBimap_safe _).returns.bind fun b _ => .ok ?_
        exact (hs.trans h1).trans (stays_of h1.world rfl rfl)
      · exact .ok hs
  · exact .ok (stays_of hI rfl rfl)

private theorem sendAt_stays (hI : I s.world) (k : Nat) (bs : Bytes) {r : Ret} {u : HandleUser Nat} {w : W}
    (h : (s.handleAt k).1.send env.vt bs (s.handleAt k).2.world = .ok (r, u, w)) :
    Stays I s { (s.handleAt k).2 with
      world := w, id2handle := Function.update (s.handleAt k).2.id2handle k (some u) } :=
  have hs := handleAt_stays hI k
  hs.trans (stays_of (HandleUser.send_keeps hk.handles hs.world h) rfl rfl)

private theorem frameFWD_stays (hI : I s.world) (identifier : Nat) (payload : Bytes) :
    Returns (Stays I s) (s.frameFWD env identifier payload) := by
  unfold frameFWD
  split
  · refine (fromBimap_safe _).returns.bind fun key _ => (lift_returns _).bind ?_
    rintro ⟨r, u, w⟩ hsend
    exact .ok (sendAt_stays hk hI key payload hsend)
  · exact .ok (stays_of hI rfl rfl)

private theorem frameCONN_stays (hI : I s.world) (via : Option Nat) (identifier : Nat) (payload : Bytes) :
    Returns (Stays I s) (s.frameCONN env via identifier payload) := by
  unfold frameCONN
  split
  · exact .ok (stays_of hI rfl rfl)
  · refine (lift_returns _).bind ?_
    rintro ⟨found, w⟩ hconn
    have hI' := connectFirst_keeps hk hI hconn
    cases found with
    | none => exact .ok (stays_of hI' rfl rfl)
    | some u =>
      exact (keepHandle_stays hk (by exact hI') u).mono fun s1 h1 => h1.after rfl rfl

private theorem closeHop_stays (hI : I s.world) (connId : Nat) : Returns (Stays I s) (s.closeHop env connId) := by
  unfold closeHop
  split
  · exact .ok (stays_of hI rfl rfl)
  · rename_i dest _
    have hs := handleAt_stays hI dest
    refine (lift_returns _).bind fun w hw => (lift_returns _).bind fun closed _ => ?_
    have hI' := HandleUser.close_keeps hk.handles hs.world hw
    dsimp only
    split
    · refine (eraseHandle_stays hk (by exact hI') dest).mono fun s1 h1 => hs.trans (h1.after rfl rfl)
    · exact .ok (hs.trans (stays_of hI' rfl rfl))

private theorem closeRoute_stays (hI : I s.world) (h : HandleUser Nat) : Returns (Stays I s) (s.closeRoute env h) := by
  unfold closeRoute
  split
  · refine (fromBimap_safe _).returns.bind fun v _ => ?_
    dsimp only
    refine (sendThrough_stays hk (by exact hI) _ _).bind fun s1 h1 => (lift_returns _).bind fun closed _ => ?_
    have hs : Stays I s s1 := h1.after rfl rfl
    split
    · refine (fromBimap_safe _).returns.bind fun b _ =>
        (eraseHandle_stays hk (by exact h1.world) _).mono fun s2 h2 => ?_
      exact hs.trans (h2.after rfl rfl)
    · exact .ok hs
  · exact .ok (stays_of hI rfl rfl)

private theorem forward_stays (hI : I s.world) (connId : Nat) (m : Bytes) :
    Returns (Stays I s) (s.forward env connId m) := by
  unfold forward
  split
  · refine (fromBimap_safe _).returns.bind fun v _ => ?_
    dsimp only
    exact (sendThrough_stays hk (by exact hI) _ _).mono fun s1 h1 => h1.after rfl rfl
  · split
    · exact .ok (stays_of hI rfl rfl)
    · rename_i dest _
      refine (lift_returns _).bind ?_
      rintro ⟨r, u, w⟩ hsend
      exact .ok (sendAt_stays hk hI dest m hsend)

private theorem oneHop_stays (hI : I s.world) (h : HandleUser Nat) (protocol : Bytes) (c : Component) :
    Returns (fun x => Stays I s x.2) (s.oneHop env h protocol c) := by
  unfold oneHop
  split
  · exact (keepHandle_stays hk hI h).bind fun s1 h1 => .ok h1
  · refine (lift_returns _).bind ?_
    rintro ⟨found, w⟩ hconn
    have hI' := connectFirst_keeps hk hI hconn
    cases found with
    | none =>
      exact (lift_returns _).bind fun w' hw' => .ok (stays_of (HandleUser.close_keeps hk.handles hI' hw') rfl rfl)
    | some u =>
      dsimp only
      refine (keepHandle_stays hk (by exact hI') u).bind fun s1 h1 =>
        (keepHandle_stays hk h1.world h).bind fun s2 h2 => .ok ?_
      exact Stays.trans (h1.after rfl rfl) h2

private theorem otherPool_stays (hI : I s.world) (h : HandleUser Nat) (connectString pool : Bytes) :
    Returns (fun x => Stays I s x.2) (s.otherPool env h connectString pool) := by
  unfold otherPool
  dsimp only
  -- an entry that is looked for is made, with a null pointer
  have hs : Stays I s { s with proxies := Function.update s.proxies pool (some ((s.proxies pool).getD none)) } := by
    refine ⟨hI, rfl, rfl, fun name => ?_⟩
    dsimp only
    by_cases hn : name = pool
    · subst hn
      rw [Function.update_self]
      rfl
    · rw [Function.update_of_ne hn]
  refine (sendThrough_stays hk hs.world _ _).bind fun s1 h1 => ?_
  refine (keepHandle_stays hk (by exact h1.world) h).bind fun s2 h2 => .ok (hs.trans (h1.trans ?_))
  exact h2.after rfl rfl

private theorem newProcess_stays (hI : I s.world) (ev : ProxyEvent W) (h : HandleUser Nat) :
    Returns (fun x => Stays I s x.2) (s.newProcess env ev h) := by
  unfold newProcess
  refine (lift_returns _).bind ?_
  rintro ⟨sz, cs, u, w⟩ hread
  have hI' := readMessage_keeps hk hI hread
  dsimp only
  split
  · exact .ok (stays_of hI' rfl rfl)
  · split
    · exact (oneHop_stays hk (by exact hI') u _ _).mono fun x hx => hx.after rfl rfl
    · exact (otherPool_stays hk (by exact hI') u _ _).mono fun x hx => hx.after rfl rfl

private theorem message_stays (hI : I s.world) (ev : ProxyEvent W) (h : HandleUser Nat) :
    Returns (fun x => Stays I s x.2) (s.message env ev h) := by
  unfold message
  refine (lift_returns _).bind ?_
  rintro ⟨r, sz, u, w⟩ hprobe
  have hI' := HandleUser.probe_keeps hk.handles hI hprobe
  dsimp only
  split
  · refine (closeRoute_stays hk (by exact hI') u).bind fun s1 h1 =>
      (closeHop_stays hk h1.world _).bind fun s2 h2 => .ok ?_
    exact (h1.trans h2).after rfl rfl
  · refine (lift_returns _).bind ?_
    rintro ⟨r1, bs, u1, w1⟩ hreceive
    have hI1 := HandleUser.receive_keeps hk.handles hI' hreceive
    exact (forward_stays hk (by exact hI1) _ _).bind fun s1 h1 => .ok (h1.after rfl rfl)

private theorem frame_stays (hI : I s.world) (ev : ProxyEvent W) (h : HandleUser Nat) :
    Returns (fun x => Stays I s x.2) (s.frame env ev h) := by
  unfold frame
  refine (lift_returns _).bind ?_
  rintro ⟨sz, buff, u, w⟩ hread
  have hI' := readMessage_keeps hk hI hread
  dsimp only
  split
  · exact .error
  · refine Returns.bind (P := Stays I s) ?_ fun s1 h1 => .ok h1
    split
    · exact (frameEOS_stays hk (by exact hI') _).mono fun s1 h1 => h1.after rfl rfl
    · split
      · exact (frameFWD_stays hk (by exact hI') _ _).mono fun s1 h1 => h1.after rfl rfl
      · split
        · exact (frameCONN_stays hk (by exact hI') _ _ _).mono fun s1 h1 => h1.after rfl rfl
        · exact .ok (stays_of hI' rfl rfl)

/-- An iteration for anything but a new connection of a proxy leaves the other proxies what they are. -/
theorem iteration_stays (hI : I ev.world) (hother : ¬(env.instanceName ev.id = literal ['P'] ∧ ev.isNew = true)) :
    Returns (Stays I s) (s.iteration env ev) := by
  unfold iteration
  refine Returns.bind (P := fun x => Stays I s x.2) ?_ ?_
  · unfold dispatch
    dsimp only
    split
    · rename_i hp
      rw [if_neg fun hnew => hother ⟨hp, hnew⟩]
      exact (frame_stays hk (by exact hI) ev _).mono fun x hx => hx.after rfl rfl
    · split
      · exact (newProcess_stays hk (by exact hI) ev _).mono fun x hx => hx.after rfl rfl
      · exact (message_stays hk (by exact hI) ev _).mono fun x hx => hx.after rfl rfl
  · rintro ⟨h, s1⟩ h1
    exact (lift_returns _).bind fun w hw =>
      .ok (h1.trans (stays_of (HandleUser.destroy_keeps hk.handles h1.world hw) rfl rfl))

/-- The iteration for a new connection of a proxy, on which the name of its pool comes first: it is then the one
of this pool. -/
theorem iteration_greets (hI : I ev.world) (hp : env.instanceName ev.id = literal ['P']) (hnew : ev.isNew = true)
    {poolName : Bytes} (hname : 0 ∉ poolName) {h : HandleUser Nat} {w : W}
    (ht : env.Takes ev ⟨some ev.id, true, ev.isNew⟩ ev.world
      (.message (ProxyFrame.toBytes ⟨Cmd.PRX.toByte, 0, poolName⟩)) h w) :
    s.iteration env ev = .ok { s with
        world := w
        heap := s.heap ++ [h]
        proxies := Function.update s.proxies poolName (some (some s.heap.length)) } ∧
      I w ∧ h.realHandle = some ev.id := by
  have hgreet := newProxy_toBytes (s := { s with world := ev.world }) hname ht
  obtain ⟨r, r', h1, w1, hprobe, hreceive⟩ := ht
  refine ⟨?_, ?_, (HandleUser.receive_user hreceive).trans (HandleUser.probe_user hprobe)⟩
  · unfold iteration dispatch
    dsimp only
    rw [if_pos hp, if_pos hnew, hgreet]
    rfl
  · exact HandleUser.receive_keeps hk.handles (HandleUser.probe_keeps hk.handles hI hprobe) hreceive

end

end Proxy

end Mtcl
