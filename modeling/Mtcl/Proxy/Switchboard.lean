import Mtcl.Proxy.Forwarding

/-!
# A proxy at work

While a proxy forwards what the processes of its pool send each other, more of them connect: a process asks for
a component of the pool, and the proxy makes a connection to it.  `join_carries` says that such an iteration
joins the two handles and disturbs nothing else, and `work_carries` that in every run of both kinds of
iterations the proxy stands where a switch stands whose wiring grows.

`hop_transparent` is what the processes notice: each end of a connection of one hop gets the messages of the
other end, in order and without loss, and behind the last one its end.
-/

namespace Mtcl

open Sources Switch

namespace Proxy

variable {W : Type} {g : Wiring} {env : ProxyEnv W} {closed : Nat → Bool} {S : Nat → View → W → Prop}
  {Q : Nat → List Bytes} {x : Nat → Port Bytes} {s : Proxy W} {i j : Nat} {ev : ProxyEvent W}

/-- What `Manager::connect` does, where there is a handle already: it returns a new one, to whose peer nothing
has been sent, or none. -/
def Dials (env : ProxyEnv W) (S : Nat → View → W → Prop) (Q : Nat → List Bytes) : Prop :=
  ∀ le w u w', env.connect le w = .ok (u, w') → ∀ v k n ph out, Appears S v w → v k = some ⟨n + 1, ph, out⟩ →
    match u.realHandle with
    | none => Appears S v w'
    | some j => v j = none → Appears S (Function.update v j (some ⟨1, .idle (Q j), ([], false)⟩)) w'

/-- What `getNext` returns for a new process: its handle, on which the connection string comes first. -/
structure HandsNew (S : Nat → View → W → Prop) (Q : Nat → List Bytes) (i : Nat) (connectString : Bytes) (w : W)
    (ev : ProxyEvent W) : Prop where
  id : ev.id = i
  new : ev.isNew = true
  world : ∀ v, Appears S v w → v i = none →
    Appears S (Function.update v i (some ⟨1, .idle (connectString :: Q i), ([], false)⟩)) ev.world

/-- The handles have no part in the wiring, and IDs that no handle has had. -/
structure Unwired (g : Wiring) (env : ProxyEnv W) (i j : Nat) : Prop where
  left : g.role i = none
  right : g.role j = none
  distinct : env.address i ≠ env.address j
  fresh : ∀ k, g.role k ≠ none → env.address k ≠ env.address i ∧ env.address k ≠ env.address j
  nameLeft : env.instanceName i ≠ literal ['P']
  nameRight : env.instanceName j ≠ literal ['P']

/-- A proxy at work: its wiring, the ports of the switch, and the proxy. -/
structure Switchboard (W : Type) where
  wiring : Wiring
  ports : Nat → Port Bytes
  proxy : Proxy W

/-- What the proxy does: it takes what has come on a handle, or it makes a connection of one hop. -/
inductive Work
  | turn (i : Nat)
  | join (i j : Nat)

/-- The process behind the handle `i` asks for a component of the pool, and the proxy gets a connection to it,
with the handle `j`. -/
def Joins (env : ProxyEnv W) (S : Nat → View → W → Prop) (Q : Nat → List Bytes) (i j : Nat) (g : Wiring) (s : Proxy W)
    (ev : ProxyEvent W) : Prop :=
  Unwired g env i j ∧ ∃ connectString comp, HandsNew S Q i connectString s.world ev ∧
    env.components (afterColon connectString) = some comp ∧ (poolOf comp = [] ∨ poolOf comp = env.pool) ∧
    beforeColon connectString ≠ [] ∧
    ∀ h w, env.Takes ev ⟨some ev.id, true, ev.isNew⟩ ev.world (.message connectString) h w →
      ∃ u w', env.connectFirst (beforeColon connectString) comp.listenStrs w = .ok (some u, w') ∧ u.realHandle = some j

/-- An iteration. -/
def works (env : ProxyEnv W) (closed : Nat → Bool) (S : Nat → View → W → Prop) (Q : Nat → List Bytes) :
    Work → Switchboard W → Switchboard W → Prop
  | .turn i, t, t' => t'.wiring = t.wiring ∧ t.wiring.Serves t.ports i ∧
      step t.wiring.onward closed i t.ports = some t'.ports ∧
      ∃ ev, HandsOut S i t.proxy.world ev ∧ t.proxy.iteration env ev = .ok t'.proxy
  | .join i j, t, t' => t'.wiring = t.wiring.join i j ∧ t'.ports = t.ports ∧
      ∃ ev, Joins env S Q i j t.wiring t.proxy ev ∧ t.proxy.iteration env ev = .ok t'.proxy

/-! ### A connection is made -/

/-- The first endpoint that can be connected to. -/
private theorem connectFirst_shows (hdial : Dials env S Q) {protocol : Bytes} {les : List Bytes} {w w' : W}
    {u : HandleUser Nat} (h : env.connectFirst protocol les w = .ok (some u, w')) (hu : u.realHandle = some j)
    {n : Nat} {ph : Phase (List Bytes) Bytes} {out : List Bytes × Bool}
    {v : Nat → Option View} (hs : Appears S v w) (hi : v i = some ⟨n + 1, ph, out⟩) (hj : v j = none) :
    Appears S (Function.update v j (some ⟨1, .idle (Q j), ([], false)⟩)) w' := by
  induction les generalizing w with
  | nil => cases h
  | cons le les ih =>
    unfold ProxyEnv.connectFirst at h
    split at h
    · obtain ⟨⟨u1, w1⟩, hconn, h⟩ := bind_eq_ok.1 h
      have hd := hdial le w u1 w1 hconn v i n ph out hs hi
      dsimp only at h
      cases hr : u1.realHandle with
      | none =>
        rw [hr] at h hd
        exact ih h hd
      | some k =>
        rw [hr] at h
        cases h
        rw [hu] at hd
        exact hd hj
    · exact ih h hs

private theorem join_cases {k : Nat} {r : Role} (hk : (g.join i j).role k = some r) :
    (k = i ∧ r = .hop j) ∨ (k = j ∧ r = .hop i) ∨ (k ≠ i ∧ k ≠ j ∧ g.role k = some r) := by
  change Function.update (Function.update g.role i _) j _ k = some r at hk
  by_cases hkj : k = j
  · subst hkj
    rw [Function.update_self] at hk
    cases hk
    exact .inr (.inl ⟨rfl, rfl⟩)
  · rw [Function.update_of_ne hkj] at hk
    by_cases hki : k = i
    · subst hki
      rw [Function.update_self] at hk
      cases hk
      exact .inl ⟨rfl, rfl⟩
    · rw [Function.update_of_ne hki] at hk
      exact .inr (.inr ⟨hki, hkj, hk⟩)

private theorem join_left (hne : i ≠ j) : (g.join i j).role i = some (.hop j) :=
  (Function.update_of_ne hne ..).trans (Function.update_self ..)

private theorem join_right : (g.join i j).role j = some (.hop i) := Function.update_self ..

private theorem Unwired.old (hun : Unwired g env i j) {k : Nat} {r : Role} (hk : g.role k = some r) :
    k ≠ i ∧ k ≠ j ∧ (g.join i j).role k = some r := by
  have hki : k ≠ i := by
    rintro rfl
    rw [hun.left] at hk
    cases hk
  have hkj : k ≠ j := by
    rintro rfl
    rw [hun.right] at hk
    cases hk
  exact ⟨hki, hkj, (Function.update_of_ne hkj ..).trans ((Function.update_of_ne hki ..).trans hk)⟩

private theorem Unwired.ne (hun : Unwired g env i j) : i ≠ j := fun he => hun.distinct (congrArg env.address he)

private theorem fits_join (hg : g.Fits env closed) (hun : Unwired g env i j) : (g.join i j).Fits env closed := by
  have hne := hun.ne
  refine ⟨?_, ?_, ?_, ?_, ?_, ?_, ?_⟩
  · intro k k' hk
    rcases join_cases hk with ⟨rfl, he⟩ | ⟨rfl, he⟩ | ⟨-, -, hk⟩
    · cases he
      exact ⟨Ne.symm hne, join_right⟩
    · cases he
      exact ⟨hne, join_left hne⟩
    · exact ⟨(hg.hop hk).1, (hun.old (hg.hop hk).2).2.2⟩
  · intro k c via hk
    rcases join_cases hk with ⟨-, he⟩ | ⟨-, he⟩ | ⟨-, -, hk⟩
    · cases he
    · cases he
    · exact (hun.old (hg.via hk)).2.2
  · intro c k
    refine hg.target.trans ⟨?_, ?_⟩
    · rintro ⟨r, hr, hc⟩
      exact ⟨r, (hun.old hr).2.2, hc⟩
    · rintro ⟨r, hr, hc⟩
      rcases join_cases hr with ⟨-, rfl⟩ | ⟨-, rfl⟩ | ⟨-, -, hr⟩
      · cases hc
      · cases hc
      · exact ⟨r, hr, hc⟩
  · intro k r hk
    rcases join_cases hk with ⟨rfl, rfl⟩ | ⟨rfl, rfl⟩ | ⟨-, -, hk⟩
    · exact iff_of_false hun.nameLeft nofun
    · exact iff_of_false hun.nameRight nofun
    · exact hg.name hk
  · have haddr : ∀ {k k' r}, k' = i ∨ k' = j → g.role k = some r → env.address k ≠ env.address k' := by
      intro k k' r hk' hk he
      obtain ⟨h1, h2⟩ := hun.fresh k (by rw [hk]; nofun)
      rcases hk' with rfl | rfl
      · exact h1 he
      · exact h2 he
    intro k k' hk hk' he
    obtain ⟨r, hr⟩ := Option.ne_none_iff_exists'.1 hk
    obtain ⟨r', hr'⟩ := Option.ne_none_iff_exists'.1 hk'
    rcases join_cases hr with ⟨rfl, -⟩ | ⟨rfl, -⟩ | ⟨-, -, ho⟩ <;> rcases join_cases hr' with ⟨rfl, -⟩ |
      ⟨rfl, -⟩ | ⟨-, -, ho'⟩
    · rfl
    · exact absurd he hun.distinct
    · exact absurd he.symm (haddr (.inl rfl) ho')
    · exact absurd he.symm hun.distinct
    · rfl
    · exact absurd he.symm (haddr (.inr rfl) ho')
    · exact absurd he (haddr (.inl rfl) ho)
    · exact absurd he (haddr (.inr rfl) ho)
    · exact hg.address (by rw [ho]; nofun) (by rw [ho']; nofun) he
  · intro k hk
    rcases join_cases hk with ⟨-, he⟩ | ⟨-, he⟩ | ⟨-, -, hk⟩
    · cases he
    · cases he
    · exact hg.endless hk
  · intro k r c hk hc
    rcases join_cases hk with ⟨-, rfl⟩ | ⟨-, rfl⟩ | ⟨-, -, hk⟩
    · cases hc
    · cases hc
    · exact hg.small hk hc

private theorem tabled_join (hun : Unwired g env i j) (ht : Tabled g env x s) {u v : HandleUser Nat}
    (hu : u.realHandle = some i ∧ u.isReadable = false) (hv : v.realHandle = some j ∧ v.isReadable = false) :
    Tabled (g.join i j) env x { s with
      proc2proc := Function.update (Function.update s.proc2proc (env.address i) (some (env.address j))) (env.address j)
        (some (env.address i))
      id2handle := Function.update (Function.update s.id2handle (env.address j) (some v)) (env.address i)
        (some u) } := by
  have hne := hun.ne
  have haddr : ∀ {k r}, g.role k = some r → env.address k ≠ env.address i ∧ env.address k ≠ env.address j :=
    fun hk => hun.fresh _ (by rw [hk]; nofun)
  refine ⟨fun {k r} hk hp hd => ?_, fun {k k'} hk he => ?_, fun {k c via} hk => ?_, ht.routed,
    fun {k c via} hk he => ?_, fun k hk => ?_⟩
  · dsimp only
    rcases join_cases hk with ⟨rfl, -⟩ | ⟨rfl, -⟩ | ⟨-, -, hk⟩
    · rw [Function.update_self]
      exact ⟨u, rfl, hu⟩
    · rw [Function.update_of_ne (Ne.symm hun.distinct), Function.update_self]
      exact ⟨v, rfl, hv⟩
    · rw [Function.update_of_ne (haddr hk).1, Function.update_of_ne (haddr hk).2]
      exact ht.held hk hp hd
  · dsimp only
    rcases join_cases hk with ⟨rfl, hr⟩ | ⟨rfl, hr⟩ | ⟨-, -, hk⟩
    · cases hr
      rw [Function.update_of_ne hun.distinct, Function.update_self]
    · cases hr
      rw [Function.update_self]
    · rw [Function.update_of_ne (haddr hk).2, Function.update_of_ne (haddr hk).1]
      exact ht.joined hk he
  · dsimp only
    rcases join_cases hk with ⟨-, hr⟩ | ⟨-, hr⟩ | ⟨-, -, hk⟩
    · cases hr
    · cases hr
    · rw [Function.update_of_ne (haddr hk).2, Function.update_of_ne (haddr hk).1]
      exact ht.unjoined hk
  · rcases join_cases hk with ⟨-, hr⟩ | ⟨-, hr⟩ | ⟨-, -, hk⟩
    · cases hr
    · cases hr
    · exact ht.proxied hk he
  · have hold : ∀ i, g.role i ≠ none → env.address i ≠ k := by
      intro k' hk'
      obtain ⟨r, hr⟩ := Option.ne_none_iff_exists'.1 hk'
      exact hk k' (by rw [(hun.old hr).2.2]; nofun)
    have hki : k ≠ env.address i := Ne.symm (hk i (by rw [join_left hne]; nofun))
    have hkj : k ≠ env.address j := Ne.symm (hk j (by rw [join_right]; nofun))
    obtain ⟨h1, h2⟩ := ht.unused k hold
    dsimp only
    rw [Function.update_of_ne hkj, Function.update_of_ne hki, Function.update_of_ne hki, Function.update_of_ne hkj]
    exact ⟨h1, h2⟩

private theorem keepHandle_new {u v : HandleUser Nat} {w : W} (hv : v.realHandle = some i)
    (hyield : u.yield env.vt s.world = .ok (v, w)) (hnone : s.id2handle (env.address i) = none) :
    s.keepHandle env u = .ok { s with
      world := w
      id2handle := Function.update s.id2handle (env.address i) (some v) } := by
  unfold keepHandle
  rw [hyield]
  dsimp only [lift, Except.mapError, bind, Except.bind]
  rw [getID_real hv, hnone]
  rfl

/-- An iteration in which a process asks for a component of the pool returns, and joins the two handles. -/
theorem join_carries (hd : Duplex env.vt closed S) (hdial : Dials env S Q) (h : Carries g env S x s)
    (hi : x i = Switch.start Q i) (hj : x j = Switch.start Q j) (hjoins : Joins env S Q i j g s ev) :
    ∃ s', s.iteration env ev = .ok s' ∧ Carries (g.join i j) env S x s' := by
  obtain ⟨hun, cs, comp, hev, hcomp, hpool, hprotocol, hdials⟩ := hjoins
  have hne := hun.ne
  obtain ⟨users, ⟨v, hv, hx⟩, hone⟩ := h.shown
  -- of the handles only those of the wiring are known
  let v0 : Nat → Option View := fun k => if g.role k = none then none else v k
  have hv0 : Appears S v0 s.world := by
    intro k y hk
    by_cases hr : g.role k = none
    · rw [show v0 k = none from if_pos hr] at hk
      cases hk
    · rw [show v0 k = v k from if_neg hr] at hk
      exact hv k y hk
  have hv1 := hev.world v0 hv0 (if_pos hun.left)
  have hreal : (⟨some ev.id, true, ev.isNew⟩ : HandleUser Nat).realHandle = some i := congrArg some hev.id
  obtain ⟨-, u1, w1, u2, w2, hprobe, hrecv, hu2, -, hv2⟩ :=
    hd.read_message (n := 0) hv1 (Function.update_self ..) hreal rfl ev.size
  have htakes : env.Takes ev ⟨some ev.id, true, ev.isNew⟩ ev.world (.message cs) u2 w2 := ⟨_, _, u1, w1, hprobe, hrecv⟩
  rw [Function.update_idem] at hv2
  obtain ⟨uj, w3, hfirst, huj⟩ := hdials u2 w2 htakes
  have hv3 := connectFirst_shows (n := 0) hdial hfirst huj hv2 (Function.update_self ..)
    ((Function.update_of_ne (Ne.symm hne) ..).trans (if_pos hun.right))
  -- both handles are given back
  obtain ⟨w4, hyieldj, hv4⟩ := hd.yield_user (n := 0) hv3 (Function.update_self ..) huj
  obtain ⟨w5, hyieldi, hv5⟩ := hd.yield_user (n := 0) hv4
    ((Function.update_of_ne hne ..).trans (Function.update_self ..)) hu2
  have hunused : ∀ k, k = i ∨ k = j → s.proc2proc (env.address k) = none ∧ s.id2handle (env.address k) = none := by
    intro k hk
    refine h.tabled.unused _ fun k' hk' => ?_
    obtain ⟨h1, h2⟩ := hun.fresh k' hk'
    rcases hk with rfl | rfl
    · exact h1
    · exact h2
  obtain ⟨hpi, hidi⟩ := hunused i (.inl rfl)
  obtain ⟨hpj, hidj⟩ := hunused j (.inr rfl)
  have ht := tabled_join (u := { u2 with isReadable := false, newConnection := false })
    (v := { uj with isReadable := false, newConnection := false }) hun h.tabled ⟨hu2, rfl⟩ ⟨huj, rfl⟩
  refine ⟨_, ?_, ⟨Function.update (Function.update users i 1) j 1, ⟨_, hv5, fun k hk => ?_⟩, fun k hk hdone => ?_⟩,
    ht.inWorld w5⟩
  · have hname : env.instanceName ev.id ≠ literal ['P'] := hev.id ▸ hun.nameLeft
    have hread : lift (env.readMessage ev ⟨some ev.id, true, ev.isNew⟩ ev.world) = .ok (cs.length, cs, u2, w2) := by
      rw [htakes.readMessage]
      exact congrArg (fun bs => Except.ok (cs.length, bs, u2, w2)) (overlay_full ev.garbage cs)
    have hlift : lift (env.connectFirst (beforeColon cs) comp.listenStrs w2) = .ok (some uj, w3) := by
      rw [hfirst]
      rfl
    have hproc : Function.update (Function.update s.proc2proc (env.getID u2)
          (some ((s.proc2proc (env.getID u2)).getD (env.getID uj)))) (env.getID uj)
          (some (((Function.update s.proc2proc (env.getID u2) (some ((s.proc2proc (env.getID u2)).getD (env.getID uj))))
            (env.getID uj)).getD (env.getID u2))) =
        Function.update (Function.update s.proc2proc (env.address i) (some (env.address j))) (env.address j)
          (some (env.address i)) := by
      rw [getID_real hu2, getID_real huj, hpi, Function.update_of_ne (Ne.symm hun.distinct), hpj]
      rfl
    generalize hp : Function.update (Function.update s.proc2proc (env.address i) (some (env.address j))) (env.address j)
      (some (env.address i)) = p at hproc ⊢
    have hkeepj := keepHandle_new (s := { s with world := w3, proc2proc := p })
      (v := { uj with isReadable := false, newConnection := false }) huj hyieldj hidj
    have hkeepi := keepHandle_new (s := { s with
      world := w4
      proc2proc := p
      id2handle := Function.update s.id2handle (env.address j)
        (some { uj with isReadable := false, newConnection := false }) })
      (v := { u2 with isReadable := false, newConnection := false }) hu2 hyieldi
        ((Function.update_of_ne hun.distinct ..).trans hidi)
    unfold iteration dispatch
    dsimp only
    rw [if_neg hname, if_pos hev.new]
    unfold newProcess
    dsimp only
    rw [hread]
    dsimp only [bind, Except.bind]
    rw [hcomp]
    dsimp only
    rw [if_pos hpool]
    unfold oneHop
    rw [if_neg hprotocol]
    dsimp only
    rw [hlift]
    dsimp only [bind, Except.bind]
    rw [hproc, hkeepj]
    dsimp only
    rw [hkeepi]
    rfl
  · obtain ⟨r, hr⟩ := Option.ne_none_iff_exists'.1 hk
    by_cases hkj : k = j
    · subst hkj
      rw [Function.update_self, Function.update_self, hj]
      rfl
    · rw [Function.update_of_ne hkj, Function.update_of_ne hkj]
      by_cases hki : k = i
      · subst hki
        rw [Function.update_self, Function.update_self, hi]
        rfl
      · rw [Function.update_of_ne hki, Function.update_of_ne hki]
        rcases join_cases hr with ⟨rfl, -⟩ | ⟨rfl, -⟩ | ⟨-, -, ho⟩
        · exact absurd rfl hki
        · exact absurd rfl hkj
        · have hold : g.role k ≠ none := by rw [ho]; nofun
          exact (if_neg hold).trans (hx k hold)
  · obtain ⟨r, hr⟩ := Option.ne_none_iff_exists'.1 hk
    by_cases hkj : k = j
    · rw [hkj, Function.update_self]
    · rw [Function.update_of_ne hkj]
      by_cases hki : k = i
      · rw [hki, Function.update_self]
      · rw [Function.update_of_ne hki]
        rcases join_cases hr with ⟨rfl, -⟩ | ⟨rfl, -⟩ | ⟨-, -, ho⟩
        · exact absurd rfl hki
        · exact absurd rfl hkj
        · exact hone k (by rw [ho]; nofun) hdone

/-! ### Runs -/

/-- The proxy with the connections it has from its start, before anything has been read.  Any wiring that `Fits`
may be there:  connections of one hop, and connections through other proxies, each with an ID of its own.  A
connection through another proxy is in a run from here on or not at all, since `join` makes those of one hop
only. -/
structure Begins (env : ProxyEnv W) (closed : Nat → Bool) (S : Nat → View → W → Prop) (Q : Nat → List Bytes)
    (t : Switchboard W) : Prop where
  ports : t.ports = Switch.start Q
  fits : t.wiring.Fits env closed
  carries : Carries t.wiring env S t.ports t.proxy

/-- The ports are those of a switch that has read from handles of the wiring only. -/
abbrev Wired (g : Wiring) (closed : Nat → Bool) (Q : Nat → List Bytes) : (Nat → Port Bytes) → Prop :=
  Runs.Reach (· = Switch.start Q) fun i x x' => g.role i ≠ none ∧ step g.onward closed i x = some x'

/-- The proxy stands where a switch stands that has the wiring of the moment. -/
structure Stands (env : ProxyEnv W) (closed : Nat → Bool) (S : Nat → View → W → Prop) (Q : Nat → List Bytes)
    (t : Switchboard W) : Prop where
  fits : t.wiring.Fits env closed
  wired : Wired t.wiring closed Q t.ports
  carries : Carries t.wiring env S t.ports t.proxy

private theorem serves_role (h : g.Serves x i) : g.role i ≠ none := by
  intro hr
  unfold Wiring.Serves at h
  rw [hr] at h
  exact h

theorem Wired.run (h : Wired g closed Q x) : Run g.onward closed Q x := h.mono fun _ _ _ hs => hs.2

/-- Nothing has been read from a handle that the wiring does not have, and nothing has been put on it. -/
private theorem Wired.untouched (hg : g.Fits env closed) (h : Wired g closed Q x) (hi : g.role i = none) :
    x i = Switch.start Q i := by
  refine h.invariant (fun x => x i = Switch.start Q i) (fun x hx => congrFun hx i) ?_
  rintro k x x' ih ⟨hk, hs⟩
  obtain ⟨m, p, -, rfl⟩ := step_eq_some.1 hs
  have hne : ∀ {k r}, g.role k = some r → i ≠ k := by
    rintro k r hr rfl
    rw [hi] at hr
    cases hr
  obtain ⟨r, hr⟩ := Option.ne_none_iff_exists'.1 hk
  have hp : Function.update x k p i = Switch.start Q i := (Function.update_of_ne (hne hr) ..).trans ih
  cases ho : g.onward k m with
  | none => exact hp
  | some o =>
    obtain ⟨j, m'⟩ := o
    have hrj : ∃ rj, g.role j = some rj := by
      rcases Wiring.onward_cases ho with ⟨hop, -⟩ | ⟨c, hcaller, -⟩ | ⟨-, -, f, -, -, ht, -⟩
      · exact ⟨_, (hg.hop hop).2⟩
      · exact ⟨_, hg.via hcaller⟩
      · obtain ⟨rj, hrj, -⟩ := hg.target.1 ht
        exact ⟨rj, hrj⟩
    obtain ⟨rj, hrj⟩ := hrj
    exact (Function.update_of_ne (hne hrj) ..).trans hp

private theorem wired_join (hun : Unwired g env i j) (h : Wired g closed Q x) : Wired (g.join i j) closed Q x := by
  refine h.mono fun k x x' ⟨hk, hs⟩ => ?_
  obtain ⟨r, hr⟩ := Option.ne_none_iff_exists'.1 hk
  have hrole := (hun.old hr).2.2
  refine ⟨by rw [hrole]; nofun, ?_⟩
  have honward : (g.join i j).onward k = g.onward k := by
    funext m
    unfold Wiring.onward
    rw [hrole, hr]
    rfl
  obtain ⟨m, p, hread, rfl⟩ := step_eq_some.1 hs
  refine step_eq_some.2 ⟨m, p, hread, ?_⟩
  rw [honward]

/-- In every run of both kinds of iterations the proxy stands where a switch stands. -/
theorem works_stand (hd : Duplex env.vt closed S) (hdial : Dials env S Q) {t : Switchboard W}
    (h : Runs.Reach (Begins env closed S Q) (works env closed S Q) t) : Stands env closed S Q t := by
  refine h.invariant (Stands env closed S Q) (fun t ht => ⟨ht.fits, .start ht.ports, ht.carries⟩) ?_
  rintro (i | ⟨i, j⟩) ⟨g, x, s⟩ ⟨g', x', s'⟩ ⟨hg, hw, hc⟩ hstep
  · obtain ⟨he, hserves, hs, ev, hev, hit⟩ := hstep
    obtain rfl : g' = g := he
    obtain ⟨s1, hit', hc'⟩ := turn_carries hd hg hw.run hc hserves hs hev
    obtain rfl : s1 = s' := Except.ok.inj (hit'.symm.trans hit)
    exact ⟨hg, .next i hw ⟨serves_role hserves, hs⟩, hc'⟩
  · obtain ⟨he, hx, ev, hjoins, hit⟩ := hstep
    obtain rfl : g' = g.join i j := he
    obtain rfl : x' = x := hx
    have hun := hjoins.1
    obtain ⟨s1, hit', hc'⟩ := join_carries hd hdial hc (hw.untouched hg hun.left) (hw.untouched hg hun.right) hjoins
    obtain rfl : s1 = s' := Except.ok.inj (hit'.symm.trans hit)
    exact ⟨fits_join hg hun, wired_join hun hw, hc'⟩

/-- The iteration returns for a handle from which there is something to read. -/
theorem Stands.turn (hd : Duplex env.vt closed S) {t : Switchboard W} (h : Stands env closed S Q t)
    (hserves : t.wiring.Serves t.ports i)
    (hsome : (t.ports i).unread ≠ [] ∨ closed i = true ∧ (t.ports i).ended = false)
    (hev : HandsOut S i t.proxy.world ev) :
    ∃ t', works env closed S Q (.turn i) t t' ∧ t.proxy.iteration env ev = .ok t'.proxy := by
  obtain ⟨g, x, s⟩ := t
  obtain ⟨hg, hw, hc⟩ := h
  obtain ⟨r, hr⟩ : ∃ r, (x i).read (closed i) = some r := by
    unfold Port.read
    cases hq : (x i).unread with
    | cons m q => exact ⟨_, rfl⟩
    | nil =>
      obtain ⟨hclosed, hopen⟩ := hsome.resolve_left fun hne => hne hq
      exact ⟨_, if_pos (by rw [hclosed, hopen]; rfl)⟩
  have hs : step g.onward closed i x = some (deliver (g.onward i r.1) (Function.update x i r.2)) :=
    step_eq_some.2 ⟨r.1, r.2, hr, rfl⟩
  obtain ⟨s', hit, -⟩ := turn_carries hd hg hw.run hc hserves hs hev
  exact ⟨⟨g, _, s'⟩, ⟨rfl, hserves, hs, ev, hev, hit⟩, hit⟩

/-- In every run of a proxy, each end of a connection of one hop has been given the messages that have come from
the other end, in order and without loss, and behind the last of them its end.  The proxy does not stop: every
iteration returns for a handle from which there is something to read, and every one that makes a connection. -/
theorem hop_transparent (hd : Duplex env.vt closed S) (hdial : Dials env S Q) {t : Switchboard W}
    (h : Runs.Reach (Begins env closed S Q) (works env closed S Q) t) :
    (∀ i j, t.wiring.role i = some (.hop j) → (t.ports i).got ++ (t.ports i).unread = Q i ∧
      ((t.ports i).ended = true → (t.ports i).unread = [] ∧ closed i = true) ∧
      ∃ users ph, S j ⟨users, ph, ((t.ports i).got, (t.ports i).ended)⟩ t.proxy.world) ∧
    (∀ i, t.wiring.Serves t.ports i → (t.ports i).unread ≠ [] ∨ closed i = true ∧ (t.ports i).ended = false →
      ∀ ev, HandsOut S i t.proxy.world ev → ∃ t', works env closed S Q (.turn i) t t' ∧
        t.proxy.iteration env ev = .ok t'.proxy) ∧
    ∀ i j ev, Joins env S Q i j t.wiring t.proxy ev →
      ∃ t', works env closed S Q (.join i j) t t' ∧ t.proxy.iteration env ev = .ok t'.proxy := by
  obtain ⟨g, x, s⟩ := t
  obtain ⟨hg, hw, hc⟩ := works_stand hd hdial h
  refine ⟨fun i j hi => ?_, fun i hserves hsome ev hev => ?_, fun i j ev hjoins => ?_⟩
  · obtain ⟨users, ⟨v, hv, hx⟩, -⟩ := hc.shown
    have hj : g.role j ≠ none := by
      rw [(hg.hop hi).2]
      nofun
    obtain ⟨hread, hend⟩ := hw.run.read i
    refine ⟨hread, hend, users j, phase (x j), ?_⟩
    have hview := hv j _ (hx j hj)
    rw [hop_out hg hw.run hi] at hview
    exact hview
  · exact (works_stand hd hdial h).turn hd hserves hsome hev
  · have hun := hjoins.1
    obtain ⟨s', hit, -⟩ := join_carries hd hdial hc (hw.untouched hg hun.left) (hw.untouched hg hun.right) hjoins
    exact ⟨⟨g.join i j, x, s'⟩, ⟨rfl, rfl, ev, hjoins, hit⟩, hit⟩

section

/-- A process with two connections, on which these bytes come in. -/
def twoHandles (bs bs' : Bytes) : Process :=
  let p := Process.newHandle (Process.newHandle {} ⟨3, Arrivals.putBack bs [], []⟩) ⟨4, Arrivals.putBack bs' [], []⟩
  let p := p.put 0 { p.handles 0 with counter := 1 }
  p.put 1 { p.handles 1 with counter := 1 }

private theorem twoHandles_inv (bs bs' : Bytes) : (twoHandles bs bs').Inv := by
  have h0 : App.Reachable {} := .start ⟨fun _ => 0, rfl, fun _ => rfl⟩
  have h1 := Process.inv_tableStep h0.inv (.add _ (s := ⟨3, Arrivals.putBack bs [], []⟩) (Finset.notMem_empty 3))
  have h2 := Process.inv_tableStep h1 (.add _ (s := ⟨4, Arrivals.putBack bs' [], []⟩)
    (show 4 ∉ insert 3 (∅ : Finset Nat) by decide))
  unfold twoHandles
  exact Process.inv_put rfl (Process.inv_put rfl h2)

/-- The messages of two peers come in. -/
theorem twoHandles_shows {base : Nat → Bytes} (hbase : ∀ i < 2, base i = []) (closed : Nat → Bool)
    {Q : Nat → List Bytes} (hQ : ∀ i, ∀ m ∈ Q i, Sendable m) : Appears (tcpView base closed)
      (fun
        | 0 => some ⟨1, .idle (Q 0), ([], false)⟩
        | 1 => some ⟨1, .idle (Q 1), ([], false)⟩
        | _ => none)
      (twoHandles (encode (closed 0) (Q 0)) (encode (closed 1) (Q 1))) := by
  have hinv := twoHandles_inv (encode (closed 0) (Q 0)) (encode (closed 1) (Q 1))
  rintro (_ | _ | i) y hy
  · cases hy
    exact ⟨⟨⟨hinv, Nat.zero_lt_two, rfl, rfl, rfl, fun _ => nofun, by rw [hbase 0 Nat.zero_lt_two]; rfl⟩, rfl⟩,
      rfl, hQ 0, arrives_putBack ..⟩
  · cases hy
    exact ⟨⟨⟨hinv, Nat.one_lt_two, rfl, rfl, rfl, fun _ => nofun, by rw [hbase 1 Nat.one_lt_two]; rfl⟩, rfl⟩, rfl, hQ 1,
      arrives_putBack ..⟩
  · cases hy

/-- The wiring of the two handles. -/
def twoEnds (r r' : Role) (target : Nat → Option Nat) : Wiring where
  role
    | 0 => some r
    | 1 => some r'
    | _ => none
  target := target

theorem twoEnds_role {r r' r0 : Role} {target : Nat → Option Nat} {i : Nat}
    (h : (twoEnds r r' target).role i = some r0) : (i = 0 ∧ r0 = r) ∨ (i = 1 ∧ r0 = r') := by
  match i, h with
  | 0, h => exact .inl ⟨rfl, (Option.some.inj h).symm⟩
  | 1, h => exact .inr ⟨rfl, (Option.some.inj h).symm⟩

/-- Over TCP `Manager::connect` is like this. -/
theorem tcp_dials {env : ProxyEnv Process} {base : Nat → Bytes} (hQ : ∀ i, ∀ m ∈ Q i, Sendable m)
    {socket : Bytes → Process → Option Socket} (hconnect : ∀ le p, env.connect le p = p.managerConnect (socket le p))
    (hsocket : ∀ le p k, socket le p = some k → Moves k.answers ∧
      Arrives (closed p.allocated) k.incoming (encode (closed p.allocated) (Q p.allocated)) ∧
      base p.allocated = Mtcl.frame (List.replicate sizeofInt 0)) : Dials env (tcpView base closed) Q := by
  intro le p u p' h v k n ph out hs hk
  rw [hconnect] at h
  rcases tcp_connects h (tcpView_side (hs k _ hk)).inv hs (hQ p.allocated) (hsocket le p) with ⟨hu, rfl⟩ | ⟨hu, hs'⟩
  · rw [hu]
    exact hs
  · rw [hu]
    exact fun _ => hs'

/-- The first two handles have been accepted; on the others the collective flag has been sent. -/
def flagged (i : Nat) : Bytes := if i < 2 then [] else Mtcl.frame (List.replicate sizeofInt 0)

/-- A proxy over TCP that has two handles, and to which the kernel yields sockets on which `Q` comes. -/
def overTcp (instanceName : Nat → Bytes) (closed : Nat → Bool) (Q : Nat → List Bytes) : ProxyEnv Process where
  pool := []
  components _ := none
  hash _ := 0
  vt := tcpHandle
  instanceName := instanceName
  address i := i
  connect _ p := p.managerConnect <|
    if p.allocated < 2 then none
    else some ⟨p.allocated + 3, Arrivals.putBack (encode (closed p.allocated) (Q p.allocated)) [], []⟩

theorem overTcp_dials {instanceName : Nat → Bytes} (hQ : ∀ i, ∀ m ∈ Q i, Sendable m) :
    Dials (overTcp instanceName closed Q) (tcpView flagged closed) Q := by
  refine tcp_dials hQ (fun _ _ => rfl) fun le p k hk => ?_
  split at hk
  · cases hk
  · rename_i hp
    cases hk
    exact ⟨nofun, arrives_putBack .., if_neg hp⟩

/-- One process has sent a message to the other, and has closed. -/
private def spoken : Nat → List Bytes
  | 0 => [[1, 2]]
  | _ => []

private def hangsUp (i : Nat) : Bool := i == 0

private def pairEnv : ProxyEnv Process := overTcp (fun _ => literal ['T', 'C', 'P']) hangsUp spoken

private def pair : Switchboard Process where
  wiring := twoEnds (.hop 1) (.hop 0) fun _ => none
  ports := Switch.start spoken
  proxy :=
    { world := twoHandles (encode (hangsUp 0) (spoken 0)) (encode (hangsUp 1) (spoken 1))
      id2handle := fun
        | 0 => some ⟨some 0, false, false⟩
        | 1 => some ⟨some 1, false, false⟩
        | _ => none
      proc2proc := fun
        | 0 => some 1
        | 1 => some 0
        | _ => none }

private theorem pair_fits : pair.wiring.Fits pairEnv hangsUp where
  hop h := by
    rcases twoEnds_role h with ⟨rfl, he⟩ | ⟨rfl, he⟩ <;> cases he <;> exact ⟨by decide, rfl⟩
  via h := by
    rcases twoEnds_role h with ⟨rfl, he⟩ | ⟨rfl, he⟩ <;> cases he
  target := by
    refine ⟨nofun, ?_⟩
    rintro ⟨r, hr, hc⟩
    rcases twoEnds_role hr with ⟨rfl, rfl⟩ | ⟨rfl, rfl⟩ <;> cases hc
  name h := by
    rcases twoEnds_role h with ⟨rfl, rfl⟩ | ⟨rfl, rfl⟩ <;> exact iff_of_false (by decide) nofun
  address _ _ h := h
  endless h := by
    rcases twoEnds_role h with ⟨rfl, he⟩ | ⟨rfl, he⟩ <;> cases he
  small h hc := by
    rcases twoEnds_role h with ⟨rfl, rfl⟩ | ⟨rfl, rfl⟩ <;> cases hc

private theorem spoken_sendable : ∀ i, ∀ m ∈ spoken i, Sendable m := by
  rintro (_ | i) m hm
  · rw [List.mem_singleton.1 hm]
    exact ⟨List.cons_ne_nil _ _, by decide⟩
  · cases hm

private theorem pair_begins : Begins pairEnv hangsUp (tcpView flagged hangsUp) spoken pair := by
  refine ⟨rfl, pair_fits, ⟨fun _ =>
    1, ⟨_, twoHandles_shows (fun _ hi => if_pos hi) hangsUp spoken_sendable, ?_⟩, fun _ _ _ => rfl⟩, ?_⟩
  · intro i hi
    obtain ⟨r, hr⟩ := Option.ne_none_iff_exists'.1 hi
    rcases twoEnds_role hr with ⟨rfl, -⟩ | ⟨rfl, -⟩ <;> rfl
  · refine ⟨fun hr _ _ => ?_, fun hr _ => ?_, fun hr => ?_, ⟨[], Bimap.matches_empty, fun k c => ?_⟩,
      fun hr => ?_, fun k hk => ?_⟩
    · rcases twoEnds_role hr with ⟨rfl, -⟩ | ⟨rfl, -⟩ <;> exact ⟨_, rfl, rfl, rfl⟩
    · rcases twoEnds_role hr with ⟨rfl, he⟩ | ⟨rfl, he⟩ <;> cases he <;> rfl
    · rcases twoEnds_role hr with ⟨rfl, he⟩ | ⟨rfl, he⟩ <;> cases he
    · refine iff_of_false nofun ?_
      rintro ⟨i, hi, -⟩
      cases hi
    · rcases twoEnds_role hr with ⟨rfl, he⟩ | ⟨rfl, he⟩ <;> cases he
    · match k with
      | 0 => exact absurd rfl (hk 0 nofun)
      | 1 => exact absurd rfl (hk 1 nofun)
      | _ + 2 => exact ⟨rfl, rfl⟩

/-- The proxy reads the message, and the other process has it. -/
theorem hop_transparent_run : ∃ t : Switchboard Process,
    Runs.Reach (Begins pairEnv hangsUp (tcpView flagged hangsUp) spoken)
      (works pairEnv hangsUp (tcpView flagged hangsUp) spoken) t ∧ (t.ports 0).got = [[1, 2]] ∧
    ∃ users ph, tcpView flagged hangsUp 1 ⟨users, ph, ((t.ports 0).got, (t.ports 0).ended)⟩ t.proxy.world := by
  have hd : Duplex pairEnv.vt hangsUp (tcpView flagged hangsUp) := tcp_duplex flagged hangsUp
  have hdial : Dials pairEnv (tcpView flagged hangsUp) spoken := overTcp_dials spoken_sendable
  have h0 : Runs.Reach (Begins pairEnv hangsUp (tcpView flagged hangsUp) spoken)
      (works pairEnv hangsUp (tcpView flagged hangsUp) spoken) pair := .start pair_begins
  obtain ⟨ev, hev⟩ := HandsOut.exists (i := 0) (n := 0) hd
    (twoHandles_shows (fun _ hi => if_pos hi) hangsUp spoken_sendable) rfl
  obtain ⟨t, ht, -⟩ := (works_stand hd hdial h0).turn hd (i := 0) trivial (.inl (List.cons_ne_nil _ _)) hev
  have h1 := h0.next (.turn 0) ht
  obtain ⟨hwiring, -, hstep, -⟩ := ht
  have hgot : (t.ports 0).got = [[1, 2]] :=
    congrArg (fun x : Nat → Port Bytes => (x 0).got) (Option.some.inj hstep).symm
  exact ⟨t, h1, hgot, ((hop_transparent hd hdial h1).1 0 1 (by rw [hwiring]; rfl)).2.2⟩

end

end Proxy

end Mtcl
