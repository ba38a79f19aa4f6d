import Mtcl.Duplex
import Mtcl.Proxy.Frames

/-!
# A proxy as a switch

The handles of a proxy are the ports of a switch.  A `Wiring` says what each of them is for (`Role`), and
`Wiring.onward` where the proxy puts what it reads from it: the messages of a connection of one hop go to the
other end as they are, those of a connection through another proxy go to that proxy in frames with the ID of the
connection, and the frames of a proxy go, out of their frames, to the handle of their connection.

`Shown` says that the handles are as the ports of a switch are, and `Tabled` that the tables of the proxy are
those of the wiring, without the connections that have ended on both sides.
-/

namespace Mtcl

open Sources Switch

/-- The item that a frame carries: a message for a process, or the end of a connection. -/
def ProxyFrame.item (f : ProxyFrame) : Option (Option Bytes) :=
  if f.cmd = Cmd.EOS.toByte then some none else if f.cmd = Cmd.FWD.toByte then some (some f.payload) else none

/-- The frame that carries an item of the connection with an ID. -/
def ProxyFrame.carrying (connID : Nat) : Option Bytes → ProxyFrame
  | some m => ⟨Cmd.FWD.toByte, connID, m⟩
  | none => ⟨Cmd.EOS.toByte, connID, []⟩

@[simp] theorem ProxyFrame.item_carrying (connID : Nat) (m : Option Bytes) : (carrying connID m).item = some m := by
  cases m <;> rfl

/-- What a handle is for: it is the end of a connection of one hop with another end, it belongs to a process
that has asked for a connection through another proxy, or to a process that one has been made to for another
proxy, or it is the connection with a proxy. -/
inductive Role
  | hop (peer : Nat)
  | caller (connID via : Nat)
  | callee (connID : Nat)
  | proxy
  deriving DecidableEq, Repr

/-- The ID of the connection through another proxy. -/
def Role.connID : Role → Option Nat
  | caller c _ => some c
  | callee c => some c
  | _ => none

/-- What the handles are for, and the handle of the connection with an ID. -/
structure Wiring where
  role : Nat → Option Role
  target : Nat → Option Nat

namespace Wiring

/-- Where the proxy puts what it reads from a handle. -/
def onward (g : Wiring) (i : Nat) (m : Option Bytes) : Option (Nat × Option Bytes) :=
  match g.role i with
  | none => none
  | some (.hop j) => some (j, m)
  | some (.caller c via) => some (via, some (ProxyFrame.carrying c m).toBytes)
  | some (.callee _) => none
  | some .proxy => (m.bind ProxyFrame.ofBytes).bind fun f => (g.target f.identifier).bind fun j =>
      f.item.map fun m => (j, m)

/-- What goes where: a message of a connection of one hop to its other end, one of a caller to the proxy that
the connection goes through, and one in the frame of a proxy to the handle of its connection. -/
theorem onward_cases {g : Wiring} {i j : Nat} {m m' : Option Bytes} (h : g.onward i m = some (j, m')) :
    (g.role i = some (.hop j) ∧ m' = m) ∨
      (∃ c, g.role i = some (.caller c j) ∧ m' = some (ProxyFrame.carrying c m).toBytes) ∨
      (g.role i = some .proxy ∧
        ∃ b f, m = some b ∧ ProxyFrame.ofBytes b = some f ∧ g.target f.identifier = some j ∧ f.item = some m') := by
  unfold onward at h
  split at h
  · cases h
  · rename_i k hk
    cases h
    exact .inl ⟨hk, rfl⟩
  · rename_i c via hc
    cases h
    exact .inr (.inl ⟨c, hc, rfl⟩)
  · cases h
  · rename_i hproxy
    obtain ⟨f, hmf, hto⟩ := Option.bind_eq_some_iff.1 h
    obtain ⟨b, rfl, hf⟩ := Option.bind_eq_some_iff.1 hmf
    obtain ⟨k, hk, hitem⟩ := Option.bind_eq_some_iff.1 hto
    obtain ⟨m1, hm1, he⟩ := Option.map_eq_some_iff.1 hitem
    cases he
    exact .inr (.inr ⟨hproxy, b, f, rfl, hf, hk, hm1⟩)

variable {W : Type}

/-- The wiring is one that the proxy can have: the ends of a connection know each other, different handles have
different IDs, connections with other proxies are those of protocol instances with the name `P`, which do not
end, and the ID of a connection is a `size_t`. -/
structure Fits (g : Wiring) (env : ProxyEnv W) (closed : Nat → Bool) : Prop where
  hop : ∀ {i j}, g.role i = some (.hop j) → j ≠ i ∧ g.role j = some (.hop i)
  via : ∀ {i c via}, g.role i = some (.caller c via) → g.role via = some .proxy
  target : ∀ {c i}, g.target c = some i ↔ ∃ r, g.role i = some r ∧ r.connID = some c
  name : ∀ {i r}, g.role i = some r → (env.instanceName i = literal ['P'] ↔ r = .proxy)
  address : ∀ {i j}, g.role i ≠ none → g.role j ≠ none → env.address i = env.address j → i = j
  endless : ∀ {i}, g.role i = some .proxy → closed i = false
  small : ∀ {i r c}, g.role i = some r → r.connID = some c → c < 2 ^ 64

/-- A connection of one hop is made between two handles. -/
def join (g : Wiring) (i j : Nat) : Wiring :=
  { g with role := Function.update (Function.update g.role i (some (.hop j))) j (some (.hop i)) }

/-- The proxy has a branch for what comes next from the handle: a component that a connection has been made to
sends nothing (the proxy would stop), and a proxy asks for no new connection. -/
def Serves (g : Wiring) (x : Nat → Port Bytes) (i : Nat) : Prop :=
  match g.role i with
  | some (.hop _) => True
  | some (.caller _ _) => True
  | some .proxy => ∀ m q, (x i).unread = m :: q → ∃ f, ProxyFrame.ofBytes m = some f ∧ f.cmd ≠ Cmd.CONN.toByte
  | _ => False

end Wiring

namespace Proxy

variable {W : Type} {g : Wiring} {env : ProxyEnv W} {closed : Nat → Bool} {S : Nat → View → W → Prop}
  {x : Nat → Port Bytes} {users : Nat → Nat} {w : W} {i j n : Nat} {u : HandleUser Nat}

/-! ### The handles -/

/-- Where the reader of a port is. -/
def phase (p : Port Bytes) : Phase (List Bytes) Bytes := if p.ended then .ended [] else .idle p.unread

/-- The handles are as the ports of a switch, with some users each. -/
def Shown (g : Wiring) (S : Nat → View → W → Prop) (x : Nat → Port Bytes) (users : Nat → Nat) (w : W) : Prop :=
  ∃ v, Appears S v w ∧ ∀ i, g.role i ≠ none → v i = some ⟨users i, phase (x i), (x i).out⟩

/-- The view of one handle and the view of the switch change together. -/
private theorem shown_update {v : Nat → Option View}
    (hv : ∀ i, g.role i ≠ none → v i = some ⟨users i, phase (x i), (x i).out⟩) {p : Port Bytes}
    {m : Nat} (i : Nat) : ∀ k, g.role k ≠ none → Function.update v i (some ⟨m, phase p, p.out⟩) k =
      some ⟨Function.update users i m k, phase (Function.update x i p k), (Function.update x i p k).out⟩ := by
  intro k hk
  by_cases hki : k = i
  · subst hki
    simp only [Function.update_self]
  · simp only [Function.update_of_ne hki]
    exact hv k hk

private theorem phase_idle {p : Port Bytes} (h : p.ended = false) : phase p = .idle p.unread := by
  rw [phase, h]
  rfl

private theorem phase_ended {p : Port Bytes} (h : p.ended = true) : phase p = .ended [] := by
  rw [phase, h]
  rfl

namespace Shown

/-- The owner of a handle takes the next message. -/
theorem read_message (hd : Duplex env.vt closed S) (hs : Shown g S x users w) (hi : g.role i ≠ none)
    (hn : users i = n + 1) (hopen : (x i).ended = false) {m : Bytes} {q : List Bytes}
    (hq : (x i).unread = m :: q) (hu : u.realHandle = some i) (hread : u.isReadable = true)
    (ev : ProxyEvent W) :
    m ≠ [] ∧ ∃ u' w', env.Takes ev u w (.message m) u' w' ∧ u'.realHandle = some i ∧ u'.isReadable = true ∧
      Shown g S (Function.update x i { x i with got := (x i).got ++ [m], unread := q }) users w' := by
  obtain ⟨v, hv, hx⟩ := hs
  have hvi := hx i hi
  rw [phase_idle hopen, hq, hn] at hvi
  obtain ⟨hm, u1, w1, u2, w2, hprobe, hrecv, hu2, hread2, hv2⟩ := hd.read_message hv hvi hu hread ev.size
  refine ⟨hm, u2, w2, ⟨_, _, u1, w1, hprobe, hrecv⟩, hu2, hread2, _, hv2, ?_⟩
  have hup := shown_update (p := { x i with got := (x i).got ++ [m], unread := q }) (m := n + 1) hx i
  have hphase : phase { x i with got := (x i).got ++ [m], unread := q } = .idle q := phase_idle hopen
  rw [hphase, ← hn, Function.update_eq_self, hn] at hup
  exact hup

/-- The owner of a handle comes to the end. -/
theorem read_end (hd : Duplex env.vt closed S) (hs : Shown g S x users w) (hi : g.role i ≠ none) (hn : users i = n + 1)
    (hopen : (x i).ended = false) (hq : (x i).unread = []) (hclosed : closed i = true) (hu : u.realHandle = some i)
    (hread : u.isReadable = true) (size : Nat) :
    ∃ w', u.probe env.vt size true w = .ok (.ok 0, 0, { u with newConnection := false, isReadable := false }, w') ∧
      Shown g S (Function.update x i { x i with ended := true }) users w' := by
  obtain ⟨v, hv, hx⟩ := hs
  have hvi := hx i hi
  rw [phase_idle hopen, hq, hn] at hvi
  obtain ⟨w', hprobe, hv'⟩ := hd.read_end hv hvi hclosed hu hread size
  refine ⟨w', hprobe, _, hv', ?_⟩
  have hup := shown_update (p := { x i with ended := true }) (m := n + 1) hx i
  have hphase : phase { x i with ended := true } = .ended [] := phase_ended rfl
  rw [hphase, ← hn, Function.update_eq_self, hn] at hup
  exact hup

/-- A message is put on a handle. -/
theorem send (hd : Duplex env.vt closed S) (hs : Shown g S x users w) (hj : g.role j ≠ none) (hn : users j = n + 1)
    (hu : u.realHandle = some j) (m : Bytes) :
    ∃ r w', u.send env.vt m w = .ok (r, { u with newConnection := false }, w') ∧
      Shown g S (Function.update x j ((x j).put (some m))) users w' := by
  obtain ⟨v, hv, hx⟩ := hs
  have hvj := hx j hj
  rw [hn] at hvj
  obtain ⟨r, w', hsend, hv'⟩ := hd.send_user hv hvj hu m
  refine ⟨r, w', hsend, _, hv', ?_⟩
  have hup := shown_update (p := (x j).put (some m)) (m := n + 1) hx j
  rw [← hn, Function.update_eq_self, hn] at hup
  exact hup

/-- The write side of a handle is closed. -/
theorem close (hd : Duplex env.vt closed S) (hs : Shown g S x users w) (hj : g.role j ≠ none) (hn : users j = n + 1)
    (hu : u.realHandle = some j) :
    ∃ w', u.close env.vt w = .ok w' ∧ Shown g S (Function.update x j ((x j).put none)) users w' := by
  obtain ⟨v, hv, hx⟩ := hs
  have hvj := hx j hj
  rw [hn] at hvj
  obtain ⟨w', hclose, hv'⟩ := hd.close_user hv hvj hu
  refine ⟨w', hclose, _, hv', ?_⟩
  have hup := shown_update (p := (x j).put none) (m := n + 1) hx j
  rw [← hn, Function.update_eq_self, hn] at hup
  exact hup

theorem isClosed (hd : Duplex env.vt closed S) (hs : Shown g S x users w) (hj : g.role j ≠ none) (hn : users j = n + 1)
    (hu : u.realHandle = some j) : u.isClosed env.vt w = .ok ((x j).ended, (x j).out.2) := by
  obtain ⟨v, hv, hx⟩ := hs
  have hvj := hx j hj
  rw [hn] at hvj
  cases he : (x j).ended with
  | false =>
    rw [phase_idle he] at hvj
    exact (hd.isClosed_user hv hu).1 hvj
  | true =>
    rw [phase_ended he] at hvj
    exact (hd.isClosed_user hv hu).2 hvj

/-- An object that is not readable goes. -/
theorem destroy_unreadable (hd : Duplex env.vt closed S) (hs : Shown g S x users w) (hj : g.role j ≠ none)
    (hn : users j = n + 1) (hlast : 0 < n ∨ (x j).Done) (hu : u.realHandle = some j) (hread : u.isReadable = false) :
    ∃ w', u.destroy env.vt w = .ok w' ∧ Shown g S x (Function.update users j n) w' := by
  obtain ⟨v, hv, hx⟩ := hs
  have hvj := hx j hj
  rw [hn] at hvj
  have hlast' : 0 < n ∨ (∃ q, phase (x j) = .ended q) ∧ (x j).out.2 = true :=
    hlast.imp_right fun h => ⟨⟨[], phase_ended h.1⟩, h.2⟩
  obtain ⟨w', hdestroy, hv'⟩ := hd.destroy_unreadable hv hvj hlast' hu hread
  refine ⟨w', hdestroy, _, hv', ?_⟩
  have hup := shown_update (p := x j) (m := n) hx j
  rw [Function.update_eq_self] at hup
  exact hup

/-- A readable object goes, of a handle that has another user. -/
theorem destroy_readable (hd : Duplex env.vt closed S) (hs : Shown g S x users w) (hj : g.role j ≠ none)
    (hn : users j = n + 2) (hopen : (x j).ended = false) (hu : u.realHandle = some j) (hread : u.isReadable = true) :
    ∃ w', u.destroy env.vt w = .ok w' ∧ Shown g S x (Function.update users j (n + 1)) w' := by
  obtain ⟨v, hv, hx⟩ := hs
  have hvj := hx j hj
  rw [hn, phase_idle hopen] at hvj
  obtain ⟨w', hdestroy, hv'⟩ := hd.destroy_readable hv hvj hu hread
  refine ⟨w', hdestroy, _, hv', ?_⟩
  have hup := shown_update (p := x j) (m := n + 1) hx j
  rw [Function.update_eq_self, phase_idle hopen] at hup
  exact hup

end Shown

/-! ### The tables -/

/-- The tables are those of the wiring, without the connections that have ended on both sides. -/
structure Tabled (g : Wiring) (env : ProxyEnv W) (x : Nat → Port Bytes) (s : Proxy W) : Prop where
  held : ∀ {i r}, g.role i = some r → r ≠ .proxy → ¬(x i).Done →
    ∃ u, s.id2handle (env.address i) = some u ∧ u.realHandle = some i ∧ u.isReadable = false
  joined : ∀ {i j}, g.role i = some (.hop j) → (x i).ended = false → s.proc2proc (env.address i) = some (env.address j)
  unjoined : ∀ {i c via}, g.role i = some (.caller c via) → s.proc2proc (env.address i) = none
  routed : ∃ live, s.loc2connID.Matches live ∧
    ∀ k c, (k, c) ∈ live ↔ ∃ i, g.target c = some i ∧ env.address i = k ∧ ¬(x i).Done
  proxied : ∀ {i c via}, g.role i = some (.caller c via) → (x i).ended = false →
    ∃ p u, s.connid2proxy c = some (some p) ∧ s.heap[p]? = some u ∧ u.realHandle = some via
  unused : ∀ k, (∀ i, g.role i ≠ none → env.address i ≠ k) → s.proc2proc k = none ∧ s.id2handle k = none

namespace Tabled

variable {s : Proxy W} {x' : Nat → Port Bytes}

/-- The tables do not depend on the world. -/
theorem inWorld (h : Tabled g env x s) (w : W) : Tabled g env x { s with world := w } :=
  ⟨h.held, h.joined, h.unjoined, h.routed, h.proxied, h.unused⟩

/-- As long as no connection ends on both sides the tables stay as they are. -/
theorem ends (h : Tabled g env x s) (hends : ∀ i, (x i).ended = true → (x' i).ended = true)
    (hdone : ∀ i, (x' i).Done ↔ (x i).Done) : Tabled g env x' s := by
  have hopen : ∀ {i}, (x' i).ended = false → (x i).ended = false := by
    intro i hi
    cases he : (x i).ended with
    | false => rfl
    | true => exact absurd (hi.symm.trans (hends i he)) Bool.false_ne_true
  refine ⟨fun hr hp hd => h.held hr hp (mt (hdone _).2 hd), fun hr he => h.joined hr (hopen he), h.unjoined, ?_,
    fun hr he => h.proxied hr (hopen he), h.unused⟩
  obtain ⟨live, hb, hlive⟩ := h.routed
  refine ⟨live, hb, fun k c => (hlive k c).trans ?_⟩
  simp only [hdone]

/-- Another object stands for the same handle. -/
theorem setHandle (h : Tabled g env x s) {u : HandleUser Nat} {k : Nat} {v : HandleUser Nat}
    (hv : s.id2handle k = some v) (hreal : u.realHandle = v.realHandle) (hread : u.isReadable = v.isReadable) :
    Tabled g env x { s with id2handle := Function.update s.id2handle k (some u) } := by
  refine ⟨fun {i r} hr hp hd => ?_, h.joined, h.unjoined, h.routed, h.proxied, fun k' hk' => ?_⟩
  · obtain ⟨u0, hu0, h1, h2⟩ := h.held hr hp hd
    by_cases hk : env.address i = k
    · subst hk
      rw [hv] at hu0
      cases hu0
      exact ⟨u, Function.update_self .., hreal.trans h1, hread.trans h2⟩
    · exact ⟨u0, (Function.update_of_ne hk ..).trans hu0, h1, h2⟩
  · obtain ⟨h1, h2⟩ := h.unused k' hk'
    have hne : k' ≠ k := by
      rintro rfl
      rw [h2] at hv
      cases hv
    exact ⟨h1, (Function.update_of_ne hne ..).trans h2⟩

theorem setHeap (h : Tabled g env x s) {u v : HandleUser Nat} {p : Nat} (hv : s.heap[p]? = some v)
    (hreal : u.realHandle = v.realHandle) : Tabled g env x { s with heap := s.heap.set p u } := by
  refine ⟨h.held, h.joined, h.unjoined, h.routed, fun hr he => ?_, h.unused⟩
  obtain ⟨p0, u0, h1, h2, h3⟩ := h.proxied hr he
  by_cases hp : p = p0
  · subst hp
    rw [hv] at h2
    cases h2
    refine ⟨p, u, h1, ?_, hreal.trans h3⟩
    rw [List.getElem?_set_self ?_]
    exact (List.getElem?_eq_some_iff.1 hv).1
  · exact ⟨p0, u0, h1, (List.getElem?_set_ne hp).trans h2, h3⟩

/-- What the tables have under the ID of an end of a connection of one hop is erased, when the connection has
ended on both sides. -/
theorem cutHop (hg : g.Fits env closed) (h : Tabled g env x s) {j : Nat} (hj : g.role j = some (.hop i))
    (hends : ∀ k, (x k).ended = true → (x' k).ended = true) (hj' : (x' j).ended = true)
    (hdone : ∀ k, ¬(x' k).Done → ¬(x k).Done ∧ k ≠ j) (hothers : ∀ k, k ≠ i → k ≠ j → ((x' k).Done ↔ (x k).Done)) :
    Tabled g env x' { s with
      proc2proc := Function.update s.proc2proc (env.address j) none
      id2handle := Function.update s.id2handle (env.address j) none } := by
  have hopen : ∀ {k}, (x' k).ended = false → (x k).ended = false := by
    intro k hk
    cases he : (x k).ended with
    | false => rfl
    | true => exact absurd (hk.symm.trans (hends k he)) Bool.false_ne_true
  have hne : ∀ {k r}, g.role k = some r → k ≠ j → env.address k ≠ env.address j := fun hr hk he =>
    hk (hg.address (by rw [hr]; nofun) (by rw [hj]; nofun) he)
  have hnone : ∀ {α : Type} {f : Nat → Option α} {k : Nat}, f k = none →
      Function.update f (env.address j) none k = none := by
    intro α f k hk
    by_cases hkj : k = env.address j
    · rw [hkj, Function.update_self]
    · rw [Function.update_of_ne hkj, hk]
  refine ⟨fun {k r} hr hp hd => ?_, fun {k k'} hr he => ?_, fun {k c via} hr => ?_, ?_, fun hr he =>
    h.proxied hr (hopen he), fun k hk => ⟨hnone (h.unused k hk).1, hnone (h.unused k hk).2⟩⟩
  · obtain ⟨hd, hk⟩ := hdone k hd
    obtain ⟨u, hu, h1, h2⟩ := h.held hr hp hd
    exact ⟨u, (Function.update_of_ne (hne hr hk) ..).trans hu, h1, h2⟩
  · have hk : k ≠ j := by
      rintro rfl
      exact Bool.false_ne_true (he.symm.trans hj')
    exact (Function.update_of_ne (hne hr hk) ..).trans (h.joined hr (hopen he))
  · have hk : k ≠ j := by
      rintro rfl
      rw [hj] at hr
      cases hr
    exact (Function.update_of_ne (hne hr hk) ..).trans (h.unjoined hr)
  · obtain ⟨live, hb, hlive⟩ := h.routed
    have hrouted : ∀ {c k}, g.target c = some k → ((x' k).Done ↔ (x k).Done) := by
      intro c k ht
      obtain ⟨r, hr, hc⟩ := hg.target.1 ht
      refine hothers k ?_ ?_
      · rintro rfl
        rw [(hg.hop hj).2] at hr
        cases hr
        cases hc
      · rintro rfl
        rw [hj] at hr
        cases hr
        cases hc
    refine ⟨live, hb, fun k c => (hlive k c).trans ?_⟩
    constructor
    · rintro ⟨i, ht, hk, hd⟩
      exact ⟨i, ht, hk, mt (hrouted ht).1 hd⟩
    · rintro ⟨i, ht, hk, hd⟩
      exact ⟨i, ht, hk, mt (hrouted ht).2 hd⟩

/-- What the tables have of a connection through another proxy is erased, when it has ended on both sides. -/
theorem cutRoute (hg : g.Fits env closed) (h : Tabled g env x s) {c : Nat} (hi : g.target c = some i)
    (hends : ∀ k, (x k).ended = true → (x' k).ended = true) (hi' : (x' i).Done) (hold : ¬(x i).Done)
    (hothers : ∀ k, k ≠ i → ((x' k).Done ↔ (x k).Done)) :
    ∃ b, s.loc2connID.eraseKey (env.address i) = some b ∧ ∀ cp : Nat → Option (Option Nat),
      (∀ c', c' ≠ c → cp c' = s.connid2proxy c') →
      Tabled g env x' { s with
        loc2connID := b
        connid2proxy := cp
        id2handle := Function.update s.id2handle (env.address i) none } := by
  have hopen : ∀ {k}, (x' k).ended = false → (x k).ended = false ∧ k ≠ i := by
    intro k hk
    refine ⟨?_, ?_⟩
    · cases he : (x k).ended with
      | false => rfl
      | true => exact absurd (hk.symm.trans (hends k he)) Bool.false_ne_true
    · rintro rfl
      exact Bool.false_ne_true (hk.symm.trans hi'.1)
  obtain ⟨r0, hr0, hc0⟩ := hg.target.1 hi
  have hne : ∀ {k r}, g.role k = some r → k ≠ i → env.address k ≠ env.address i := fun hr hk he =>
    hk (hg.address (by rw [hr]; nofun) (by rw [hr0]; nofun) he)
  obtain ⟨live, hb, hlive⟩ := h.routed
  obtain ⟨b, hbe, hb'⟩ := hb.eraseKey ((hlive (env.address i) c).2 ⟨i, hi, rfl, hold⟩)
  refine ⟨b, hbe, fun cp hcp => ⟨fun {k r} hr hp hd => ?_, fun {k k'} hr he => ?_, h.unjoined, ⟨_, hb', fun k c' => ?_⟩,
    fun {k c' via} hr he => ?_, fun k hk => ⟨(h.unused k hk).1, ?_⟩⟩⟩
  · have hk : k ≠ i := by
      rintro rfl
      exact hd hi'
    obtain ⟨u, hu, h1, h2⟩ := h.held hr hp (mt (hothers k hk).2 hd)
    exact ⟨u, (Function.update_of_ne (hne hr hk) ..).trans hu, h1, h2⟩
  · exact h.joined hr (hopen he).1
  · rw [List.mem_filter, hlive]
    constructor
    · rintro ⟨⟨k', ht, rfl, hd⟩, hk⟩
      have hki : k' ≠ i := by
        rintro rfl
        exact of_decide_eq_true hk rfl
      exact ⟨k', ht, rfl, mt (hothers k' hki).1 hd⟩
    · rintro ⟨k', ht, rfl, hd⟩
      have hki : k' ≠ i := by
        rintro rfl
        exact hd hi'
      obtain ⟨r, hr, -⟩ := hg.target.1 ht
      exact ⟨⟨k', ht, rfl, mt (hothers k' hki).2 hd⟩, decide_eq_true (hne hr hki)⟩
  · obtain ⟨hopen', hki⟩ := hopen he
    obtain ⟨p, u, h1, h2, h3⟩ := h.proxied hr hopen'
    refine ⟨p, u, (hcp c' ?_).trans h1, h2, h3⟩
    rintro rfl
    exact hki (Option.some.inj ((hg.target.2 ⟨_, hr, rfl⟩).symm.trans hi))
  · by_cases hki : k = env.address i
    · rw [hki]
      exact Function.update_self ..
    · exact (Function.update_of_ne hki ..).trans (h.unused k hk).2

end Tabled

end Proxy

end Mtcl
