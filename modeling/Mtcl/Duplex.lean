import Mtcl.Base.Switch
import Mtcl.Tcp.Stream

/-!
# Handles that carry messages both ways

`Duplex vt closed S` says that every handle of a table of virtual functions brings the messages of its peer and takes
messages for it, and that what is done to one handle leaves the others alone.  `S h x w` describes the handle `h` in
the world `w` by a `View`: how many users refer to it, where its reader is, and what has been sent on it.

A view of several handles at once (`Appears`) is changed by the functions of `HandleUser` as one expects:
`read_message`, `read_end`, `send_user`, `close_user`, `destroy_readable`.  TCP is an instance (`tcp_duplex`).
-/

namespace Mtcl

open Sources Switch

variable {H W : Type}

/-- What is known of a handle: the number of its users, where the reader of what its peer sends is, and the messages
that have been sent on it, with whether its write side has been closed. -/
structure View where
  users : Nat
  phase : Phase (List Bytes) Bytes
  out : List Bytes × Bool

/-- The handles bring the messages of their peers, which close at the end where `closed` says so, and take messages for
them; a handle that is closed on both sides may lose its last user. -/
structure Duplex (vt : H → CommunicationHandle W) (closed : H → Bool) (S : H → View → W → Prop) : Prop where
  reads : ∀ h n out, Reads (vt h) (queue (closed h)) fun ph => S h ⟨n + 1, ph, out⟩
  base : ∀ {h n ph out w}, S h ⟨n + 1, ph, out⟩ w → ∃ b, (vt h).base w = .ok b ∧ b.closedWr = out.2
  send : ∀ {h n ph ms w}, S h ⟨n + 1, ph, (ms, false)⟩ w → ∀ m,
    ∃ w', (vt h).send m w = .ok (.ok m.length, w') ∧ S h ⟨n + 1, ph, (ms ++ [m], false)⟩ w'
  close : ∀ {h n ph ms c w}, S h ⟨n + 1, ph, (ms, c)⟩ w →
    ∃ w', (vt h).close true false w = .ok w' ∧ S h ⟨n + 1, ph, (ms, true)⟩ w'
  yield : ∀ {h n q out w}, S h ⟨n + 1, .idle q, out⟩ w → ∃ w', (vt h).yield w = .ok w' ∧ S h ⟨n + 1, .idle q, out⟩ w'
  increment : ∀ {h n ph out w}, S h ⟨n + 1, ph, out⟩ w →
    ∃ w', (vt h).incrementReferenceCounter w = .ok w' ∧ S h ⟨n + 2, ph, out⟩ w'
  decrement : ∀ {h n ph out w}, S h ⟨n + 1, ph, out⟩ w → 0 < n ∨ (∃ q, ph = .ended q) ∧ out.2 = true →
    ∃ w', (vt h).decrementReferenceCounter w = .ok w' ∧ S h ⟨n, ph, out⟩ w'
  apart : ∀ {h k}, k ≠ h → ∀ x, (vt h).Keeps (S k x)

/-- The handles are as a view says that knows some of them. -/
def Appears (S : H → View → W → Prop) (v : H → Option View) (w : W) : Prop := ∀ h x, v h = some x → S h x w

section

variable [DecidableEq H] {S : H → View → W → Prop} {v : H → Option View} {w w' : W} {h : H}

/-- One handle has changed. -/
theorem Appears.update (hs : Appears S v w) {x : View} (hx : S h x w') (hother : ∀ k, k ≠ h → ∀ y, S k y w → S k y w') :
    Appears S (Function.update v h (some x)) w' := by
  intro k y hk
  by_cases hkh : k = h
  · subst hkh
    rw [Function.update_self] at hk
    cases hk
    exact hx
  · rw [Function.update_of_ne hkh] at hk
    exact hother k hkh y (hs k y hk)

end

namespace Duplex

variable [DecidableEq H] {vt : H → CommunicationHandle W} {closed : H → Bool} {S : H → View → W → Prop}
  {v : H → Option View} {w : W} {h : H} {u : HandleUser H} {n : Nat} {q : List Bytes} {out : List Bytes × Bool}
  {ph : Phase (List Bytes) Bytes}

omit [DecidableEq H] in
private theorem keeps_own (hd : Duplex vt closed S) (hu : u.realHandle = some h) {k : H} (hk : k ≠ h) (x : View) :
    ∀ id, u.realHandle = some id → (vt id).Keeps (S k x) := by
  intro id hid
  cases hu.symm.trans hid
  exact hd.apart hk x

/-- The owner of a handle takes the next message: `HandleUser::probe` finds its size and `HandleUser::receive`
its bytes. -/
theorem read_message (hd : Duplex vt closed S) (hs : Appears S v w) {m : Bytes}
    (hv : v h = some ⟨n + 1, .idle (m :: q), out⟩) (hu : u.realHandle = some h)
    (hread : u.isReadable = true) (size : Nat) :
    m ≠ [] ∧ ∃ u1 w1 u2 w2, u.probe vt size true w = .ok (.ok sizeofSizeT, m.length, u1, w1) ∧
      u1.receive vt m.length w1 = .ok (.ok m.length, m, u2, w2) ∧ u2.realHandle = some h ∧ u2.isReadable = true ∧
      Appears S (Function.update v h (some ⟨n + 1, .idle q, out⟩)) w2 := by
  have hr := hd.reads h n out
  have howns : Owns (fun ph => S h ⟨n + 1, ph, out⟩) h (.idle (m :: q)) (u, w) := ⟨hu, hs h _ hv, fun _ => hread⟩
  rcases Furnishes.probe_idle hr.hears howns size with ⟨m', q', w1, hnext, hprobe, hopen⟩ | ⟨hfin, -⟩ |
    ⟨⟨s, hs', -, hn⟩, -⟩
  · cases hnext
    have hrest := Reads.receiveProbed_opened hr (u := { u with newConnection := false }) hopen m.length
    rw [if_neg (Nat.lt_irrefl _)] at hrest
    obtain ⟨w2, hrecv, hidle⟩ := hrest
    refine ⟨(hr.opened hopen.2.1).1, _, w1, _, w2, hprobe,
      (Furnishes.receive_opened hr.hears hopen _).trans hrecv, hu, hread, ?_⟩
    refine hs.update hidle.2.1 fun k hk y hy => ?_
    have hkeep := keeps_own (u := u) hd hu hk y
    have h1 := HandleUser.probe_keeps_own hkeep hy hprobe
    exact HandleUser.receive_keeps_own (u := { u with newConnection := false }) hkeep h1
      ((Furnishes.receive_opened hr.hears hopen _).trans hrecv)
  · exact absurd hfin.1 (List.cons_ne_nil _ _)
  · cases hs'
    exact absurd rfl (hn m q)

/-- The owner of a handle comes to the end. -/
theorem read_end (hd : Duplex vt closed S) (hs : Appears S v w) (hv : v h = some ⟨n + 1, .idle [], out⟩)
    (hclosed : closed h = true) (hu : u.realHandle = some h) (hread : u.isReadable = true) (size : Nat) :
    ∃ w', u.probe vt size true w = .ok (.ok 0, 0, { u with newConnection := false, isReadable := false }, w') ∧
      Appears S (Function.update v h (some ⟨n + 1, .ended [], out⟩)) w' := by
  have howns : Owns (fun ph => S h ⟨n + 1, ph, out⟩) h (.idle []) (u, w) := ⟨hu, hs h _ hv, fun _ => hread⟩
  have hno : ∀ m s', ¬ (queue (closed h)).next ([] : List Bytes) m s' := by
    intro m s' hnext
    cases hnext
  obtain ⟨w', hprobe, hended⟩ := Reads.probe_end (hd.reads h n out) howns ⟨rfl, hclosed⟩ hno size
  refine ⟨w', hprobe, hs.update hended fun k hk y hy => ?_⟩
  exact HandleUser.probe_keeps_own (keeps_own (u := u) hd hu hk y) hy hprobe

/-- A message is sent through an object. -/
theorem send_user (hd : Duplex vt closed S) (hs : Appears S v w) (hv : v h = some ⟨n + 1, ph, out⟩)
    (hu : u.realHandle = some h) (m : Bytes) :
    ∃ r w', u.send vt m w = .ok (r, { u with newConnection := false }, w') ∧
      Appears S (Function.update v h (some ⟨n + 1, ph, putOut (some m) out⟩)) w' := by
  obtain ⟨ms, c⟩ := out
  obtain ⟨b, hb, hwr⟩ := hd.base (hs h _ hv)
  cases c with
  | true =>
    refine ⟨.error .EBADF, w, ?_, ?_⟩
    · unfold HandleUser.send
      dsimp only
      rw [hu]
      dsimp only
      rw [hb, bind_ok, if_pos hwr]
      rfl
    · rw [show putOut (some m) (ms, true) = (ms, true) from rfl, ← hv, Function.update_eq_self]
      exact hs
  | false =>
    obtain ⟨w', hsend, hx⟩ := hd.send (hs h _ hv) m
    refine ⟨_, w', HandleUser.send_of hu hb hwr hsend, hs.update hx fun k hk y hy => ?_⟩
    exact (hd.apart hk y).send hy hsend

/-- The write side is closed through an object. -/
theorem close_user (hd : Duplex vt closed S) (hs : Appears S v w) (hv : v h = some ⟨n + 1, ph, out⟩)
    (hu : u.realHandle = some h) :
    ∃ w', u.close vt w = .ok w' ∧ Appears S (Function.update v h (some ⟨n + 1, ph, putOut none out⟩)) w' := by
  obtain ⟨ms, c⟩ := out
  obtain ⟨w', hclose, hx⟩ := hd.close (hs h _ hv)
  have hout : putOut none (ms, c) = (ms, true) := by cases c <;> rfl
  refine ⟨w', ?_, ?_⟩
  · unfold HandleUser.close
    rw [hu]
    exact hclose
  · rw [hout]
    exact hs.update hx fun k hk y hy => (hd.apart hk y).close hy hclose

omit [DecidableEq H] in
/-- The read side of a handle is closed when its reader has come to the end. -/
theorem isClosed_user (hd : Duplex vt closed S) (hs : Appears S v w) (hu : u.realHandle = some h) :
    (v h = some ⟨n + 1, .idle q, out⟩ → u.isClosed vt w = .ok (false, out.2)) ∧
      (v h = some ⟨n + 1, .ended q, out⟩ → u.isClosed vt w = .ok (true, out.2)) := by
  have hcall : ∀ {b : CommBase}, (vt h).base w = .ok b → u.isClosed vt w = .ok (b.closedRd, b.closedWr) := by
    intro b hb
    unfold HandleUser.isClosed
    rw [hu]
    dsimp only
    rw [hb]
    rfl
  constructor
  · intro hv
    obtain ⟨b, hb, -, hrd⟩ := (hd.reads h n out).idle (hs h _ hv)
    obtain ⟨b', hb', hwr⟩ := hd.base (hs h _ hv)
    cases hb.symm.trans hb'
    rw [hcall hb, hrd, hwr]
  · intro hv
    obtain ⟨b, hb, -, hrd⟩ := (hd.reads h n out).ended (hs h _ hv)
    obtain ⟨b', hb', hwr⟩ := hd.base (hs h _ hv)
    cases hb.symm.trans hb'
    rw [hcall hb, hrd, hwr]

/-- An object that is not readable goes: its handle has a user less. -/
theorem destroy_unreadable (hd : Duplex vt closed S) (hs : Appears S v w) (hv : v h = some ⟨n + 1, ph, out⟩)
    (hlast : 0 < n ∨ (∃ q, ph = .ended q) ∧ out.2 = true) (hu : u.realHandle = some h) (hread : u.isReadable = false) :
    ∃ w', u.destroy vt w = .ok w' ∧ Appears S (Function.update v h (some ⟨n, ph, out⟩)) w' := by
  obtain ⟨w', hdec, hx⟩ := hd.decrement (hs h _ hv) hlast
  refine ⟨w', ?_, hs.update hx fun k hk y hy => (hd.apart hk y).decrementReferenceCounter hy hdec⟩
  unfold HandleUser.destroy
  rw [hread, if_neg Bool.false_ne_true, bind_ok, hu]
  exact hdec

/-- A handle whose messages have not all been read is given back. -/
theorem yield_user (hd : Duplex vt closed S) (hs : Appears S v w) (hv : v h = some ⟨n + 1, .idle q, out⟩)
    (hu : u.realHandle = some h) :
    ∃ w', u.yield vt w = .ok ({ u with isReadable := false, newConnection := false }, w') ∧ Appears S v w' := by
  obtain ⟨w', hyield, hx⟩ := hd.yield (hs h _ hv)
  refine ⟨w', ?_, ?_⟩
  · unfold HandleUser.yield
    dsimp only
    rw [hu]
    dsimp only
    rw [hyield]
    rfl
  · have hs' := hs.update hx fun k hk y hy => (hd.apart hk y).yield hy hyield
    rw [← hv, Function.update_eq_self] at hs'
    exact hs'

/-- A readable object goes: it gives the handle back before. -/
theorem destroy_readable (hd : Duplex vt closed S) (hs : Appears S v w) (hv : v h = some ⟨n + 2, .idle q, out⟩)
    (hu : u.realHandle = some h) (hread : u.isReadable = true) :
    ∃ w', u.destroy vt w = .ok w' ∧ Appears S (Function.update v h (some ⟨n + 1, .idle q, out⟩)) w' := by
  obtain ⟨w1, hyield, hs1⟩ := hd.yield_user hs hv hu
  obtain ⟨w2, hdec, hx2⟩ := hd.decrement (hs1 h _ hv) (.inl (Nat.succ_pos n))
  refine ⟨w2, ?_, hs1.update hx2 fun k hk y hy => (hd.apart hk y).decrementReferenceCounter hy hdec⟩
  unfold HandleUser.destroy
  rw [hread, if_pos rfl, hyield, hu]
  exact hdec

end Duplex

/-! ### TCP -/

/-- A TCP handle with some users, on which some messages have been sent behind the bytes `base`. -/
structure TcpSide (base : Bytes) (users : Nat) (out : List Bytes × Bool) (id : Nat) (p : Process) : Prop where
  inv : p.Inv
  allocated : id < p.allocated
  deleted : (p.handles id).deleted = false
  counter : (p.handles id).counter = users
  closedWr : (p.handles id).closedWr = out.2
  moves : out.2 = false → Moves (p.handles id).answers
  wire : (p.handles id).wire = base ++ encode out.2 out.1

/-- The view of a TCP handle; without users only what is on its stream is left. -/
def tcpView (base : Nat → Bytes) (closed : Nat → Bool) (id : Nat) : View → Process → Prop
  | ⟨0, _, out⟩, p => (p.handles id).wire = base id ++ encode out.2 out.1
  | ⟨n + 1, ph, out⟩, p =>
    Streaming (fun p => TcpSide (base id) (n + 1) out id p ∧ (p.handles id).closedRd = false)
      (fun p => TcpSide (base id) (n + 1) out id p ∧ (p.handles id).closedRd = true ∧ (p.handles id).probed = (true, 0))
      (Arrives (closed id)) (closed id) id ph p

namespace TcpSide

variable {base : Bytes} {users : Nat} {out : List Bytes × Bool} {id : Nat} {p p' : Process} {closed : Bool}
  {ph : Phase (List Bytes) Bytes}

theorem deref (h : TcpSide base users out id p) : p.deref id = .ok (p.handles id) :=
  Process.deref_eq_ok.2 ⟨h.allocated, h.deleted, rfl⟩

/-- As long as a side is open the handle has its descriptor. -/
theorem live (h : TcpSide base users out id p) (hopen : (p.handles id).closedRd = false ∨ out.2 = false) :
    p.Live id := by
  refine ⟨h.allocated, h.deleted, fun hfd => ?_⟩
  obtain ⟨hrd, hwr⟩ := (h.inv.1.noFd id h.allocated).1 hfd
  rcases hopen with hopen | hopen
  · exact Bool.false_ne_true (hopen.symm.trans hrd)
  · exact Bool.false_ne_true ((h.closedWr.trans hopen).symm.trans hwr)

/-- The handle keeps its state but for the number of its users and what it sends. -/
private theorem moved (h : TcpSide base users out id p) (hinv : p'.Inv)
    (halloc : p'.allocated = p.allocated) {users' : Nat} {out' : List Bytes × Bool}
    (hdel : (p'.handles id).deleted = (p.handles id).deleted) (hcount : (p'.handles id).counter = users')
    (hwr : (p'.handles id).closedWr = out'.2) (hmoves : out'.2 = false → Moves (p'.handles id).answers)
    (hwire : (p'.handles id).wire = base ++ encode out'.2 out'.1) : TcpSide base users' out' id p' :=
  ⟨hinv, halloc ▸ h.allocated, hdel.trans h.deleted, hcount, hwr, hmoves, hwire⟩

private theorem same (h : TcpSide base users out id p) (hinv : p'.Inv) (halloc : p'.allocated = p.allocated)
    (hh : p'.handles id = p.handles id) : TcpSide base users out id p' := by
  refine ⟨hinv, halloc ▸ h.allocated, ?_, ?_, ?_, fun hopen => ?_, ?_⟩
  all_goals rw [hh]
  exacts [h.deleted, h.counter, h.closedWr, h.moves hopen, h.wire]

private theorem withIncoming (h : TcpSide base users out id p) (pr : Bool × Nat) (s : List SockArrival) :
    TcpSide base users out id (p.withIncoming id pr s) := by
  have hinv : (p.withIncoming id pr s).Inv := Process.inv_put rfl h.inv
  refine h.moved hinv rfl ?_ ?_ ?_ (fun hopen => ?_) ?_
  all_goals rw [Process.withIncoming_handles]
  exacts [h.counter, h.closedWr, h.moves hopen, h.wire]

private theorem send {ms : List Bytes} (h : TcpSide base users (ms, false) id p) (m : Bytes) :
    ∃ k, (tcpHandle id).send m p = .ok (.ok m.length, p.put id k) ∧ k.toCommBase = (p.handles id).toCommBase ∧
      k.incoming = (p.handles id).incoming ∧ TcpSide base users (ms ++ [m], false) id (p.put id k) := by
  have hlive := h.live (.inr rfl)
  obtain ⟨as, hmoves, hsend⟩ := HandleTCP.send_moved hlive.fd (h.moves rfl) m
  refine ⟨{ p.handles id with wire := (p.handles id).wire ++ frame m, answers := as }, ?_, rfl, rfl, ?_⟩
  · change (p.deref id >>= fun k => .ok ((k.send m).1, p.put id (k.send m).2)) = _
    rw [h.deref, bind_ok, hsend]
    rfl
  · have hinv : (p.put id { p.handles id with wire := (p.handles id).wire ++ frame m, answers := as }).Inv :=
      Process.inv_put rfl h.inv
    refine h.moved hinv rfl ?_ ?_ ?_ (fun _ => ?_) ?_
    all_goals rw [Process.put_handles_self]
    · exact h.counter
    · exact h.closedWr
    · exact hmoves
    · dsimp only
      rw [h.wire]
      simp [encode]

private theorem close {n : Nat} (h : TcpSide base (n + 1) out id p) (wr rd : Bool) :
    (tcpHandle id).close wr rd p = .ok (p.closeHandle id wr rd) ∧
      ((p.closeHandle id wr rd).handles id).closedRd = ((p.handles id).closedRd || rd) ∧
      ((p.closeHandle id wr rd).handles id).probed = (p.handles id).probed ∧
      ((p.closeHandle id wr rd).handles id).incoming = (p.handles id).incoming ∧
      TcpSide base (n + 1) (out.1, out.2 || wr) id (p.closeHandle id wr rd) := by
  have hcall : (tcpHandle id).close wr rd p = .ok (p.closeHandle id wr rd) := by
    change (p.deref id >>= _) = _
    rw [h.deref]
    rfl
  have hinv := Process.inv_evolves h.inv ((Process.tcpHandle_evolves p id).close .refl hcall)
  obtain ⟨hrest, fd, wire, answers, eos, deleted, hh, hdel⟩ := p.closeHandle_handles id wr rd
  have hself := congrFun hh id
  rw [Function.update_self] at hself
  refine ⟨hcall, by rw [hself], by rw [hself], by rw [hself], h.moved hinv hrest.1 ?_ ?_ ?_ (fun hopen => ?_) ?_⟩
  · rw [hself]
    cases deleted with
    | false => exact h.deleted.symm
    | true =>
      rcases hdel rfl with hdel | ⟨hzero, -⟩
      · exact hdel.symm
      · rw [h.counter] at hzero
        omega
  · rw [hself]
    exact h.counter
  · rw [hself]
    dsimp only
    rw [h.closedWr]
  · obtain ⟨hout, hwr⟩ := Bool.or_eq_false_iff.1 hopen
    rw [(p.closeHandle_unwritten wr (fun hw => absurd (hwr.symm.trans hw) Bool.false_ne_true) rd).2.1]
    exact h.moves hout
  · cases hout : out.2 with
    | true =>
      rw [(p.closeHandle_unwritten wr (fun _ => h.closedWr.trans hout) rd).1, h.wire, hout]
      rfl
    | false =>
      cases wr with
      | false =>
        rw [(p.closeHandle_unwritten false nofun rd).1, h.wire, hout]
        rfl
      | true =>
        obtain ⟨as, eos, -, heos⟩ := HandleTCP.sendEOS_moved (h.live (.inr hout)).fd (h.moves hout)
        rw [(p.closeHandle_wire (h.closedWr.trans hout) rd).1, heos]
        dsimp only
        rw [h.wire, hout]
        simp [encode]

end TcpSide

section

variable {base : Nat → Bytes} {closed : Nat → Bool} {id n : Nat} {p p' : Process} {out : List Bytes × Bool}
  {ph : Phase (List Bytes) Bytes}

theorem tcpView_side (h : tcpView base closed id ⟨n + 1, ph, out⟩ p) : TcpSide (base id) (n + 1) out id p := by
  cases ph with
  | idle q => exact h.1.1
  | opened m q => exact h.1.1
  | ended q => exact h.1

/-- The reader of the handle stays where it is. -/
private theorem tcpView_moved (h : tcpView base closed id ⟨n + 1, ph, out⟩ p) {n' : Nat} {out' : List Bytes × Bool}
    (hside : TcpSide (base id) (n' + 1) out' id p') (hrd : (p'.handles id).closedRd = (p.handles id).closedRd)
    (hprobed : (p'.handles id).probed = (p.handles id).probed)
    (hincoming : (p'.handles id).incoming = (p.handles id).incoming) :
    tcpView base closed id ⟨n' + 1, ph, out'⟩ p' := by
  cases ph with
  | idle q =>
    obtain ⟨⟨-, hopen⟩, hp, hq, ha⟩ := h
    exact ⟨⟨hside, hrd.trans hopen⟩, hprobed ▸ hp, hq, hincoming ▸ ha⟩
  | opened m q =>
    obtain ⟨⟨-, hopen⟩, hp, hm, hq, ha⟩ := h
    exact ⟨⟨hside, hrd.trans hopen⟩, hprobed.trans hp, hm, hq, hincoming ▸ ha⟩
  | ended q =>
    obtain ⟨-, hclosed, hp⟩ := h
    exact ⟨hside, hrd.trans hclosed, hprobed.trans hp⟩

private theorem tcpSide_readable (base : Bytes) (n : Nat) (out : List Bytes × Bool) (id : Nat) :
    Readable (fun p => TcpSide base (n + 1) out id p ∧ (p.handles id).closedRd = false)
      (fun p => TcpSide base (n + 1) out id p ∧ (p.handles id).closedRd = true ∧
        (p.handles id).probed = (true, 0)) id where
  live h := h.1.live (.inl h.2)
  closedRd h := h.2
  withIncoming := by
    rintro p ⟨h, hrd⟩ pr s
    refine ⟨h.withIncoming pr s, ?_⟩
    rw [Process.withIncoming_handles]
    exact hrd
  close := by
    rintro p ⟨h, hrd⟩ hp
    obtain ⟨hcall, hrd', hprobed, -, hside⟩ := h.close false true
    rw [Bool.or_false] at hside
    rw [Bool.or_true] at hrd'
    exact ⟨_, hcall, hside, hrd', hprobed.trans hp⟩
  done h := ⟨h.1.allocated, h.1.deleted, h.2.2, h.2.1⟩

private theorem tcpView_reads (base : Nat → Bytes) (closed : Nat → Bool) (id n : Nat) (out : List Bytes × Bool) :
    Reads (tcpHandle id) (queue (closed id)) fun ph => tcpView base closed id ⟨n + 1, ph, out⟩ :=
  (tcp_hears_of (arrives_supplies (closed id)) (tcpSide_readable (base id) n out id)).reads fun h =>
    h.resolve_right fun hwait => hwait

private theorem tcpView_decrement (h : tcpView base closed id ⟨n + 1, ph, out⟩ p) :
    ∃ p', (tcpHandle id).decrementReferenceCounter p = .ok p' ∧ tcpView base closed id ⟨n, ph, out⟩ p' := by
  have hside := tcpView_side h
  have hcall : (tcpHandle id).decrementReferenceCounter p = .ok (p.decrement id) := by
    change (p.deref id >>= _) = _
    rw [hside.deref]
    rfl
  have hinv := Process.inv_evolves hside.inv ((Process.tcpHandle_evolves p id).decrementReferenceCounter .refl hcall)
  refine ⟨_, hcall, ?_⟩
  let k : HandleTCP := { p.handles id with counter := (p.handles id).counter - 1 }
  have hk : (p.put id k).handles id = k := Process.put_handles_self ..
  obtain ⟨hrest, -, -, -, deleted, hh, hdel⟩ := (p.put id k).deleteUnused_handles id
  have hself : (p.decrement id).handles id = { k with deleted := deleted } := by
    rw [Process.decrement, hh, Function.update_self, hk]
  cases n with
  | zero =>
    change ((p.decrement id).handles id).wire = _
    rw [hself]
    exact hside.wire
  | succ n =>
    have hcount : k.counter = (n + 1 : Nat) := by
      change (p.handles id).counter - 1 = _
      rw [hside.counter]
      omega
    have hdeleted : deleted = (p.handles id).deleted := by
      cases deleted with
      | false => exact hside.deleted.symm
      | true =>
        rcases hdel rfl with hdel | ⟨hzero, -⟩
        · rw [hk] at hdel
          exact hdel.symm
        · rw [hk, hcount] at hzero
          omega
    refine tcpView_moved h (hside.moved hinv hrest.1 ?_ ?_ ?_ (fun hopen => ?_) ?_) ?_ ?_ ?_
    all_goals rw [hself]
    exacts [hdeleted, hcount, hside.closedWr, hside.moves hopen, hside.wire]

private theorem tcpView_apart {h : Nat} (hne : id ≠ h) (x : View) : (tcpHandle h).Keeps (tcpView base closed id x) := by
  refine Process.tcpHandle_keeps fun {p p'} hx hstep => ?_
  have honly := Process.only_handleStep hstep
  have hsame := honly.others id hne
  obtain ⟨n, ph, out⟩ := x
  cases n with
  | zero =>
    change (p'.handles id).wire = _
    rw [hsame]
    exact hx
  | succ n =>
    have hside := tcpView_side hx
    refine tcpView_moved hx (hside.same (Process.inv_evolves hside.inv honly.evolves) honly.allocated hsame) ?_ ?_ ?_
    all_goals rw [hsame]

/-- Over TCP, when the kernel always moves something, handles carry messages both ways. -/
theorem tcp_duplex (base : Nat → Bytes) (closed : Nat → Bool) : Duplex tcpHandle closed (tcpView base closed) where
  reads id n out := tcpView_reads base closed id n out
  base := by
    intro id n ph out p h
    have hside := tcpView_side h
    refine ⟨(p.handles id).toCommBase, ?_, hside.closedWr⟩
    change (p.deref id >>= _) = _
    rw [hside.deref]
    rfl
  send := by
    intro id n ph ms p h m
    obtain ⟨k, hcall, hbase, hincoming, hside⟩ := (tcpView_side h).send m
    refine ⟨_, hcall, tcpView_moved h hside ?_ ?_ ?_⟩
    all_goals rw [Process.put_handles_self]
    exacts [congrArg CommBase.closedRd hbase, congrArg CommBase.probed hbase, hincoming]
  close := by
    intro id n ph ms c p h
    obtain ⟨hcall, hrd, hprobed, hincoming, hside⟩ := (tcpView_side h).close true false
    rw [Bool.or_true] at hside
    rw [Bool.or_false] at hrd
    exact ⟨_, hcall, tcpView_moved h hside hrd hprobed hincoming⟩
  yield := by
    intro id n q out p h
    have hside := tcpView_side h
    have hrd : (p.handles id).closedRd = false := h.1.2
    have hcall : (tcpHandle id).yield p = .ok (p.notifyYield id) := by
      change (p.deref id >>= fun k => .ok (if k.closedRd then p else p.notifyYield id)) = _
      rw [hside.deref, bind_ok, hrd]
      rfl
    have hsame : (p.notifyYield id).handles = p.handles ∧ (p.notifyYield id).allocated = p.allocated := by
      unfold Process.notifyYield
      split
      · exact ⟨rfl, rfl⟩
      · split <;> exact ⟨rfl, rfl⟩
    have hinv := Process.inv_evolves hside.inv ((Process.tcpHandle_evolves p id).yield .refl hcall)
    refine ⟨_, hcall, tcpView_moved h (hside.same hinv hsame.2 (congrFun hsame.1 id)) ?_ ?_ ?_⟩
    all_goals rw [hsame.1]
  increment := by
    intro id n ph out p h
    have hside := tcpView_side h
    let k : HandleTCP := { p.handles id with counter := (p.handles id).counter + 1 }
    have hk : (p.put id k).handles id = k := Process.put_handles_self ..
    have hcall : (tcpHandle id).incrementReferenceCounter p = .ok (p.put id k) := by
      change (p.deref id >>= _) = _
      rw [hside.deref]
      rfl
    have hinv : (p.put id k).Inv := Process.inv_put rfl hside.inv
    refine ⟨_, hcall, tcpView_moved h (hside.moved hinv rfl ?_ ?_ ?_ (fun hopen => ?_) ?_) ?_ ?_ ?_⟩
    all_goals rw [hk]
    · change (p.handles id).counter + 1 = _
      rw [hside.counter]
      omega
    · exact hside.closedWr
    · exact hside.moves hopen
    · exact hside.wire
  decrement h _ := tcpView_decrement h
  apart hne x := tcpView_apart hne x

/-- A handle with one user that has been made for a connection of which nothing has been read, and to whose peer
only `base` has been sent. -/
private theorem tcpView_new {v : Nat → Option View} (hinv : p.Inv) (hs : Appears (tcpView base closed) v p)
    {k : Socket} (hfd : k.fd ∉ p.openFds) {q : List Bytes} (hq : ∀ m ∈ q, Sendable m)
    (harr : Arrives (closed p.allocated) k.incoming (encode (closed p.allocated) q)) {as : List WriteAnswer}
    (hm : Moves as) :
    Appears (tcpView base closed) (Function.update v p.allocated (some ⟨1, .idle q, ([], false)⟩))
      ((p.newHandle k).put p.allocated
        { fd := some k.fd, incoming := k.incoming, answers := as, counter := 1, wire := base p.allocated }) := by
  generalize hp' : (p.newHandle k).put p.allocated
    { fd := some k.fd, incoming := k.incoming, answers := as, counter := 1, wire := base p.allocated } = p'
  have hself : p'.handles p.allocated =
      { fd := some k.fd, incoming := k.incoming, answers := as, counter := 1, wire := base p.allocated } := by
    rw [← hp', Process.put_handles_self]
  have hother : ∀ {id}, id ≠ p.allocated → p'.handles id = p.handles id := by
    intro id hne
    rw [← hp']
    exact (Function.update_of_ne hne ..).trans (Function.update_of_ne hne ..)
  have hmade : (p.newHandle k).handles p.allocated =
      { fd := some k.fd, incoming := k.incoming, answers := k.answers } :=
    Process.put_handles_self ..
  have hinv' : p'.Inv := by
    rw [← hp']
    exact Process.inv_put (by rw [hmade]; rfl) (Process.inv_tableStep hinv (.add p hfd))
  have halloc : p'.allocated = p.allocated + 1 := by
    rw [← hp']
    rfl
  intro id y hy
  by_cases hid : id = p.allocated
  · subst hid
    rw [Function.update_self] at hy
    cases hy
    have hside : TcpSide (base p.allocated) 1 ([], false) p.allocated p' := by
      refine ⟨hinv', by omega, ?_, ?_, ?_, fun _ => ?_, ?_⟩
      all_goals rw [hself]
      exacts [rfl, hm, (List.append_nil _).symm]
    refine ⟨⟨hside, ?_⟩, ?_, hq, ?_⟩
    all_goals rw [hself]
    exact harr
  · rw [Function.update_of_ne hid] at hy
    have hold := hs id y hy
    obtain ⟨_ | n, ph, out⟩ := y
    · change (p'.handles id).wire = _
      rw [hother hid]
      exact hold
    · have hside := tcpView_side hold
      refine tcpView_moved hold ⟨hinv', ?_, ?_, ?_, ?_, fun hopen => ?_, ?_⟩ ?_ ?_ ?_
      · exact Nat.lt_of_lt_of_eq (Nat.lt_succ_of_lt hside.allocated) halloc.symm
      all_goals rw [hother hid]
      exacts [hside.deleted, hside.counter, hside.closedWr, hside.moves hopen, hside.wire]

/-- `Manager::connect` over TCP returns a new handle, on which nothing but the collective flag has been sent, or
an invalid one. -/
theorem tcp_connects {v : Nat → Option View} {s : Option Socket} {u : HandleUser Nat}
    (h : p.managerConnect s = .ok (u, p')) (hinv : p.Inv) (hs : Appears (tcpView base closed) v p)
    {q : List Bytes} (hq : ∀ m ∈ q, Sendable m) (hsock : ∀ k, s = some k → Moves k.answers ∧
      Arrives (closed p.allocated) k.incoming (encode (closed p.allocated) q) ∧
      base p.allocated = frame (List.replicate sizeofInt 0)) :
    (u.realHandle = none ∧ p' = p) ∨ (u.realHandle = some p.allocated ∧
      Appears (tcpView base closed) (Function.update v p.allocated (some ⟨1, .idle q, ([], false)⟩)) p') := by
  unfold Process.managerConnect Process.connect at h
  cases hk : p.kernelYields s with
  | none =>
    rw [hk] at h
    cases h
    exact .inl ⟨rfl, rfl⟩
  | some k =>
    obtain ⟨hsk, hfd⟩ := Option.filter_eq_some_iff.1 hk
    obtain ⟨hmoves, harr, hbase⟩ := hsock k hsk
    have hmade : (p.newHandle k).handles p.allocated =
        { fd := some k.fd, incoming := k.incoming, answers := k.answers } :=
      Process.put_handles_self ..
    obtain ⟨as, has, hsend⟩ := HandleTCP.send_moved
      (h := { fd := some k.fd, incoming := k.incoming, answers := k.answers })
      (Option.some_ne_none k.fd) hmoves (List.replicate sizeofInt 0)
    have hlive : (p.newHandle k).deref p.allocated = .ok ((p.newHandle k).handles p.allocated) :=
      Process.deref_eq_ok.2 ⟨Nat.lt_succ_self _, by rw [hmade], rfl⟩
    have hcall : (tcpHandle p.allocated).send (List.replicate sizeofInt 0) (p.newHandle k) =
        .ok (.ok sizeofInt, (p.newHandle k).put p.allocated
          { fd := some k.fd, incoming := k.incoming, answers := as, wire := base p.allocated }) := by
      change ((p.newHandle k).deref p.allocated >>= fun h =>
        .ok ((h.send _).1, (p.newHandle k).put p.allocated (h.send _).2)) = _
      rw [hlive, bind_ok, hmade, hsend, hbase]
      rfl
    rw [hk] at h
    dsimp only at h
    rw [hcall] at h
    change HandleUser.mk' tcpHandle (some p.allocated) true true _ = _ at h
    have hinc : ∀ k', k'.deleted = false → (tcpHandle p.allocated).incrementReferenceCounter
        ((p.newHandle k).put p.allocated k') =
          .ok ((p.newHandle k).put p.allocated { k' with counter := k'.counter + 1 }) := by
      intro k' hdel
      have hk' : ((p.newHandle k).put p.allocated k').handles p.allocated = k' := Process.put_handles_self ..
      change (((p.newHandle k).put p.allocated k').deref p.allocated >>= _) = _
      rw [Process.deref_eq_ok.2 ⟨Nat.lt_succ_self _, hk'.symm ▸ hdel, rfl⟩, bind_ok, hk']
      exact congrArg Except.ok (Process.put_put ..)
    unfold HandleUser.mk' at h
    dsimp only at h
    rw [hinc _ rfl, bind_ok] at h
    cases h
    exact .inr ⟨rfl, tcpView_new hinv hs (of_decide_eq_true hfd) hq harr has⟩

end

end Mtcl
