import Mathlib.Logic.Relation
import Mtcl.Base.Runs
import Mtcl.Tcp.Table

/-!
# Invariants of a process

`TableStep` lists once what an operation can do to the connection table, the handles and the log, and every operation
of the library is a sequence of such steps (`tcpHandle_evolves`, `update_evolves`, `step_evolves`).  So an invariant of
`TableStep` is one of every run.

`connTcp_table` is the invariant of the connection table in every reachable state: the table holds exactly the handles
that are not read-closed, each under its descriptor; only these descriptors and the listening socket are polled, and
`fdmax` is the greatest of them; a handle closes its descriptor once and touches nothing of the connector afterwards;
and `update` pushes it at most once for each yield.
-/

namespace Mtcl

namespace Process

/-- What the connector depends on, for each handle. -/
def control (p : Process) : Nat → Control := fun id => (p.handles id).control

theorem control_put (p : Process) (id : Nat) (h : HandleTCP) :
    (p.put id h).control = Function.update p.control id h.control := by
  funext i
  rcases eq_or_ne i id with rfl | hne
  · rw [Function.update_self, control, put_handles_self]
  · rw [Function.update_of_ne hne, control, put_handles_ne _ _ hne]
    rfl

/-- The table and the log fit the handles. -/
def Inv (p : Process) : Prop :=
  TableInv p.conn p.control p.allocated p.openFds ∧ LogInv p.conn p.control p.allocated p.log

/-- No EOS has been sent in between, and what was on the stream still is. -/
def Extends (h k : HandleTCP) : Prop := k.eos = h.eos ∧ h.wire <+: k.wire

theorem Extends.refl (h : HandleTCP) : Extends h h := ⟨rfl, List.prefix_refl _⟩

theorem Extends.trans {h k l : HandleTCP} (hk : Extends h k) (hl : Extends k l) : Extends h l :=
  ⟨hl.1.trans hk.1, hk.2.trans hl.2⟩

/-- Two processes that differ only in what the connector does not depend on, and in what was sent before EOS. -/
structure SameTable (p q : Process) : Prop where
  conn : q.conn = p.conn
  control : q.control = p.control
  allocated : q.allocated = p.allocated
  openFds : q.openFds = p.openFds
  log : q.log = p.log
  sent : ∀ id, Extends (p.handles id) (q.handles id)

theorem SameTable.refl (p : Process) : p.SameTable p := ⟨rfl, rfl, rfl, rfl, rfl, fun _ => .refl _⟩

theorem SameTable.trans {p q r : Process} (h : p.SameTable q) (h' : q.SameTable r) : p.SameTable r :=
  ⟨h'.conn.trans h.conn, h'.control.trans h.control, h'.allocated.trans h.allocated, h'.openFds.trans h.openFds,
    h'.log.trans h.log, fun id => (h.sent id).trans (h'.sent id)⟩

theorem sameTable_put {p : Process} {id : Nat} {h : HandleTCP} (hc : h.control = (p.handles id).control)
    (hs : Extends (p.handles id) h) : p.SameTable (p.put id h) := by
  refine ⟨rfl, ?_, rfl, rfl, rfl, fun i => ?_⟩
  · rw [control_put, hc]
    exact Function.update_eq_self ..
  · by_cases hi : i = id
    · rw [hi, put_handles_self]
      exact hs
    · rw [put_handles_ne _ _ hi]
      exact .refl _

theorem deref_eq_ok {p : Process} {id : Nat} {h : HandleTCP} :
    p.deref id = .ok h ↔ id < p.allocated ∧ (p.handles id).deleted = false ∧ p.handles id = h := by
  unfold deref
  split
  · rename_i hd
    refine iff_of_false (by simp) ?_
    rintro ⟨h1, h2, -⟩
    rcases hd with hd | hd
    · omega
    · rw [h2] at hd
      cases hd
  · rename_i hd
    obtain ⟨h1, h2⟩ := not_or.1 hd
    simp [Nat.lt_of_not_le h1, h2]

/-- One change of the connection table, the handles or the log. -/
inductive TableStep : Process → Process → Prop
  | same {p q : Process} (h : p.SameTable q) : TableStep p q
  | close (p : Process) {id : Nat} (hid : id < p.allocated) (wr rd : Bool) : TableStep p (p.closeHandle id wr rd)
  | delete (p : Process) {id : Nat} (hid : id < p.allocated) : TableStep p (p.deleteUnused id)
  | yield (p : Process) {id : Nat} (hid : id < p.allocated) (hrd : (p.handles id).closedRd = false) :
      TableStep p (p.notifyYield id)
  | add (p : Process) {s : Socket} (hs : s.fd ∉ p.openFds) : TableStep p (p.newHandle s)
  | clear (p : Process) {idx : Nat} (hset : idx ∈ p.conn.set) (hsck : p.conn.listenSck ≠ some idx)
      (he : p.conn.connections.find? idx = none) : TableStep p { p with conn := p.conn.fdClr idx }
  | push (p : Process) {idx id : Nat} (hset : idx ∈ p.conn.set) (hsck : p.conn.listenSck ≠ some idx)
      (he : p.conn.connections.find? idx = some id) :
      TableStep p { p with conn := p.conn.fdClr idx, log := .pushed id :: p.log }

/-- Any number of such changes. -/
abbrev Evolves : Process → Process → Prop := Relation.ReflTransGen TableStep

/-! ### The operations -/

/-- One change of a process by a virtual function of the handle `id`. -/
inductive HandleStep (id : Nat) : Process → Process → Prop
  | put (p : Process) {h : HandleTCP} (hc : h.control = (p.handles id).control) (hs : Extends (p.handles id) h) :
      HandleStep id p (p.put id h)
  | close (p : Process) (hid : id < p.allocated) (wr rd : Bool) : HandleStep id p (p.closeHandle id wr rd)
  | delete (p : Process) (hid : id < p.allocated) : HandleStep id p (p.deleteUnused id)
  | yield (p : Process) (hid : id < p.allocated) (hrd : (p.handles id).closedRd = false) :
      HandleStep id p (p.notifyYield id)

/-- `probe` and `receive` take from the stream, and change nothing else. -/
theorem probe_eq_ok {p p' : Process} {id size size' : Nat} {blocking : Bool} {r : Ret}
    (h : (tcpHandle id).probe size blocking p = .ok (r, size', p')) :
    ∃ s, p' = p.put id { p.handles id with incoming := s } := by
  obtain ⟨k, hd, h⟩ := bind_eq_ok.1 h
  obtain ⟨-, -, rfl⟩ := deref_eq_ok.1 hd
  obtain ⟨⟨r1, s1, k1⟩, h1, h⟩ := bind_eq_ok.1 h
  cases h
  obtain ⟨s, rfl⟩ := HandleTCP.probe_incoming h1
  exact ⟨s, rfl⟩

theorem receive_eq_ok {p p' : Process} {id n : Nat} {r : Ret} {bs : Bytes}
    (h : (tcpHandle id).receive n p = .ok (r, bs, p')) : ∃ s, p' = p.put id { p.handles id with incoming := s } := by
  obtain ⟨k, hd, h⟩ := bind_eq_ok.1 h
  obtain ⟨-, -, rfl⟩ := deref_eq_ok.1 hd
  obtain ⟨⟨r1, s1, k1⟩, h1, h⟩ := bind_eq_ok.1 h
  cases h
  obtain ⟨s, rfl⟩ := HandleTCP.receive_incoming h1
  exact ⟨s, rfl⟩

/-- `send` writes to the stream, and changes nothing else. -/
theorem send_eq_ok {p p' : Process} {id : Nat} {r : Ret} {bs : Bytes} (h : (tcpHandle id).send bs p = .ok (r, p')) :
    ∃ sent answers, p' = p.put id { p.handles id with wire := (p.handles id).wire ++ sent, answers := answers } := by
  obtain ⟨k, hd, h⟩ := bind_eq_ok.1 h
  obtain ⟨-, -, rfl⟩ := deref_eq_ok.1 hd
  cases h
  obtain ⟨w, as, e⟩ := (p.handles id).send_wire bs
  exact ⟨w, as, by rw [e]⟩

theorem increment_eq_ok {p p' : Process} {id : Nat} (h : (tcpHandle id).incrementReferenceCounter p = .ok p') :
    p' = p.put id { p.handles id with counter := (p.handles id).counter + 1 } := by
  obtain ⟨k, hd, h⟩ := bind_eq_ok.1 h
  obtain ⟨-, -, rfl⟩ := deref_eq_ok.1 hd
  exact (Except.ok.inj h).symm

/-- The virtual functions of a handle keep what its steps keep. -/
theorem tcpHandle_keeps {id : Nat} {I : Process → Prop} (hI : ∀ {q q'}, I q → HandleStep id q q' → I q') :
    (tcpHandle id).Keeps I where
  setProbed _ q hq := hI hq (.put q rfl (.refl _))
  probe := by
    intro size blocking q r size' q' hq h
    obtain ⟨s, rfl⟩ := probe_eq_ok h
    exact hI hq (.put q rfl (.refl _))
  receive := by
    intro n q r bs q' hq h
    obtain ⟨s, rfl⟩ := receive_eq_ok h
    exact hI hq (.put q rfl (.refl _))
  send := by
    intro bs q r q' hq h
    obtain ⟨w, as, rfl⟩ := send_eq_ok h
    exact hI hq (.put q rfl ⟨rfl, List.prefix_append ..⟩)
  close := by
    intro wr rd q q' hq h
    obtain ⟨k, hd, h⟩ := bind_eq_ok.1 h
    cases h
    exact hI hq (.close q (deref_eq_ok.1 hd).1 wr rd)
  yield := by
    intro q q' hq h
    obtain ⟨k, hd, h⟩ := bind_eq_ok.1 h
    obtain ⟨hid, -, rfl⟩ := deref_eq_ok.1 hd
    cases h
    split
    · exact hq
    · rename_i hrd
      exact hI hq (.yield q hid (by simpa using hrd))
  incrementReferenceCounter := by
    intro q q' hq h
    rw [increment_eq_ok h]
    exact hI hq (.put q rfl (.refl _))
  decrementReferenceCounter := by
    intro q q' hq h
    obtain ⟨k, hd, h⟩ := bind_eq_ok.1 h
    cases h
    have hput : HandleStep id q (q.put id { q.handles id with counter := (q.handles id).counter - 1 }) :=
      .put q rfl (.refl _)
    exact hI (hI hq hput) (.delete _ (deref_eq_ok.1 hd).1)

/-- Every virtual function of a handle evolves the process. -/
theorem tcpHandle_evolves (p : Process) (id : Nat) : (tcpHandle id).Keeps p.Evolves := by
  refine tcpHandle_keeps fun hq h => hq.tail ?_
  cases h with
  | put hc hs => exact .same (sameTable_put hc hs)
  | close hid wr rd => exact .close _ hid wr rd
  | delete hid => exact .delete _ hid
  | yield hid hrd => exact .yield _ hid hrd

/-- What the operations of one handle leave alone, and what they never take back. -/
structure Only (id : Nat) (p q : Process) : Prop where
  evolves : p.Evolves q
  others : ∀ i, i ≠ id → q.handles i = p.handles i
  allocated : q.allocated = p.allocated
  garbage : q.garbage = p.garbage
  handleReady : q.handleReady = p.handleReady
  closedWr : (p.handles id).closedWr = true → (q.handles id).closedWr = true

theorem Only.refl (id : Nat) (p : Process) : Only id p p := ⟨.refl, fun _ _ => rfl, rfl, rfl, rfl, fun h => h⟩

theorem only_handleStep {id : Nat} {p q : Process} (h : HandleStep id p q) : Only id p q := by
  have hupdate : ∀ {q : Process} {k : HandleTCP}, q.handles = Function.update p.handles id k →
      (∀ i, i ≠ id → q.handles i = p.handles i) ∧ q.handles id = k := by
    intro q k e
    rw [e]
    exact ⟨fun i hi => Function.update_of_ne hi .., Function.update_self ..⟩
  cases h with
  | @put h hc hs =>
    obtain ⟨h1, h2⟩ := hupdate (q := p.put id h) rfl
    refine ⟨.single (.same (sameTable_put hc hs)), h1, rfl, rfl, rfl, fun hw => ?_⟩
    rw [h2]
    exact (congrArg Control.closedWr hc).trans hw
  | close hid wr rd =>
    obtain ⟨hrest, fd, wire, answers, eos, deleted, hh, -⟩ := p.closeHandle_handles id wr rd
    obtain ⟨h1, h2⟩ := hupdate hh
    refine ⟨.single (.close p hid wr rd), h1, hrest.1, hrest.2.2.2, hrest.2.1, fun hw => ?_⟩
    rw [h2, hw]
    rfl
  | delete hid =>
    obtain ⟨hrest, -, -, -, deleted, hh, -⟩ := p.deleteUnused_handles id
    obtain ⟨h1, h2⟩ := hupdate hh
    refine ⟨.single (.delete p hid), h1, hrest.1, hrest.2.2.2, hrest.2.1, fun hw => ?_⟩
    rw [h2]
    exact hw
  | yield hid hrd =>
    have hsame : (p.notifyYield id).handles = p.handles ∧ (p.notifyYield id).allocated = p.allocated ∧
        (p.notifyYield id).garbage = p.garbage ∧ (p.notifyYield id).handleReady = p.handleReady := by
      unfold notifyYield
      split
      · exact ⟨rfl, rfl, rfl, rfl⟩
      · split <;> exact ⟨rfl, rfl, rfl, rfl⟩
    refine ⟨.single (.yield p hid hrd), fun i _ => by rw [hsame.1], hsame.2.1, hsame.2.2.1, hsame.2.2.2, fun hw => ?_⟩
    rw [hsame.1, hw]

theorem Only.trans {id : Nat} {p q r : Process} (h : Only id p q) (h' : Only id q r) : Only id p r :=
  ⟨h.evolves.trans h'.evolves, fun i hi => (h'.others i hi).trans (h.others i hi), h'.allocated.trans h.allocated,
    h'.garbage.trans h.garbage, h'.handleReady.trans h.handleReady, fun hw => h'.closedWr (h.closedWr hw)⟩

theorem tcpHandle_only (id : Nat) (p : Process) : (tcpHandle id).Keeps (Only id p) :=
  tcpHandle_keeps fun hq h => hq.trans (only_handleStep h)

theorem sameTable_mk' {p p' : Process} {id : Option Nat} {r n : Bool} {u : HandleUser Nat}
    (h : HandleUser.mk' tcpHandle id r n p = .ok (u, p')) : p.SameTable p' := by
  unfold HandleUser.mk' at h
  split at h
  · cases h
    exact SameTable.refl _
  · obtain ⟨p1, h1, h⟩ := bind_eq_ok.1 h
    cases h
    rw [increment_eq_ok h1]
    exact sameTable_put rfl (.refl _)

private theorem sameTable_probe {p p' : Process} {id size size' : Nat} {blocking : Bool} {r : Ret}
    (h : (tcpHandle id).probe size blocking p = .ok (r, size', p')) : p.SameTable p' := by
  obtain ⟨s, rfl⟩ := probe_eq_ok h
  exact sameTable_put rfl (.refl _)

private theorem sameTable_receive {p p' : Process} {id n : Nat} {r : Ret} {bs : Bytes}
    (h : (tcpHandle id).receive n p = .ok (r, bs, p')) : p.SameTable p' := by
  obtain ⟨s, rfl⟩ := receive_eq_ok h
  exact sameTable_put rfl (.refl _)

private theorem sameTable_send {p p' : Process} {id : Nat} {r : Ret} {bs : Bytes}
    (h : (tcpHandle id).send bs p = .ok (r, p')) : p.SameTable p' := by
  obtain ⟨w, as, rfl⟩ := send_eq_ok h
  exact sameTable_put rfl ⟨rfl, List.prefix_append ..⟩

theorem sameTable_addinQ {p p' : Process} {b : Bool} {id : Nat} (h : p.addinQ b id = .ok p') : p.SameTable p' := by
  unfold addinQ at h
  obtain ⟨⟨hs, p1⟩, h1, h⟩ := bind_eq_ok.1 h
  have hp1 : p.SameTable p1 := by
    cases b with
    | false =>
      cases h1
      exact SameTable.refl _
    | true =>
      exact connectionHandshake_keeps (fun hq e => hq.trans (sameTable_probe e))
        (fun hq e => hq.trans (sameTable_receive e)) (SameTable.refl p) h1
  cases hs with
  | failed =>
    cases h
    exact hp1
  | team teamID =>
    cases h
    exact hp1.trans ⟨rfl, rfl, rfl, rfl, rfl, fun _ => .refl _⟩
  | p2p =>
    obtain ⟨⟨u, p2⟩, h2, h⟩ := bind_eq_ok.1 h
    cases h
    exact (hp1.trans (sameTable_mk' h2)).trans ⟨rfl, rfl, rfl, rfl, rfl, fun _ => .refl _⟩

theorem kernelYields_eq_some {p : Process} {o : Option Socket} {s : Socket} (h : p.kernelYields o = some s) :
    s.fd ∉ p.openFds := by
  simpa using (Option.filter_eq_some_iff.1 h).2

private theorem updateReady_evolves {p p' : Process} {idx : Nat} (hset : idx ∈ p.conn.set)
    (hsck : p.conn.listenSck ≠ some idx) (h : p.updateReady idx = .ok p') : p.Evolves p' ∧
      p'.conn = p.conn.fdClr idx := by
  unfold updateReady at h
  dsimp only at h
  split at h
  · rename_i he
    cases h
    exact ⟨.single (.clear p hset hsck he), rfl⟩
  · rename_i id he
    have hs := sameTable_addinQ h
    exact ⟨.tail (.single (.push p hset hsck he)) (.same hs), hs.conn⟩

private theorem updateLoop_evolves {tmpset : Finset Nat} {accepted : Option Socket} {n idx : Nat} {p p' : Process}
    (hset : ∀ j ∈ tmpset, idx ≤ j → j ∈ p.conn.set) (h : updateLoop tmpset accepted n idx p = .ok p') :
    p.Evolves p' := by
  induction n generalizing idx p with
  | zero =>
    cases h
    exact .refl
  | succ n ih =>
    unfold updateLoop at h
    have hnext : ∀ j ∈ tmpset, idx + 1 ≤ j → j ∈ p.conn.set := fun j hj hle => hset j hj (Nat.le_of_succ_le hle)
    split at h
    · split at h
      · rename_i hin
        split at h
        · split at h
          · cases h
            exact .refl
          · rename_i s hs
            obtain ⟨p1, h1, h⟩ := bind_eq_ok.1 h
            have hs1 := sameTable_addinQ h1
            have hset1 : ∀ j ∈ tmpset, idx + 1 ≤ j → j ∈ p1.conn.set := by
              rw [hs1.conn]
              exact hnext
            exact .trans (.tail (.single (.add p (kernelYields_eq_some hs))) (.same hs1)) (ih hset1 h)
        · rename_i hne
          obtain ⟨p1, h1, h⟩ := bind_eq_ok.1 h
          obtain ⟨he, hc⟩ := updateReady_evolves (hset idx hin (Nat.le_refl _)) (Ne.symm hne) h1
          have hset1 : ∀ j ∈ tmpset, idx + 1 ≤ j → j ∈ p1.conn.set := by
            intro j hj hle
            rw [hc]
            exact Finset.mem_erase.2 ⟨by omega, hnext j hj hle⟩
          exact .trans he (ih hset1 h)
      · exact ih hnext h
    · cases h
      exact .refl

/-- A pass of `update` evolves the process. -/
theorem update_evolves {p p' : Process} {ready : Finset Nat} {accepted : Option Socket}
    (h : p.update ready accepted = .ok p') : p.Evolves p' := by
  unfold update at h
  split at h
  · cases h
    exact .refl
  · exact updateLoop_evolves (fun j hj _ => (Finset.mem_inter.1 hj).1) h

theorem managerConnect_evolves {p p' : Process} {s : Option Socket} {u : HandleUser Nat}
    (h : p.managerConnect s = .ok (u, p')) : p.Evolves p' := by
  unfold managerConnect connect at h
  rcases hs : p.kernelYields s with _ | s
  · rw [hs] at h
    exact .single (.same (sameTable_mk' h))
  · rw [hs] at h
    obtain ⟨⟨r, p1⟩, h1, h⟩ := bind_eq_ok.1 h
    have hp1 : p.Evolves p1 := .tail (.single (.add p (kernelYields_eq_some hs))) (.same (sameTable_send h1))
    cases r with
    | error e => exact hp1.tail (.same (sameTable_mk' h))
    | ok n => exact hp1.tail (.same (sameTable_mk' h))

/-! ### The invariants -/

theorem inv_same {p q : Process} (h : p.SameTable q) (hi : p.Inv) : q.Inv := by
  unfold Inv
  rw [h.conn, h.control, h.allocated, h.openFds, h.log]
  exact hi

/-- What the connector does not depend on may change at will. -/
theorem inv_put {p : Process} {id : Nat} {h : HandleTCP} (hc : h.control = (p.handles id).control) (hi : p.Inv) :
    (p.put id h).Inv := by
  have hcontrol : (p.put id h).control = p.control := by
    rw [control_put, hc]
    exact Function.update_eq_self ..
  unfold Inv
  rw [hcontrol]
  exact hi

/-- What `Handle::close` leaves of the control part of the handles. -/
private theorem control_closeHandle (p : Process) (id : Nat) (wr rd : Bool) :
    ∃ k : Control, (p.closeHandle id wr rd).control = Function.update p.control id k ∧
      k.fd = ((p.closeHandle id wr rd).handles id).fd ∧ k.closedRd = ((p.handles id).closedRd || rd) ∧
      k.closedWr = ((p.handles id).closedWr || wr) ∧
      (k.deleted = true → (p.handles id).deleted = true ∨
        ((p.handles id).closedWr || wr) = true ∧ ((p.handles id).closedRd || rd) = true) := by
  obtain ⟨-, fd, wire, answers, eos, deleted, hh, hd⟩ := p.closeHandle_handles id wr rd
  refine ⟨⟨fd, (p.handles id).closedRd || rd, (p.handles id).closedWr || wr, deleted⟩, ?_, ?_, rfl, rfl,
    fun h => (hd h).imp_right And.right⟩
  · funext i
    unfold control
    rw [hh]
    rcases eq_or_ne i id with rfl | hne
    · rw [Function.update_self, Function.update_self]
      rfl
    · rw [Function.update_of_ne hne, Function.update_of_ne hne]
  · rw [hh, Function.update_self]

/-- The log after EOS has been sent, before the other flags and the descriptor change. -/
private theorem logInv_eosEvent {p : Process} (hl : LogInv p.conn p.control p.allocated p.log) {id : Nat}
    (hid : id < p.allocated) (wr : Bool) :
    LogInv p.conn (Function.update p.control id { p.control id with closedWr := (p.handles id).closedWr || wr })
      p.allocated (p.eosEvent id wr ++ p.log) := by
  unfold eosEvent
  cases hw : (p.handles id).closedWr <;> cases wr
  · exact hl.flags rfl hw.symm
  · exact hl.sendEos hid hw rfl rfl
  · exact hl.flags rfl hw.symm
  · exact hl.flags rfl hw.symm

private theorem inv_close {p : Process} (hi : p.Inv) {id : Nat} (hid : id < p.allocated) (wr rd : Bool) :
    (p.closeHandle id wr rd).Inv := by
  obtain ⟨ht, hl⟩ := hi
  obtain ⟨⟨hn, -⟩, -⟩ := p.closeHandle_handles id wr rd
  obtain ⟨k, hk, kfd, krd, kwr, kdel⟩ := control_closeHandle p id wr rd
  have hlog := logInv_eosEvent hl hid wr
  have hflags : ∀ {c : ConnTcp} {log : List Event}, k.fd = (p.handles id).fd →
      LogInv c (Function.update p.control id { p.control id with closedWr := (p.handles id).closedWr || wr })
        p.allocated log → LogInv c (Function.update p.control id k) p.allocated log := by
    intro c log e h
    have := h.flags (show k.fd = (Function.update p.control id _ id).fd by rw [Function.update_self]; exact e)
      (by rw [Function.update_self, kwr])
    rwa [Function.update_idem] at this
  unfold Inv
  rw [hk, hn]
  rcases hfd : (p.handles id).fd with _ | fd
  · -- the handle is closed already
    obtain ⟨e1, e2, e3, e4⟩ := p.closeHandle_noFd hfd wr rd
    obtain ⟨hrd, hwr⟩ := (ht.noFd id hid).1 hfd
    change (p.handles id).closedRd = true at hrd
    change (p.handles id).closedWr = true at hwr
    rw [e1, e2, e3]
    rw [e4] at kfd
    refine ⟨ht.flags (kfd.trans hfd.symm) ?_ (fun _ => ?_) (fun _ _ => kfd), hflags (kfd.trans hfd.symm) hlog⟩
    · rw [krd, hrd]
      exact hrd.symm
    · rw [kwr, hwr]
      exact hwr.symm
  · have hentry : (p.handles id).closedRd = false → p.conn.connections.find? fd ≠ none := by
      intro hrd
      obtain ⟨x, e1, e2⟩ := ht.listed id hid hrd
      rw [show (p.handles id).fd = some x from e1] at hfd
      cases hfd
      simp [e2]
    obtain ⟨e1, e2, e3, e4⟩ := p.closeHandle_table hfd hentry wr rd
    have hnodel : (p.handles id).deleted = false := by
      by_contra hd
      have := ht.deleted id hid (Bool.of_not_eq_false hd)
      rw [show (p.control id).fd = (p.handles id).fd from rfl, hfd] at this
      cases this
    rw [e1, e2, e3]
    rw [e4, ← krd, ← kwr] at kfd
    rw [hnodel, ← krd, ← kwr] at kdel
    rw [← krd, ← kwr]
    cases hrd : k.closedRd with
    | false =>
      rw [hrd] at kfd kdel
      have hfd' : k.fd = (p.handles id).fd := by
        rw [hfd, kfd]
        rfl
      have hold : (p.handles id).closedRd = false := (Bool.or_eq_false_iff.1 (krd.symm.trans hrd)).1
      refine ⟨ht.flags hfd' (hrd.trans hold.symm) (fun h => ?_) (fun _ h => ?_), hflags hfd' hlog⟩
      · rw [show (p.control id).closedRd = false from hold] at h
        cases h
      · simpa using kdel h
    | true =>
      rw [hrd] at kfd kdel
      have hkfd : k.fd = if k.closedWr then none else some fd := kfd
      have ht' := ht.closeRead hid hfd hrd hkfd (fun h => by
        have : k.closedWr = true := by simpa using kdel h
        rw [hkfd, if_pos this])
      have hshrink : ∀ x ∈ ({ p.conn with connections := p.conn.connections.erase fd }.fdClr fd).set, ∀ i,
          ({ p.conn with connections := p.conn.connections.erase fd }.fdClr fd).connections.find? x = some i →
          x ∈ p.conn.set ∧ p.conn.connections.find? x = some i := by
        intro x hx i hi
        change (p.conn.connections.erase fd).find? x = some i at hi
        rw [OrdMap.find?_erase, if_neg (Finset.mem_erase.1 hx).1] at hi
        exact ⟨Finset.mem_of_mem_erase hx, hi⟩
      have hlog' := hlog.shrink hshrink
      refine ⟨ht', ?_⟩
      cases hwr : k.closedWr with
      | false =>
        rw [hwr] at hkfd
        exact hflags (hkfd.trans hfd.symm) hlog'
      | true =>
        rw [hwr] at hkfd
        have := hlog'.close (k := k) hid (by rw [Function.update_self]; exact hfd) hkfd
          (by rw [Function.update_self, kwr])
        rwa [Function.update_idem] at this

private theorem inv_delete {p : Process} (hi : p.Inv) {id : Nat} (hid : id < p.allocated) :
    (p.deleteUnused id).Inv := by
  obtain ⟨⟨hn, -⟩, e1, e2, e3, d, hh, hd⟩ := p.deleteUnused_handles id
  have hc : (p.deleteUnused id).control = Function.update p.control id { p.control id with deleted := d } := by
    have := control_put p id { p.handles id with deleted := d }
    unfold put at this
    rw [show (p.deleteUnused id).control = fun i => ((p.deleteUnused id).handles i).control from rfl, hh]
    exact this
  unfold Inv
  rw [e1, e2, e3, hn, hc]
  refine ⟨hi.1.flags rfl rfl (fun _ => rfl) (fun _ h => ?_), hi.2.flags rfl rfl⟩
  rcases hd h with h | h
  · exact hi.1.deleted id hid h
  · exact (hi.1.noFd id hid).2 ⟨h.2.2, h.2.1⟩

/-- Every change keeps the invariant. -/
theorem inv_tableStep {p q : Process} (hi : p.Inv) (h : p.TableStep q) : q.Inv := by
  cases h with
  | same h => exact inv_same h hi
  | close hid wr rd => exact inv_close hi hid wr rd
  | delete hid => exact inv_delete hi hid
  | yield hid hrd =>
    obtain ⟨fd, e1, e2⟩ := hi.1.listed _ hid hrd
    change (p.handles _).fd = some fd at e1
    unfold notifyYield
    rw [e1, hrd]
    exact ⟨hi.1.fdSet e2, hi.2.poll hid e2⟩
  | @add s hs =>
    have hc : (p.newHandle s).control = Function.update p.control p.allocated ⟨some s.fd, false, false, false⟩ :=
      control_put p p.allocated { fd := some s.fd, incoming := s.incoming, answers := s.answers }
    unfold Inv
    rw [hc]
    refine ⟨hi.1.add hs, hi.2.add fun x hx => ?_⟩
    rintro rfl
    exact hs (hi.1.polled _ hx)
  | @clear idx => exact ⟨hi.1.fdClr idx, hi.2.shrink fun x hx i he => ⟨Finset.mem_of_mem_erase hx, he⟩⟩
  | @push idx id hset hsck he =>
    obtain ⟨h1, h2, -⟩ := hi.1.entry idx _ he
    refine ⟨hi.1.fdClr idx, hi.2.push h1 hset he fun x hx => ?_⟩
    obtain ⟨-, h3, -⟩ := hi.1.entry x _ hx
    rw [h2] at h3
    exact (Option.some.inj h3).symm

theorem inv_evolves {p q : Process} (hi : p.Inv) (h : p.Evolves q) : q.Inv := by
  induction h with
  | refl => exact hi
  | tail _ h ih => exact inv_tableStep ih h

/-- Until its read side is closed, the descriptor of a handle has an entry. -/
theorem Inv.has_entry {p : Process} (hi : p.Inv) {id fd : Nat} (hid : id < p.allocated)
    (hfd : (p.handles id).fd = some fd) (hrd : (p.handles id).closedRd = false) :
    p.conn.connections.find? fd = some id := by
  obtain ⟨x, e1, e2⟩ := hi.1.listed id hid hrd
  rw [show (p.handles id).fd = some x from e1] at hfd
  cases hfd
  exact e2

private theorem polledInv_tableStep {p q : Process} (hi : p.Inv) (hp : PolledInv p.conn) (h : p.TableStep q) :
    PolledInv q.conn := by
  cases h with
  | same h =>
    rw [h.conn]
    exact hp
  | @close id hid wr rd =>
    rcases hfd : (p.handles id).fd with _ | fd
    · rw [(p.closeHandle_noFd hfd wr rd).1]
      exact hp
    · rw [(p.closeHandle_table hfd (fun hrd => by simp [hi.has_entry hid hfd hrd]) wr rd).1]
      split
      · exact hp.erase fd
      · exact hp
  | @delete id hid =>
    obtain ⟨-, e, -⟩ := p.deleteUnused_handles id
    rw [e]
    exact hp
  | yield hid hrd =>
    obtain ⟨fd, e1, e2⟩ := hi.1.listed _ hid hrd
    change (p.handles _).fd = some fd at e1
    unfold notifyYield
    rw [e1, hrd]
    exact hp.fdSet e2
  | add hs => exact hp.add _ _
  | @clear idx => exact hp.fdClr idx
  | @push idx id hset hsck he => exact hp.fdClr idx

/-- The listening socket is open, and no handle has its descriptor. -/
def ListenInv (p : Process) : Prop :=
  ∀ x, p.conn.listenSck = some x → x ∈ p.openFds ∧ ∀ id < p.allocated, (p.handles id).fd ≠ some x

private theorem listenInv_tableStep {p q : Process} (hi : p.Inv) (hl : p.ListenInv) (h : p.TableStep q) :
    q.ListenInv := by
  intro x hx
  cases h with
  | same h =>
    rw [h.conn] at hx
    obtain ⟨h1, h2⟩ := hl x hx
    refine ⟨h.openFds.symm ▸ h1, fun id hid => ?_⟩
    rw [h.allocated] at hid
    have hfd : (q.handles id).fd = (p.handles id).fd := congrArg Control.fd (congrFun h.control id)
    rw [hfd]
    exact h2 id hid
  | @close id hid wr rd =>
    obtain ⟨hrest, fd', wire, answers, eos, deleted, hh, -⟩ := p.closeHandle_handles id wr rd
    have hother : ∀ i, i ≠ id → (p.closeHandle id wr rd).handles i = p.handles i := by
      intro i hne
      rw [hh, Function.update_of_ne hne]
    -- the handle keeps its descriptor, or has none any more
    rcases hfd : (p.handles id).fd with _ | fd
    · obtain ⟨e1, e2, -, e4⟩ := p.closeHandle_noFd hfd wr rd
      rw [e1] at hx
      obtain ⟨h1, h2⟩ := hl x hx
      refine ⟨e2.symm ▸ h1, fun i hlt => ?_⟩
      rw [hrest.1] at hlt
      by_cases hne : i = id
      · rw [hne, e4]
        exact nofun
      · rw [hother i hne]
        exact h2 i hlt
    · obtain ⟨e1, e2, -, e4⟩ := p.closeHandle_table hfd (fun hrd => by simp [hi.has_entry hid hfd hrd]) wr rd
      have hx' : p.conn.listenSck = some x := by
        rw [e1] at hx
        split at hx <;> exact hx
      obtain ⟨h1, h2⟩ := hl x hx'
      have hne : x ≠ fd := by
        rintro rfl
        exact h2 id hid hfd
      refine ⟨?_, fun i hlt => ?_⟩
      · rw [e2]
        split
        · exact Finset.mem_erase.2 ⟨hne, h1⟩
        · exact h1
      · rw [hrest.1] at hlt
        by_cases hi' : i = id
        · rw [hi', e4]
          split
          · exact nofun
          · exact fun e => hne (Option.some.inj e).symm
        · rw [hother i hi']
          exact h2 i hlt
  | @delete id hid =>
    obtain ⟨hrest, e1, e2, -, d, e4, -⟩ := p.deleteUnused_handles id
    rw [e1] at hx
    obtain ⟨h1, h2⟩ := hl x hx
    refine ⟨e2.symm ▸ h1, fun i hlt => ?_⟩
    rw [hrest.1] at hlt
    have hfd : ((p.deleteUnused id).handles i).fd = (p.handles i).fd := by
      rw [e4]
      by_cases hne : i = id
      · rw [hne, Function.update_self]
      · rw [Function.update_of_ne hne]
    rw [hfd]
    exact h2 i hlt
  | @yield id hid hrd =>
    have hsame : (p.notifyYield id).handles = p.handles ∧ (p.notifyYield id).allocated = p.allocated ∧
        (p.notifyYield id).openFds = p.openFds ∧ (p.notifyYield id).conn.listenSck = p.conn.listenSck := by
      unfold notifyYield
      split
      · exact ⟨rfl, rfl, rfl, rfl⟩
      · split <;> exact ⟨rfl, rfl, rfl, rfl⟩
    rw [hsame.2.2.2] at hx
    obtain ⟨h1, h2⟩ := hl x hx
    refine ⟨hsame.2.2.1.symm ▸ h1, fun i hlt => ?_⟩
    rw [hsame.1]
    exact h2 i (hsame.2.1 ▸ hlt)
  | @add s hs =>
    obtain ⟨h1, h2⟩ := hl x hx
    refine ⟨Finset.mem_insert_of_mem h1, fun i hlt => ?_⟩
    change ((p.put p.allocated _).handles i).fd ≠ some x
    by_cases hne : i = p.allocated
    · rw [hne, put_handles_self]
      intro e
      have hfd : s.fd = x := Option.some.inj e
      exact hs (hfd ▸ h1)
    · rw [put_handles_ne _ _ hne]
      have hlt' : i < p.allocated + 1 := hlt
      exact h2 i (by omega)
  | clear => exact hl x hx
  | push => exact hl x hx

theorem listenInv_evolves {p q : Process} (hi : p.Inv) (hl : p.ListenInv) (h : p.Evolves q) : q.ListenInv := by
  induction h with
  | refl => exact hl
  | tail hpq h ih => exact listenInv_tableStep (inv_evolves hi hpq) ih h

theorem polledInv_evolves {p q : Process} (hi : p.Inv) (hp : PolledInv p.conn) (h : p.Evolves q) :
    PolledInv q.conn := by
  induction h with
  | refl => exact hp
  | tail hpq h ih => exact polledInv_tableStep (inv_evolves hi hpq) ih h

end Process

/-! ### An application -/

/-- An application: its process, and the `HandleUser` objects it holds. -/
structure App where
  proc : Process := {}
  vars : Nat → HandleUser Nat := fun _ => {}

/-- What an application can do, with what the kernel decides; the last two are the functions of `Handle` called
directly, as the collectives do. -/
inductive Op
  | listen (sck : Option (Nat × Bool))
  | connect (x : Nat) (s : Option Socket)
  | update (ready : Finset Nat) (accepted : Option Socket)
  | getNext (x : Nat)
  | probe (x size : Nat) (blocking : Bool)
  | receive (x size : Nat)
  | send (x : Nat) (bs : Bytes)
  | yield (x : Nat)
  | close (x : Nat)
  | destroy (x : Nat)
  | move (x y : Nat)
  | handleClose (id : Nat) (closeWr closeRd : Bool)
  | handleYield (id : Nat)

namespace App

/-- The application with one variable changed. -/
def assign (s : App) (x : Nat) (r : HandleUser Nat × Process) : App :=
  { proc := r.2, vars := Function.update s.vars x r.1 }

/-- One operation; what it returns to the application is left out. -/
def step (s : App) : Op → Except Stop App
  | .listen sck => .ok { s with proc := s.proc.listen sck }
  | .connect x sock => (s.proc.managerConnect sock).map (s.assign x)
  | .update ready accepted => (s.proc.update ready accepted).map fun p => { s with proc := p }
  | .getNext x => .ok (s.assign x s.proc.getNext)
  | .probe x size blocking => ((s.vars x).probe tcpHandle size blocking s.proc).map fun r => s.assign x r.2.2
  | .receive x size => ((s.vars x).receive tcpHandle size s.proc).map fun r => s.assign x r.2.2
  | .send x bs => ((s.vars x).send tcpHandle bs s.proc).map fun r => s.assign x r.2
  | .yield x => ((s.vars x).yield tcpHandle s.proc).map (s.assign x)
  | .close x => ((s.vars x).close tcpHandle s.proc).map fun p => { s with proc := p }
  | .destroy x => ((s.vars x).destroy tcpHandle s.proc).map fun p => s.assign x ({}, p)
  | .move x y =>
    let (target, source) := (s.vars x).moveAssign (s.vars y)
    .ok (if x = y then s else { s with vars := Function.update (Function.update s.vars y source) x target })
  | .handleClose id wr rd => ((tcpHandle id).close wr rd s.proc).map fun p => { s with proc := p }
  | .handleYield id => ((tcpHandle id).yield s.proc).map fun p => { s with proc := p }

/-- The application when `Manager::init` has returned. -/
def Init (s : App) : Prop := ∃ garbage, s.proc = { garbage := garbage } ∧ ∀ x, s.vars x = {}

/-- The states of every run. -/
def Reachable : App → Prop := Runs.Reach Init fun o s s' => s.step o = .ok s'

/-- `listen` comes before any connection and before any other `listen` that got a socket. -/
def ListensFirst (s : App) : Op → Prop
  | .listen _ => s.proc.allocated = 0 ∧ s.proc.conn.listenSck = none
  | _ => True

/-- The states of every run that listens first. -/
def ReachableListensFirst : App → Prop := Runs.Reach Init fun o s s' => s.ListensFirst o ∧ s.step o = .ok s'

/-- Every operation but `listen` evolves the process. -/
theorem step_evolves {s s' : App} {o : Op} (ho : ∀ sck, o ≠ .listen sck) (h : s.step o = .ok s') :
    s.proc.Evolves s'.proc := by
  have hk := fun id => s.proc.tcpHandle_evolves id
  cases o with
  | listen sck => exact absurd rfl (ho sck)
  | connect x sock =>
    obtain ⟨⟨u, p⟩, h1, rfl⟩ := map_eq_ok h
    exact Process.managerConnect_evolves h1
  | update ready accepted =>
    obtain ⟨p, h1, rfl⟩ := map_eq_ok h
    exact Process.update_evolves h1
  | getNext x =>
    cases h
    refine .single (.same ?_)
    unfold assign Process.getNext
    split
    · exact .refl _
    · exact ⟨rfl, rfl, rfl, rfl, rfl, fun _ => .refl _⟩
  | probe x size blocking =>
    obtain ⟨⟨r, n, u, p⟩, h1, rfl⟩ := map_eq_ok h
    exact HandleUser.probe_keeps hk .refl h1
  | receive x size =>
    obtain ⟨⟨r, bs, u, p⟩, h1, rfl⟩ := map_eq_ok h
    exact HandleUser.receive_keeps hk .refl h1
  | send x bs =>
    obtain ⟨⟨r, u, p⟩, h1, rfl⟩ := map_eq_ok h
    exact HandleUser.send_keeps hk .refl h1
  | yield x =>
    obtain ⟨⟨u, p⟩, h1, rfl⟩ := map_eq_ok h
    exact HandleUser.yield_keeps hk .refl h1
  | close x =>
    obtain ⟨p, h1, rfl⟩ := map_eq_ok h
    exact HandleUser.close_keeps hk .refl h1
  | destroy x =>
    obtain ⟨p, h1, rfl⟩ := map_eq_ok h
    exact HandleUser.destroy_keeps hk .refl h1
  | move x y =>
    cases h
    split <;> exact .refl
  | handleClose id wr rd =>
    obtain ⟨p, h1, rfl⟩ := map_eq_ok h
    exact (hk id).close .refl h1
  | handleYield id =>
    obtain ⟨p, h1, rfl⟩ := map_eq_ok h
    exact (hk id).yield .refl h1

private theorem inv_init (garbage : Nat → UInt8) : ({ garbage := garbage } : Process).Inv := by
  refine ⟨⟨?_, ?_, ?_, Or.inl ⟨rfl, rfl⟩, ?_, ?_, ?_, ?_⟩, ⟨?_, ?_, ?_, ?_, trivial⟩⟩ <;> simp

/-- `listen` keeps the invariant: the set that it resets held descriptors that are open, and its socket is new. -/
private theorem inv_listen {p : Process} (hi : p.Inv) (sck : Option (Nat × Bool)) : (p.listen sck).Inv := by
  unfold Process.listen
  split
  · exact ⟨{ hi.1 with }, { hi.2 with }⟩
  · rename_i x ok he
    have hx : x ∉ p.openFds := by simpa using (Option.filter_eq_some_iff.1 he).2
    have hopen : ∀ fd ∈ p.openFds, fd ∈ insert x p.openFds := fun fd h => Finset.mem_insert_of_mem h
    dsimp only
    split
    · refine ⟨⟨hi.1.entry, hi.1.listed, ?_, Or.inr ⟨x, Finset.mem_singleton_self x, rfl, ?_⟩,
        fun i h fd e => hopen fd (hi.1.isOpen i h fd e), hi.1.inj, hi.1.noFd, hi.1.deleted⟩, { hi.2 with armed := ?_ }⟩
      · intro fd hfd
        rw [Finset.mem_singleton.1 hfd]
        exact Finset.mem_insert_self ..
      · intro fd hfd
        rw [Finset.mem_singleton.1 hfd]
      · intro fd hfd id hid
        rw [Finset.mem_singleton.1 hfd] at hid
        obtain ⟨h1, h2, -⟩ := hi.1.entry x id hid
        exact absurd (hi.1.isOpen id h1 x h2) hx
    · exact ⟨⟨hi.1.entry, hi.1.listed, fun fd h => hopen fd (hi.1.polled fd h), hi.1.max,
        fun i h fd e => hopen fd (hi.1.isOpen i h fd e), hi.1.inj, hi.1.noFd, hi.1.deleted⟩, { hi.2 with }⟩

theorem inv_step {s s' : App} {o : Op} (hi : s.proc.Inv) (h : s.step o = .ok s') : s'.proc.Inv := by
  by_cases ho : ∃ sck, o = .listen sck
  · obtain ⟨sck, rfl⟩ := ho
    cases h
    exact inv_listen hi sck
  · exact Process.inv_evolves hi (step_evolves (fun sck e => ho ⟨sck, e⟩) h)

/-- The invariant holds in every state of every run. -/
theorem Reachable.inv {s : App} (h : Reachable s) : s.proc.Inv := by
  refine Runs.Reach.invariant (fun s => s.proc.Inv) ?_ ?_ h
  · rintro s ⟨garbage, e, -⟩
    rw [e]
    exact inv_init garbage
  · intro o s s' hi h
    exact inv_step hi h

/-- The listening socket stays apart from the connections. -/
theorem Reachable.listenInv {s : App} (h : Reachable s) : s.proc.ListenInv := by
  have hboth : s.proc.Inv ∧ s.proc.ListenInv := by
    refine Runs.Reach.invariant (fun s => s.proc.Inv ∧ s.proc.ListenInv) ?_ ?_ h
    · rintro s ⟨garbage, e, -⟩
      rw [e]
      exact ⟨inv_init garbage, nofun⟩
    · rintro o s s' ⟨hi, hl⟩ h
      refine ⟨inv_step hi h, ?_⟩
      by_cases ho : ∃ sck, o = .listen sck
      · obtain ⟨sck, rfl⟩ := ho
        cases h
        intro x hx
        dsimp only [Process.listen] at hx ⊢
        split at hx
        · cases hx
        · rename_i y ok he
          have hy : y ∉ s.proc.openFds := by simpa using (Option.filter_eq_some_iff.1 he).2
          have hnew : ∀ id < s.proc.allocated, (s.proc.handles id).fd ≠ some y := fun id hid e =>
            hy (hi.1.isOpen id hid y e)
          have hxy : y = x := by
            cases ok <;> exact Option.some.inj hx
          subst hxy
          cases ok <;> exact ⟨Finset.mem_insert_self .., hnew⟩
      · exact Process.listenInv_evolves hi hl (step_evolves (fun sck e => ho ⟨sck, e⟩) h)
  exact hboth.2

theorem ReachableListensFirst.inv {s : App} (h : ReachableListensFirst s) :
    s.proc.Inv ∧ PolledInv s.proc.conn := by
  refine Runs.Reach.invariant (fun s => s.proc.Inv ∧ PolledInv s.proc.conn) ?_ ?_ h
  · rintro s ⟨garbage, e, -⟩
    rw [e]
    exact ⟨inv_init garbage, fun x hx => by simp at hx⟩
  · rintro o s s' ⟨hi, hp⟩ ⟨hfirst, h⟩
    refine ⟨inv_step hi h, ?_⟩
    by_cases ho : ∃ sck, o = .listen sck
    · obtain ⟨sck, rfl⟩ := ho
      obtain ⟨hnone, hsck⟩ := hfirst
      -- nothing is polled yet
      have hempty : ∀ x, x ∉ s.proc.conn.set := by
        intro x hx
        rcases hp x hx with e | ⟨id, e⟩
        · rw [hsck] at e
          cases e
        · have := (hi.1.entry x id e).1
          omega
      cases h
      dsimp only [Process.listen]
      split
      · exact fun x hx => absurd hx (hempty x)
      · split
        · exact fun x hx => Or.inl (congrArg some (Finset.mem_singleton.1 hx).symm)
        · exact fun x hx => absurd hx (hempty x)
    · exact Process.polledInv_evolves hi hp (step_evolves (fun sck e => ho ⟨sck, e⟩) h)

/-- A handle without a descriptor touches neither the connector nor any other handle. -/
private theorem keeps_noFd (p : Process) (id : Nat) :
    (tcpHandle id).Keeps fun q => q.conn = p.conn ∧ q.openFds = p.openFds ∧ (q.handles id).fd = none ∧
      ∀ i, i ≠ id → q.handles i = p.handles i := by
  refine Process.tcpHandle_keeps ?_
  rintro q q' ⟨h1, h2, h3, h4⟩ h
  cases h with
  | put hc =>
    refine ⟨h1, h2, ?_, fun i hi => ?_⟩
    · rw [Process.put_handles_self, ← h3]
      exact congrArg Control.fd hc
    · rw [Process.put_handles_ne _ _ hi, h4 i hi]
  | close hid wr rd =>
    obtain ⟨e1, e2, -, e4⟩ := q.closeHandle_noFd h3 wr rd
    obtain ⟨-, fd, wire, answers, eos, deleted, hh, -⟩ := q.closeHandle_handles id wr rd
    refine ⟨e1.trans h1, e2.trans h2, e4, fun i hi => ?_⟩
    rw [hh, Function.update_of_ne hi, h4 i hi]
  | delete hid =>
    obtain ⟨-, e1, e2, -, d, e4, -⟩ := q.deleteUnused_handles id
    refine ⟨e1.trans h1, e2.trans h2, ?_, fun i hi => ?_⟩
    · rw [e4, Function.update_self, h3]
    · rw [e4, Function.update_of_ne hi, h4 i hi]
  | yield hid hrd =>
    unfold Process.notifyYield
    rw [h3]
    exact ⟨h1, h2, h3, h4⟩

end App

/-- In every state of every run in which `listen` comes first: an entry of the table is a handle that is not
read-closed, under its own descriptor, and every such handle has its entry; a polled descriptor is that of the
listening socket or of an entry, and `fdmax` is their maximum; a handle closes its descriptor at most once, and
from then on none of its operations touches the table, the polled set, a descriptor or another handle; and
`update` pushes a handle at most once for each yield. -/
theorem connTcp_table {s : App} (h : s.ReachableListensFirst) :
    (∀ fd id, s.proc.conn.connections.find? fd = some id →
      (s.proc.handles id).fd = some fd ∧ (s.proc.handles id).closedRd = false) ∧
    (∀ id < s.proc.allocated, (s.proc.handles id).closedRd = false →
      ∃ fd, (s.proc.handles id).fd = some fd ∧ s.proc.conn.connections.find? fd = some id) ∧
    (∀ fd ∈ s.proc.conn.set, s.proc.conn.listenSck = some fd ∨ ∃ id, s.proc.conn.connections.find? fd = some id) ∧
    IsMax s.proc.conn.set s.proc.conn.fdmax ∧
    (∀ id < s.proc.allocated, closings id s.proc.log ≤ 1 ∧ (0 < closings id s.proc.log →
      (s.proc.handles id).fd = none ∧
      (tcpHandle id).Keeps fun q => q.conn = s.proc.conn ∧ q.openFds = s.proc.openFds ∧ (q.handles id).fd = none ∧
        ∀ i, i ≠ id → q.handles i = s.proc.handles i)) ∧
    PushedOnce s.proc.log := by
  obtain ⟨⟨ht, hl⟩, hp⟩ := h.inv
  refine ⟨fun fd id e => (ht.entry fd id e).2, ht.listed, hp, ht.max, fun id hid => ?_, hl.pushed⟩
  have hc := hl.closed id hid
  split at hc
  · rename_i hfd
    exact ⟨Nat.le_of_eq hc, fun _ => ⟨hfd, App.keeps_noFd s.proc id⟩⟩
  · exact ⟨by omega, fun h0 => by omega⟩

theorem connTcp_table_run : ∃ s : App, s.proc.log = [.pushed 0, .polled 0] ∧ PushedOnce s.proc.log := by
  have h0 : App.ReachableListensFirst {} := .start ⟨fun _ => 0, rfl, fun _ => rfl⟩
  have h1 := Runs.Reach.next (Op.connect 0 (some { fd := 3 })) h0 ⟨trivial, rfl⟩
  have h2 := Runs.Reach.next (Op.yield 0) h1 ⟨trivial, rfl⟩
  have h3 := Runs.Reach.next (Op.update {3} none) h2 ⟨trivial, rfl⟩
  exact ⟨_, rfl, (connTcp_table h3).2.2.2.2.2⟩

end Mtcl
