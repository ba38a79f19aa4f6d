import Mathlib.Data.Finset.Basic
import Mathlib.Logic.Function.Basic
import Mtcl.Base.OrdMap
import Mtcl.Handshake

/-!
# A process with TCP connections

`ConnTcp` holds the connection table, the set of descriptors that `select` polls, and its maximum.  A `Process` is the
connector together with its handle objects (named by numbers in the order in which they were created), the queue of
ready handles of the `Manager`, the descriptors the kernel has open for it, and a log of the events that the table is
about, newest first.

What the kernel decides is an argument: which of the polled descriptors `select` finds ready, and which socket `accept`
or `connect` yields.  An `fd_set` is a finite set of descriptor numbers; that they stay below `FD_SETSIZE` is left to
the kernel.  One pass of `update` is one step.
-/

namespace Mtcl

/-- What happens to a handle `h`: `sendEOS` is called on it, its descriptor is closed, `update` puts it on the
ready queue with flag `false`, a yield puts its descriptor into the polled set. -/
inductive Event
  | eos (h : Nat)
  | closed (h fd : Nat)
  | pushed (h : Nat)
  | polled (h : Nat)
  deriving DecidableEq, Repr

/-- A connected socket: its descriptor, what it will receive, and what the kernel will answer to writes on it. -/
structure Socket where
  fd : Nat
  incoming : List SockArrival := []
  answers : List WriteAnswer := []
  deriving DecidableEq, Repr

/-- Class `ConnTcp`; `listenSck` is `none` for `-1`. -/
structure ConnTcp where
  connections : OrdMap Nat Nat := ∅
  set : Finset Nat := ∅
  fdmax : Int := -1
  listenSck : Option Nat := none

namespace ConnTcp

/-- The loop that looks for the greatest polled descriptor below `k`. -/
def lastBelow (set : Finset Nat) : Nat → Int
  | 0 => -1
  | k + 1 => if k ∈ set then k else lastBelow set k

/-- `FD_CLR`, with the update of the maximum. -/
def fdClr (c : ConnTcp) (fd : Nat) : ConnTcp :=
  { c with set := c.set.erase fd, fdmax := if (fd : Int) = c.fdmax then lastBelow (c.set.erase fd) fd else c.fdmax }

/-- `FD_SET`, with the update of the maximum. -/
def fdSet (c : ConnTcp) (fd : Nat) : ConnTcp :=
  { c with set := insert fd c.set, fdmax := if c.fdmax < fd then fd else c.fdmax }

end ConnTcp

/-- A process that uses the library over TCP. -/
structure Process where
  conn : ConnTcp := {}
  handles : Nat → HandleTCP := fun _ => {}
  allocated : Nat := 0
  openFds : Finset Nat := ∅
  handleReady : List (HandleUser Nat) := []
  groupsReady : List (Bytes × Nat) := []
  garbage : Nat → UInt8 := fun _ => 0
  log : List Event := []

namespace Process

/-- The process with one handle object changed. -/
def put (p : Process) (id : Nat) (h : HandleTCP) : Process := { p with handles := Function.update p.handles id h }

/-- The handle object a pointer refers to. -/
def deref (p : Process) (id : Nat) : Except Stop HandleTCP :=
  if p.allocated ≤ id ∨ (p.handles id).deleted = true then .error .useAfterFree else .ok (p.handles id)

/-- `close` of the descriptor of a handle, which forgets it. -/
def closeFd (p : Process) (id fd : Nat) : Process :=
  { p.put id { p.handles id with fd := none } with openFds := p.openFds.erase fd, log := .closed id fd :: p.log }

/-- `ConnTcp::notify_close`; `shutdown` changes nothing that is modelled. -/
def notifyClose (p : Process) (id : Nat) (closeWr closeRd : Bool) : Process :=
  match (p.handles id).fd with
  | none => p
  | some fd =>
    -- the EOS of the peer was received before: the entry is gone already
    let p := if closeWr && !closeRd && (p.conn.connections.find? fd).isNone then p.closeFd id fd else p
    if closeRd then
      let p := { p with conn := { p.conn with connections := p.conn.connections.erase fd }.fdClr fd }
      if closeWr then p.closeFd id fd else p
    else p

/-- `ConnTcp::notify_yield`. -/
def notifyYield (p : Process) (id : Nat) : Process :=
  match (p.handles id).fd with
  | none => p
  | some fd =>
    if (p.handles id).closedRd && (p.handles id).closedWr then p
    else { p with conn := p.conn.fdSet fd, log := .polled id :: p.log }

/-- The first half of `Handle::close`: EOS is sent when the write side is closed. -/
def closeWrite (p : Process) (id : Nat) : Process :=
  if (p.handles id).closedWr then p
  else { p.put id { (p.handles id).sendEOS.2 with closedWr := true } with log := .eos id :: p.log }

/-- `delete this`, when nothing refers to the handle and both its sides are closed. -/
def deleteUnused (p : Process) (id : Nat) : Process :=
  let h := p.handles id
  if h.counter = 0 ∧ h.closedWr = true ∧ h.closedRd = true then p.put id { h with deleted := true } else p

/-- `Handle::close`, on an object that exists. -/
def closeHandle (p : Process) (id : Nat) (closeWr closeRd : Bool) : Process :=
  let p := if closeWr then p.closeWrite id else p
  let p := if closeRd then p.put id { p.handles id with closedRd := true } else p
  (p.notifyClose id (p.handles id).closedWr (p.handles id).closedRd).deleteUnused id

/-- `decrementReferenceCounter`, on an object that exists. -/
def decrement (p : Process) (id : Nat) : Process :=
  (p.put id { p.handles id with counter := (p.handles id).counter - 1 }).deleteUnused id

end Process

/-! ### What closing changes -/

namespace Process

@[simp] theorem put_handles_self (p : Process) (id : Nat) (h : HandleTCP) : (p.put id h).handles id = h :=
  Function.update_self ..

theorem put_handles_ne (p : Process) {id i : Nat} (h : HandleTCP) (hne : i ≠ id) :
    (p.put id h).handles i = p.handles i :=
  Function.update_of_ne hne ..

@[simp] theorem put_put (p : Process) (id : Nat) (h h' : HandleTCP) : (p.put id h).put id h' = p.put id h' := by
  simp only [put, Function.update_idem]

@[simp] theorem put_self (p : Process) (id : Nat) : p.put id (p.handles id) = p := by
  simp only [put, Function.update_eq_self]

/-- The process apart from its connector, its handle objects, the open descriptors and the log. -/
def SameRest (p q : Process) : Prop :=
  q.allocated = p.allocated ∧ q.handleReady = p.handleReady ∧ q.groupsReady = p.groupsReady ∧ q.garbage = p.garbage

private theorem closeWrite_handles (p : Process) (id : Nat) :
    ∃ wire answers eos, (p.closeWrite id).handles =
      Function.update p.handles id { p.handles id with
        closedWr := true, wire := wire, answers := answers, eos := eos } := by
  unfold closeWrite
  split
  · rename_i h
    refine ⟨(p.handles id).wire, (p.handles id).answers, (p.handles id).eos, ?_⟩
    rw [← h, Function.update_eq_self]
  · refine ⟨(p.handles id).sendEOS.2.wire, (p.handles id).sendEOS.2.answers, (p.handles id).sendEOS.2.eos, ?_⟩
    change Function.update _ _ _ = _
    congr 1
    unfold HandleTCP.sendEOS
    split <;> rfl

/-- `Handle::close` before it notifies the connector. -/
private def markClosed (p : Process) (id : Nat) (closeWr closeRd : Bool) : Process :=
  let p := if closeWr then p.closeWrite id else p
  if closeRd then p.put id { p.handles id with closedRd := true } else p

/-- The events of `Handle::close` before it notifies the connector. -/
def eosEvent (p : Process) (id : Nat) (closeWr : Bool) : List Event :=
  if closeWr && !(p.handles id).closedWr then [.eos id] else []

private theorem markClosed_spec (p : Process) (id : Nat) (wr rd : Bool) :
    p.SameRest (p.markClosed id wr rd) ∧ (p.markClosed id wr rd).conn = p.conn ∧
      (p.markClosed id wr rd).openFds = p.openFds ∧ (p.markClosed id wr rd).log = p.eosEvent id wr ++ p.log ∧
      ∃ wire answers eos, (p.markClosed id wr rd).handles = Function.update p.handles id
        { p.handles id with closedWr := (p.handles id).closedWr || wr, closedRd := (p.handles id).closedRd || rd,
                            wire := wire, answers := answers, eos := eos } := by
  have hw : p.SameRest (p.closeWrite id) ∧ (p.closeWrite id).conn = p.conn ∧ (p.closeWrite id).openFds = p.openFds ∧
      (p.closeWrite id).log = p.eosEvent id true ++ p.log := by
    unfold closeWrite eosEvent
    split <;> simp_all [SameRest, put]
  obtain ⟨hrest, hconn, hopen, hlog⟩ := hw
  obtain ⟨wire, answers, eos, hh⟩ := p.closeWrite_handles id
  have hself : (p.closeWrite id).handles id =
      { p.handles id with closedWr := true, wire := wire, answers := answers, eos := eos } :=
        by rw [hh, Function.update_self]
  cases wr <;> cases rd
  · refine ⟨⟨rfl, rfl, rfl, rfl⟩, rfl, rfl, by simp [markClosed, eosEvent], (p.handles id).wire, (p.handles id).answers,
      (p.handles id).eos, ?_⟩
    simp [markClosed]
  · refine ⟨⟨rfl, rfl, rfl, rfl⟩, rfl, rfl, by simp [markClosed, eosEvent, put], (p.handles id).wire,
      (p.handles id).answers, (p.handles id).eos, ?_⟩
    simp [markClosed, put]
  · refine ⟨hrest, hconn, hopen, hlog, wire, answers, eos, ?_⟩
    simpa [markClosed] using hh
  · refine ⟨hrest, hconn, hopen, hlog, wire, answers, eos, ?_⟩
    simp only [markClosed, if_true, put, hself, hh, Function.update_idem, Bool.or_true]

private theorem notifyClose_handles (p : Process) (id : Nat) (a b : Bool) :
    p.SameRest (p.notifyClose id a b) ∧
      ∃ fd, (p.notifyClose id a b).handles = Function.update p.handles id { p.handles id with fd := fd } := by
  unfold notifyClose
  split
  · rename_i hfd
    exact ⟨⟨rfl, rfl, rfl, rfl⟩, none, by rw [← hfd, Function.update_eq_self]⟩
  · rename_i fd hfd
    have hsame : p.handles = Function.update p.handles id { p.handles id with fd := some fd } := by
      rw [← hfd, Function.update_eq_self]
    have hclose : ∀ q : Process, q.handles = p.handles →
        (q.closeFd id fd).handles = Function.update p.handles id { p.handles id with fd := none } := by
      intro q hq
      rw [← hq]
      rfl
    cases a <;> cases b
    · exact ⟨⟨rfl, rfl, rfl, rfl⟩, some fd, hsame⟩
    · exact ⟨⟨rfl, rfl, rfl, rfl⟩, some fd, hsame⟩
    · rcases h : p.conn.connections.find? fd with _ | x
      · exact ⟨⟨rfl, rfl, rfl, rfl⟩, none, hclose p rfl⟩
      · exact ⟨⟨rfl, rfl, rfl, rfl⟩, some fd, hsame⟩
    · exact ⟨⟨rfl, rfl, rfl, rfl⟩, none, hclose _ rfl⟩

/-- `delete this` changes one flag. -/
theorem deleteUnused_handles (p : Process) (id : Nat) :
    p.SameRest (p.deleteUnused id) ∧ (p.deleteUnused id).conn = p.conn ∧ (p.deleteUnused id).openFds = p.openFds ∧
      (p.deleteUnused id).log = p.log ∧ ∃ deleted,
        (p.deleteUnused id).handles = Function.update p.handles id { p.handles id with deleted := deleted } ∧
        (deleted = true → (p.handles id).deleted = true ∨ (p.handles id).counter = 0 ∧
          (p.handles id).closedWr = true ∧ (p.handles id).closedRd = true) := by
  unfold deleteUnused
  dsimp only
  split
  · rename_i hd
    exact ⟨⟨rfl, rfl, rfl, rfl⟩, rfl, rfl, rfl, true, rfl, fun _ => Or.inr hd⟩
  · exact ⟨⟨rfl, rfl, rfl, rfl⟩, rfl, rfl, rfl, (p.handles id).deleted, by simp, Or.inl⟩

private theorem closeHandle_eq (p : Process) (id : Nat) (wr rd : Bool) :
    p.closeHandle id wr rd = ((p.markClosed id wr rd).notifyClose id ((p.handles id).closedWr || wr)
      ((p.handles id).closedRd || rd)).deleteUnused id := by
  obtain ⟨-, -, -, -, wire, answers, eos, hh⟩ := p.markClosed_spec id wr rd
  have hself : (p.markClosed id wr rd).handles id = { p.handles id with
      closedWr := (p.handles id).closedWr || wr, closedRd := (p.handles id).closedRd || rd,
      wire := wire, answers := answers, eos := eos } := by rw [hh, Function.update_self]
  have e : p.closeHandle id wr rd =
      ((p.markClosed id wr rd).notifyClose id ((p.markClosed id wr rd).handles id).closedWr
      ((p.markClosed id wr rd).handles id).closedRd).deleteUnused id := rfl
  rw [e, hself]

/-- What `Handle::close` does to the handle objects: the flags are raised, and only the descriptor, what was written and
`deleted` may change besides. -/
theorem closeHandle_handles (p : Process) (id : Nat) (wr rd : Bool) :
    p.SameRest (p.closeHandle id wr rd) ∧ ∃ fd wire answers eos deleted, (p.closeHandle id wr rd).handles =
      Function.update p.handles id
        { p.handles id with closedWr := (p.handles id).closedWr || wr, closedRd := (p.handles id).closedRd || rd,
                            fd := fd, wire := wire, answers := answers, eos := eos, deleted := deleted } ∧
      (deleted = true → (p.handles id).deleted = true ∨ (p.handles id).counter = 0 ∧
        ((p.handles id).closedWr || wr) = true ∧ ((p.handles id).closedRd || rd) = true) := by
  obtain ⟨h1, -, -, -, wire, answers, eos, hh⟩ := p.markClosed_spec id wr rd
  obtain ⟨h2, fd, hn⟩ := (p.markClosed id wr rd).notifyClose_handles id ((p.handles id).closedWr || wr)
    ((p.handles id).closedRd || rd)
  rw [closeHandle_eq]
  generalize (p.markClosed id wr rd).notifyClose id _ _ = q at h2 hn
  rw [hh, Function.update_self, Function.update_idem] at hn
  obtain ⟨h3, -, -, -, deleted, hd, himp⟩ := q.deleteUnused_handles id
  refine ⟨⟨h3.1.trans (h2.1.trans h1.1), h3.2.1.trans (h2.2.1.trans h1.2.1),
    h3.2.2.1.trans (h2.2.2.1.trans h1.2.2.1), h3.2.2.2.trans (h2.2.2.2.trans h1.2.2.2)⟩, fd, wire, answers, eos,
    deleted, ?_, ?_⟩
  · rw [hd, hn, Function.update_self, Function.update_idem]
  · rwa [hn, Function.update_self] at himp

/-- A handle that nobody owns is deleted when both its sides are closed. -/
theorem closeHandle_deletes (p : Process) {id : Nat} {wr rd : Bool} (hcount : (p.handles id).counter = 0)
    (hwr : ((p.handles id).closedWr || wr) = true) (hrd : ((p.handles id).closedRd || rd) = true) :
    ((p.closeHandle id wr rd).handles id).deleted = true := by
  obtain ⟨-, -, -, -, wire, answers, eos, hh⟩ := p.markClosed_spec id wr rd
  obtain ⟨-, fd, hn⟩ := (p.markClosed id wr rd).notifyClose_handles id ((p.handles id).closedWr || wr)
    ((p.handles id).closedRd || rd)
  rw [closeHandle_eq]
  generalize (p.markClosed id wr rd).notifyClose id _ _ = q at hn
  rw [hh, Function.update_self, Function.update_idem] at hn
  have hself : q.handles id = { p.handles id with
      closedWr := (p.handles id).closedWr || wr
      closedRd := (p.handles id).closedRd || rd
      wire := wire
      answers := answers
      eos := eos
      fd := fd } := by
    rw [hn, Function.update_self]
  unfold deleteUnused
  dsimp only
  rw [if_pos, put_handles_self]
  rw [hself]
  exact ⟨hcount, hwr, hrd⟩

/-- `Handle::close` of an open write side sends EOS. -/
theorem closeHandle_wire (p : Process) {id : Nat} (hw : (p.handles id).closedWr = false) (rd : Bool) :
    ((p.closeHandle id true rd).handles id).wire = (p.handles id).sendEOS.2.wire ∧
      ((p.closeHandle id true rd).handles id).eos = (p.handles id).sendEOS.2.eos := by
  have hmark : ((p.markClosed id true rd).handles id).wire = (p.handles id).sendEOS.2.wire ∧
      ((p.markClosed id true rd).handles id).eos = (p.handles id).sendEOS.2.eos := by
    have hwrite : (p.closeWrite id).handles id = { (p.handles id).sendEOS.2 with closedWr := true } := by
      rw [closeWrite, hw, if_neg (by simp)]
      exact put_handles_self ..
    cases rd with
    | false =>
      change ((p.closeWrite id).handles id).wire = _ ∧ ((p.closeWrite id).handles id).eos = _
      rw [hwrite]
      exact ⟨rfl, rfl⟩
    | true =>
      have hput : (p.markClosed id true true).handles id = { (p.closeWrite id).handles id with closedRd := true } :=
        put_handles_self ..
      rw [hput, hwrite]
      exact ⟨rfl, rfl⟩
  obtain ⟨-, fd, hn⟩ := (p.markClosed id true rd).notifyClose_handles id ((p.handles id).closedWr || true)
    ((p.handles id).closedRd || rd)
  rw [closeHandle_eq]
  generalize (p.markClosed id true rd).notifyClose id _ _ = q at hn
  obtain ⟨-, -, -, -, deleted, hd, -⟩ := q.deleteUnused_handles id
  rw [hd, Function.update_self, hn, Function.update_self]
  exact hmark

/-- `Handle::close` puts nothing on the stream when the write side stays open or was closed before. -/
theorem closeHandle_unwritten (p : Process) {id : Nat} (wr : Bool) (hwr : wr = true → (p.handles id).closedWr = true)
    (rd : Bool) :
    ((p.closeHandle id wr rd).handles id).wire = (p.handles id).wire ∧
      ((p.closeHandle id wr rd).handles id).answers = (p.handles id).answers ∧
      ((p.closeHandle id wr rd).handles id).eos = (p.handles id).eos := by
  have hsame : p.closeHandle id wr rd = p.closeHandle id false rd := by
    cases wr with
    | false => rfl
    | true =>
      have hw : p.closeWrite id = p := if_pos (hwr rfl)
      unfold closeHandle
      rw [if_pos rfl, hw]
      rfl
  have hmark : ((p.markClosed id false rd).handles id).wire = (p.handles id).wire ∧
      ((p.markClosed id false rd).handles id).answers = (p.handles id).answers ∧
      ((p.markClosed id false rd).handles id).eos = (p.handles id).eos := by
    cases rd with
    | false => exact ⟨rfl, rfl, rfl⟩
    | true =>
      have hput : (p.markClosed id false true).handles id = { p.handles id with closedRd := true } :=
        put_handles_self ..
      rw [hput]
      exact ⟨rfl, rfl, rfl⟩
  obtain ⟨-, fd, hn⟩ := (p.markClosed id false rd).notifyClose_handles id ((p.handles id).closedWr || false)
    ((p.handles id).closedRd || rd)
  rw [hsame, closeHandle_eq]
  generalize (p.markClosed id false rd).notifyClose id _ _ = q at hn
  obtain ⟨-, -, -, -, deleted, hd, -⟩ := q.deleteUnused_handles id
  rw [hd, Function.update_self, hn, Function.update_self]
  exact hmark

/-- What `Handle::close` does to the connector, the descriptors and the log, for a handle without a descriptor. -/
theorem closeHandle_noFd (p : Process) {id : Nat} (hfd : (p.handles id).fd = none) (wr rd : Bool) :
    (p.closeHandle id wr rd).conn = p.conn ∧ (p.closeHandle id wr rd).openFds = p.openFds ∧
      (p.closeHandle id wr rd).log = p.eosEvent id wr ++ p.log ∧ ((p.closeHandle id wr rd).handles id).fd = none := by
  obtain ⟨-, h2, h3, h4, wire, answers, eos, hh⟩ := p.markClosed_spec id wr rd
  have hfd' : ((p.markClosed id wr rd).handles id).fd = none := by rw [hh, Function.update_self, ← hfd]
  rw [closeHandle_eq]
  obtain ⟨-, e1, e2, e3, deleted, e4, -⟩ := ((p.markClosed id wr rd).notifyClose id ((p.handles id).closedWr || wr)
    ((p.handles id).closedRd || rd)).deleteUnused_handles id
  rw [e1, e2, e3, e4, Function.update_self]
  unfold notifyClose
  rw [hfd']
  exact ⟨h2, h3, h4, hfd'⟩

/-- What `Handle::close` does to the connector, the descriptors and the log, for a handle that still has its
descriptor and, until its read side is closed, its entry. -/
theorem closeHandle_table (p : Process) {id fd : Nat} (hfd : (p.handles id).fd = some fd)
    (hentry : (p.handles id).closedRd = false → p.conn.connections.find? fd ≠ none) (wr rd : Bool) :
    let closedWr := (p.handles id).closedWr || wr
    let closedRd := (p.handles id).closedRd || rd
    (p.closeHandle id wr rd).conn =
        (if closedRd then { p.conn with connections := p.conn.connections.erase fd }.fdClr fd else p.conn) ∧
      (p.closeHandle id wr rd).openFds = (if closedRd && closedWr then p.openFds.erase fd else p.openFds) ∧
      (p.closeHandle id wr rd).log =
        (if closedRd && closedWr then [.closed id fd] else []) ++ p.eosEvent id wr ++ p.log ∧
      ((p.closeHandle id wr rd).handles id).fd = (if closedRd && closedWr then none else some fd) := by
  obtain ⟨-, h2, h3, h4, wire, answers, eos, hh⟩ := p.markClosed_spec id wr rd
  have hfd' : ((p.markClosed id wr rd).handles id).fd = some fd := by rw [hh, Function.update_self, ← hfd]
  rw [closeHandle_eq]
  dsimp only
  obtain ⟨-, e1, e2, e3, deleted, e4, -⟩ := ((p.markClosed id wr rd).notifyClose id ((p.handles id).closedWr || wr)
    ((p.handles id).closedRd || rd)).deleteUnused_handles id
  rw [e1, e2, e3, e4, Function.update_self]
  unfold notifyClose
  rw [hfd']
  dsimp only
  cases hrd : ((p.handles id).closedRd || rd) <;> cases hwr : ((p.handles id).closedWr || wr)
  · simp [h2, h3, h4, hfd']
  · have hne : (p.conn.connections.find? fd).isNone = false := by
      simpa [Option.isSome_iff_ne_none] using hentry (Bool.or_eq_false_iff.1 hrd).1
    simp [h2, h3, h4, hfd', hne]
  · simp [h2, h3, h4, hfd']
  · simp [h2, h3, h4, closeFd, put]

end Process

/-- The virtual functions of the handle `id` of a process. -/
def tcpHandle (id : Nat) : CommunicationHandle Process where
  base p := do
    let h ← p.deref id
    return h.toCommBase
  setProbed pr p := p.put id { p.handles id with probed := pr }
  probe size blocking p := do
    let h ← p.deref id
    let (r, size, h) ← h.probe p.garbage size blocking
    return (r, size, p.put id h)
  receive n p := do
    let h ← p.deref id
    let (r, bs, h) ← h.receive n
    return (r, bs, p.put id h)
  send bs p := do
    let h ← p.deref id
    return ((h.send bs).1, p.put id (h.send bs).2)
  close wr rd p := do
    let _ ← p.deref id
    return p.closeHandle id wr rd
  yield p := do
    let h ← p.deref id
    return if h.closedRd then p else p.notifyYield id
  incrementReferenceCounter p := do
    let h ← p.deref id
    return p.put id { h with counter := h.counter + 1 }
  decrementReferenceCounter p := do
    let _ ← p.deref id
    return p.decrement id

namespace Process

/-- The handle exists and has its descriptor. -/
structure Live (p : Process) (id : Nat) : Prop where
  allocated : id < p.allocated
  deleted : (p.handles id).deleted = false
  fd : (p.handles id).fd ≠ none

theorem Live.deref {p : Process} {id : Nat} (h : p.Live id) : p.deref id = .ok (p.handles id) := by
  unfold Process.deref
  rw [if_neg]
  rintro (hd | hd)
  · exact absurd h.allocated (Nat.not_lt.2 hd)
  · rw [h.deleted] at hd
    cases hd

theorem Live.put {p : Process} {id : Nat} (h : p.Live id) {k : HandleTCP} (hfd : k.fd = (p.handles id).fd)
    (hd : k.deleted = (p.handles id).deleted) : (p.put id k).Live id := by
  refine ⟨h.allocated, ?_, ?_⟩
  · rw [put_handles_self, hd]
    exact h.deleted
  · rw [put_handles_self, hfd]
    exact h.fd

/-- The process with another header cache and another stream for one handle. -/
def withIncoming (p : Process) (id : Nat) (probed : Bool × Nat) (s : List SockArrival) : Process :=
  p.put id { p.handles id with probed := probed, incoming := s }

theorem withIncoming_self (p : Process) (id : Nat) :
    p.withIncoming id (p.handles id).probed (p.handles id).incoming = p :=
  p.put_self id

theorem withIncoming_handles (p : Process) (id : Nat) (pr : Bool × Nat) (s : List SockArrival) :
    (p.withIncoming id pr s).handles id = { p.handles id with probed := pr, incoming := s } :=
  put_handles_self ..

theorem setProbed_withIncoming (p : Process) (id : Nat) (pr pr' : Bool × Nat) (s : List SockArrival) :
    (tcpHandle id).setProbed pr' (p.withIncoming id pr s) = p.withIncoming id pr' s := by
  change (p.withIncoming id pr s).put id _ = _
  rw [withIncoming, put_put, put_handles_self]
  rfl

theorem put_withIncoming (p : Process) (id : Nat) (pr : Bool × Nat) (s s' : List SockArrival) :
    (p.withIncoming id pr s).put id { (p.withIncoming id pr s).handles id with incoming := s' } =
      p.withIncoming id pr s' := by
  rw [withIncoming, put_put, put_handles_self]
  rfl

theorem Live.withIncoming {p : Process} {id : Nat} (h : p.Live id) (pr : Bool × Nat) (s : List SockArrival) :
    (p.withIncoming id pr s).Live id :=
  h.put rfl rfl

theorem Live.base {p : Process} {id : Nat} (h : p.Live id) :
    (tcpHandle id).base p = .ok (p.handles id).toCommBase := by
  change (p.deref id >>= _) = _
  rw [h.deref]
  rfl

theorem Live.probe_blocking {p : Process} {id : Nat} (h : p.Live id) (size : Nat) :
    (tcpHandle id).probe size true p =
      match readn sizeofSizeT (p.handles id).incoming with
      | .error st => .error st
      | .ok (.ok (_ + 1), bs, s) =>
        .ok (.ok sizeofSizeT, Words.ofBE (overlay p.garbage sizeofSizeT bs),
          p.put id { p.handles id with incoming := s })
      | .ok (r, _, s) => .ok (r, size, p.put id { p.handles id with incoming := s }) := by
  change (p.deref id >>= fun k => k.probe p.garbage size true >>= _) = _
  rw [h.deref, bind_ok, HandleTCP.probe_blocking h.fd]
  rcases readn sizeofSizeT (p.handles id).incoming with e | ⟨_ | _ | n, bs, s⟩ <;> rfl

theorem Live.probe_nonblocking {p : Process} {id : Nat} (h : p.Live id) (size : Nat) :
    (tcpHandle id).probe size false p =
      match Arrivals.poll sizeofSizeT (p.handles id).incoming with
      | (none, s) => .ok (.error .EWOULDBLOCK, size, p.put id { p.handles id with incoming := s })
      | (some (.items bs), s) =>
        .ok (.ok sizeofSizeT, Words.ofBE (overlay p.garbage sizeofSizeT bs),
          p.put id { p.handles id with incoming := s })
      | (some .eof, s) => .ok (.ok 0, size, p.put id { p.handles id with incoming := s })
      | (some (.error e), s) => .ok (.error e, size, p.put id { p.handles id with incoming := s }) := by
  change (p.deref id >>= fun k => k.probe p.garbage size false >>= _) = _
  rw [h.deref, bind_ok, HandleTCP.probe_nonblocking h.fd]
  rcases Arrivals.poll sizeofSizeT (p.handles id).incoming with ⟨_ | _ | _ | e, s⟩ <;> rfl

theorem Live.receive {p : Process} {id : Nat} (h : p.Live id) (n : Nat) :
    (tcpHandle id).receive n p =
      match readn n (p.handles id).incoming with
      | .error st => .error st
      | .ok (r, bs, s) => .ok (r, bs, p.put id { p.handles id with incoming := s }) := by
  change (p.deref id >>= fun k => k.receive n >>= _) = _
  rw [h.deref, bind_ok, HandleTCP.receive_socket h.fd]
  rcases readn n (p.handles id).incoming with e | ⟨r, bs, s⟩ <;> rfl

theorem Live.close {p : Process} {id : Nat} (h : p.Live id) (wr rd : Bool) :
    (tcpHandle id).close wr rd p = .ok (p.closeHandle id wr rd) := by
  change (p.deref id >>= _) = _
  rw [h.deref]
  rfl

/-- `new HandleTCP(this, fd)`, entered into the table. -/
def newHandle (p : Process) (s : Socket) : Process :=
  { p.put p.allocated { fd := some s.fd, incoming := s.incoming, answers := s.answers } with
    conn := { p.conn with connections := p.conn.connections.insert s.fd p.allocated }
    allocated := p.allocated + 1
    openFds := insert s.fd p.openFds }

/-- A descriptor that is open is not handed out again. -/
def kernelYields (p : Process) (s : Option Socket) : Option Socket := s.filter fun s => decide (s.fd ∉ p.openFds)

/-- `Manager::addinQ`. -/
def addinQ (p : Process) (b : Bool) (id : Nat) : Except Stop Process := do
  let (hs, p) ← (if b then connectionHandshake p.garbage (tcpHandle id) p else .ok (.p2p, p))
  match hs with
  | .failed => return p
  | .team teamID => return { p with groupsReady := p.groupsReady ++ [(teamID, id)] }
  | .p2p =>
    let (u, p) ← HandleUser.mk' tcpHandle (some id) true b p
    return { p with handleReady := p.handleReady ++ [u] }

/-- `ConnTcp::listen`: `socket` fails, or it yields a socket on which the rest of `_init` succeeds or not. -/
def listen (p : Process) (sck : Option (Nat × Bool)) : Process :=
  match sck.filter fun s => decide (s.1 ∉ p.openFds) with
  | none => { p with conn := { p.conn with listenSck := none } }
  | some (sck, ok) =>
    let p := { p with openFds := insert sck p.openFds, conn := { p.conn with listenSck := some sck } }
    if ok then { p with conn := { p.conn with set := {sck}, fdmax := sck } } else p

/-- `ConnTcp::connect`; `none` when `internal_connect` fails. -/
def connect (p : Process) (s : Option Socket) : Option Nat × Process :=
  match p.kernelYields s with
  | none => (none, p)
  | some s => (some p.allocated, p.newHandle s)

/-- What `update` does with a ready descriptor that is not the listening socket. -/
def updateReady (p : Process) (idx : Nat) : Except Stop Process :=
  let p := { p with conn := p.conn.fdClr idx }
  match p.conn.connections.find? idx with
  | none => .ok p
  | some id => addinQ { p with log := .pushed id :: p.log } false id

/-- The loop of `update` over the descriptors from `idx` on; the bound is read again in every turn, and a failed
`accept` ends the loop.  The count of ready descriptors only ends it early. -/
def updateLoop (ready : Finset Nat) (accepted : Option Socket) : Nat → Nat → Process → Except Stop Process
  | 0, _, p => .ok p
  | n + 1, idx, p =>
    if (idx : Int) ≤ p.conn.fdmax then
      if idx ∈ ready then
        if some idx = p.conn.listenSck then
          match p.kernelYields accepted with
          | none => .ok p
          | some s => do
            let p ← addinQ (p.newHandle s) true p.allocated
            updateLoop ready accepted n (idx + 1) p
        else do
          let p ← p.updateReady idx
          updateLoop ready accepted n (idx + 1) p
      else updateLoop ready accepted n (idx + 1) p
    else .ok p

/-- `ConnTcp::update`, when `select` finds those of the polled descriptors ready that are in `ready` and `accept` yields
`accepted`. -/
def update (p : Process) (ready : Finset Nat) (accepted : Option Socket) : Except Stop Process :=
  if p.conn.fdmax = -1 then .ok p
  else updateLoop (p.conn.set ∩ ready) accepted (p.conn.fdmax + 1).toNat 0 p

/-- `Manager::getNext`: the front of the ready queue, or an invalid handle when the time is over. -/
def getNext (p : Process) : HandleUser Nat × Process :=
  match p.handleReady with
  | [] => (⟨none, true, true⟩, p)
  | u :: us => (u, { p with handleReady := us })

/-- `Manager::connect` to an endpoint that is reached directly. -/
def managerConnect (p : Process) (s : Option Socket) : Except Stop (HandleUser Nat × Process) :=
  match p.connect s with
  | (none, p) => HandleUser.mk' tcpHandle none true true p
  | (some id, p) => do
    -- the collective flag, an `int` that is zero
    let (r, p) ← (tcpHandle id).send (List.replicate sizeofInt 0) p
    match r with
    | .error _ => HandleUser.mk' tcpHandle none false false p
    | .ok _ => HandleUser.mk' tcpHandle (some id) true true p

end Process

end Mtcl
