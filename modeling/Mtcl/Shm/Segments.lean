import Mtcl.Base.Runs
import Mtcl.Shm.Buffers

/-!
# The named segments of `ConnSHM`

`ConnSHM::connect` creates two segments under names that it makes of a counter modulo `shmMaxConcurrentConn`.
The kernel may fail any of its calls (`CreateFault`), the other side may close its buffers, which takes their
names away, and other processes create segments of their own.

`segments_left_iff` says that in a run no failed call leaves a segment, and a name that comes round is found
taken only when an open connection uses it, exactly when nothing fails in any call once the segment of its input
buffer has been created.
-/

namespace Mtcl

open Runs

/-- The two buffers of a `HandleSHM`. -/
structure ShmEnds where
  inBuf : MappedBuffer
  out : MappedBuffer
  deriving DecidableEq, Repr

/-- One of the buffers has the name open. -/
def ShmEnds.Uses (h : ShmEnds) (name : Bytes) : Prop :=
  h.inBuf.shmp = true ∧ h.inBuf.segmentname = name ∨ h.out.shmp = true ∧ h.out.segmentname = name

/-- An object of class `ConnSHM` with the handles that `connect` has made, and all segments. -/
structure ShmSegments extends ShmSpace where
  shmname : Bytes
  shmconnid : BitVec 32 := 0
  handles : List ShmEnds := []

namespace ShmSegments

/-- The name of an input buffer. -/
def inname (s : ShmSegments) (id : Nat) : Bytes := shmInname s.shmname id

/-- The name of an output buffer. -/
def outname (s : ShmSegments) (id : Nat) : Bytes := shmOutname s.shmname id

/-- The number in the next names. -/
def nextId (s : ShmSegments) : Nat := shmNextId s.shmconnid

/-- `ConnSHM::connect`. -/
def connect (s : ShmSegments) (address : Bytes) (f : ConnectFaults) : Except ConnectFailure ShmEnds × ShmSegments :=
  let (r, id, sp) := s.connectBuffers s.shmname s.shmconnid address f
  let s := { s with toShmSpace := sp, shmconnid := id }
  match r with
  | .error e => (.error e, s)
  | .ok (connshm, inBuf, out) =>
    match connshm.put (connectMessage inBuf out) with
    | .error e => (.error (.putting e), s)
    | .ok _ => (.ok ⟨inBuf, out⟩, { s with handles := s.handles ++ [⟨inBuf, out⟩] })

/-- `ConnSHM::notify_close`, for a handle that `connect` has made. -/
def notifyClose (s : ShmSegments) (i : Nat) (closeWr closeRd : Bool) : ShmSegments :=
  match s.handles[i]? with
  | none => s
  | some h =>
    let (inBuf, out, sp) := s.closeBuffers h.inBuf h.out closeWr closeRd
    { s with toShmSpace := sp, handles := s.handles.set i ⟨inBuf, out⟩ }

/-- The connector makes this name itself. -/
def Own (s : ShmSegments) (name : Bytes) : Prop :=
  ∃ id, id < shmMaxConcurrentConn ∧ (name = s.inname id ∨ name = s.outname id)

instance (s : ShmSegments) (name : Bytes) : Decidable (s.Own name) :=
  inferInstanceAs (Decidable (∃ id, id < shmMaxConcurrentConn ∧ (name = s.inname id ∨ name = s.outname id)))

/-- An open connection uses the name. -/
def Used (s : ShmSegments) (name : Bytes) : Prop := ∃ (i : Nat) (h : ShmEnds), s.handles[i]? = some h ∧ h.Uses name

/-! ### Runs -/

/-- A call, or what others do to the names: the other side of a connection closes a buffer, a buffer of another
name is created. -/
inductive Op
  | connect (address : Bytes) (f : ConnectFaults)
  | notifyClose (i : Nat) (closeWr closeRd : Bool)
  | unlink (name : Bytes)
  | create (name : Bytes)

/-- One operation. -/
def step (o : Op) (s : ShmSegments) : Except Stop (Option (Except ConnectFailure ShmEnds) × ShmSegments) :=
  match o with
  | .connect address f => .ok (some (s.connect address f).1, (s.connect address f).2)
  | .notifyClose i closeWr closeRd => .ok (none, s.notifyClose i closeWr closeRd)
  | .unlink name => .ok (none, { s with names := s.names.unlink name })
  | .create name => .ok (none, if s.Own name then s else { s with toShmSpace := (s.createBuffer {} name none).2.2 })

/-- A call that returns `nullptr` leaves the names as they were, and finds only names taken that an open
connection uses. -/
def LeavesNothing (s : ShmSegments) : Op → Prop
  | .connect address f => ∀ e s', s.connect address f = (.error e, s') →
      s'.names.object = s.names.object ∧ (e = .input .EEXIST → s.Used (s.inname s.nextId)) ∧
        (e = .output .EEXIST → s.Used (s.outname s.nextId))
  | _ => True

/-- Nothing fails once the segment of the input buffer has been created. -/
def NothingAfterInput (s : ShmSegments) : Op → Prop
  | .connect address f => s.CreatesInput s.shmname s.nextId address f → s.CreatesOutput s.shmname s.nextId f
  | _ => True

/-- A new connector, when no segment has a name that it will make. -/
def Init (s : ShmSegments) : Prop := s.shmconnid = 0 ∧ s.handles = [] ∧ ∀ name, s.Named name → ¬s.Own name

/-- Open connections use all the names that the connector has made. -/
def Inv (s : ShmSegments) : Prop := ∀ name, s.Named name → s.Own name → s.Used name

theorem Init.inv {s : ShmSegments} (h : s.Init) : s.Inv := fun name hname hown => absurd hown (h.2.2 name hname)

theorem nextId_lt (s : ShmSegments) : s.nextId < shmMaxConcurrentConn := Nat.mod_lt _ (by decide)

theorem own_inname (s : ShmSegments) : s.Own (s.inname s.nextId) := ⟨s.nextId, s.nextId_lt, Or.inl rfl⟩

/-! ### The calls -/

/-- A call of `connect` that does not come as far as a segment for its input buffer, one that fails after it,
one that succeeds. -/
theorem connect_cases (s : ShmSegments) (address : Bytes) (f : ConnectFaults) :
    (¬s.CreatesInput s.shmname s.nextId address f ∧ ∃ e s', s.connect address f = (.error e, s') ∧
      s'.names.object = s.names.object ∧ s'.handles = s.handles ∧ s'.shmname = s.shmname ∧
      (e = .input .EEXIST → s.Named (s.inname s.nextId)) ∧ e ≠ .output .EEXIST) ∨
    (s.CreatesInput s.shmname s.nextId address f ∧ ¬s.CreatesOutput s.shmname s.nextId f ∧
      ∃ e s', s.connect address f = (.error e, s') ∧ s'.Named (s.inname s.nextId)) ∨
    (s.CreatesInput s.shmname s.nextId address f ∧ s.CreatesOutput s.shmname s.nextId f ∧
      ∃ h s', s.connect address f = (.ok h, s') ∧ h.Uses (s.inname s.nextId) ∧ h.Uses (s.outname s.nextId) ∧
        (∀ name, s'.Named name → s.Named name ∨ name = s.inname s.nextId ∨ name = s.outname s.nextId) ∧
        s'.handles = s.handles ++ [h] ∧ s'.shmname = s.shmname) := by
  have hne : s.inname s.nextId ≠ s.outname s.nextId := (ShmSpace.shmOutname_ne_shmInname _ _).symm
  unfold connect
  rcases s.connectBuffers_cases s.shmname s.shmconnid address f with ⟨hno, e, id, hcall, he, he'⟩ |
    ⟨hcreates, ⟨hno, e, sp, hcall, hsp⟩ | ⟨hout, t, -, hcall⟩⟩
  · rw [hcall]
    exact Or.inl ⟨hno, _, _, rfl, rfl, rfl, rfl, he, he'⟩
  · rw [hcall]
    refine Or.inr (Or.inl ⟨hcreates, hno, _, _, rfl, ?_⟩)
    rcases hsp with rfl | ⟨-, rfl⟩
    · exact ShmSpace.named_created_self
    · exact (ShmSpace.named_created_of_ne hne).2 ShmSpace.named_created_self
  · rw [hcall]
    refine Or.inr (Or.inr ⟨hcreates, hout, _, _, rfl, Or.inl ⟨rfl, rfl⟩, Or.inr ⟨rfl, rfl⟩,
      fun name hname => ?_, rfl, rfl⟩)
    by_cases hin : name = s.inname s.nextId
    · exact Or.inr (Or.inl hin)
    · by_cases hout : name = s.outname s.nextId
      · exact Or.inr (Or.inr hout)
      · exact Or.inl ((ShmSpace.named_created_of_ne hin).1 ((ShmSpace.named_created_of_ne hout).1 hname))

/-- The connector makes the same names as long as it has the same prefix. -/
theorem own_congr {s s' : ShmSegments} (h : s'.shmname = s.shmname) {name : Bytes} (hown : s'.Own name) :
    s.Own name := by
  obtain ⟨id, hid, hname⟩ := hown
  unfold inname outname at hname
  rw [h] at hname
  exact ⟨id, hid, hname⟩

/-- A buffer that is closed, if it is, loses its name. -/
private theorem closes (sp : ShmSpace) (c : Bool) (b : MappedBuffer) : ∃ b' sp',
    (if c then sp.closeBuffer b else (b, sp)) = (b', sp') ∧ ∀ name, sp'.Named name → sp.Named name ∧
      (b.shmp = true ∧ b.segmentname = name → b'.shmp = true ∧ b'.segmentname = name) := by
  cases c with
  | false => exact ⟨_, _, rfl, fun _ hn => ⟨hn, id⟩⟩
  | true =>
    refine ⟨_, _, rfl, fun name hn => ?_⟩
    obtain ⟨hold, hgone⟩ := sp.closeBuffer_cases b name hn
    exact ⟨hold, fun huse => absurd huse hgone⟩

/-- A buffer that `notify_close` closes loses its name. -/
theorem Inv.notifyClose {s : ShmSegments} (hI : s.Inv) (i : Nat) (closeWr closeRd : Bool) :
    (s.notifyClose i closeWr closeRd).Inv := by
  unfold ShmSegments.notifyClose
  cases hi : s.handles[i]? with
  | none => exact hI
  | some h =>
    unfold ShmSpace.closeBuffers
    obtain ⟨out, sp1, hout, hkeep1⟩ := closes s.toShmSpace closeWr h.out
    obtain ⟨inBuf, sp2, hin, hkeep2⟩ := closes sp1 closeRd h.inBuf
    dsimp only
    rw [hout]
    dsimp only
    rw [hin]
    intro name hname hown
    obtain ⟨hname1, hin'⟩ := hkeep2 name hname
    obtain ⟨hname0, hout'⟩ := hkeep1 name hname1
    obtain ⟨j, h', hj, huse⟩ := hI name hname0 (own_congr rfl hown)
    by_cases hij : i = j
    · subst hij
      cases hi.symm.trans hj
      exact ⟨i, ⟨inBuf, out⟩, List.getElem?_set_self (List.getElem?_eq_some_iff.1 hi).1, huse.imp hin' hout'⟩
    · exact ⟨j, h', (List.getElem?_set_ne hij).trans hj, huse⟩

/-- A segment that somebody else creates does not have a name that the connector makes. -/
theorem Inv.create {s : ShmSegments} (hI : s.Inv) {name : Bytes} (hname : ¬s.Own name) :
    ({ s with toShmSpace := (s.createBuffer {} name none).2.2 } : ShmSegments).Inv := by
  rcases s.createBuffer_cases {} name none with ⟨-, e, h, -⟩ | ⟨-, ⟨hno, -⟩ | ⟨-, h⟩⟩
  · rw [h]
    exact hI
  · exact absurd rfl hno
  · rw [h]
    intro name' hnamed hown
    have hne : name' ≠ name := by
      rintro rfl
      exact hname hown
    exact hI name' ((ShmSpace.named_created_of_ne hne).1 hnamed) hown

/-- One operation. -/
theorem leavesNothing_iff {s : ShmSegments} (hI : s.Inv) (o : Op) :
    (s.LeavesNothing o ↔ s.NothingAfterInput o) ∧
      (s.NothingAfterInput o → ∀ a s', step o s = .ok (a, s') → s'.Inv) := by
  cases o with
  | connect address f =>
    rcases s.connect_cases address f with ⟨hno, e, s1, hcall, hnames, hhandles, hname, hin, hout⟩ |
      ⟨hcreates, hfault, e, s1, hcall, hleft⟩ | ⟨hcreates, hok, h, s1, hcall, huse, huse', hnames, hhandles, hname⟩
    · refine ⟨iff_of_true ?_ fun h => absurd h hno, fun _ a s' hstep => ?_⟩
      · intro e' s' hcall'
        cases hcall.symm.trans hcall'
        exact ⟨hnames, fun he => hI _ (hin he) s.own_inname, fun he => absurd he hout⟩
      · cases hstep
        rw [hcall]
        intro name hnamed hown
        unfold ShmSpace.Named at hnamed
        rw [hnames] at hnamed
        obtain ⟨i, h, hi, huse⟩ := hI name hnamed (own_congr hname hown)
        exact ⟨i, h, (congrArg (·[i]?) hhandles).trans hi, huse⟩
    · refine ⟨iff_of_false ?_ fun h => hfault (h hcreates), fun h => absurd (h hcreates) hfault⟩
      intro h
      exact hcreates.2.2.2.2 fun hnone => hleft ((congrFun (h e s1 hcall).1 _).trans hnone)
    · refine ⟨iff_of_true ?_ fun _ => hok, fun _ a s' hstep => ?_⟩
      · intro e s' hcall'
        cases hcall.symm.trans hcall'
      · cases hstep
        rw [hcall]
        have hlast : s1.handles[s.handles.length]? = some h := by
          rw [hhandles, List.getElem?_concat_length]
        intro name hnamed hown
        rcases hnames name hnamed with hnamed | rfl | rfl
        · obtain ⟨i, h', hi, huse⟩ := hI name hnamed (own_congr hname hown)
          refine ⟨i, h', ?_, huse⟩
          rw [hhandles, List.getElem?_append_left (List.getElem?_eq_some_iff.1 hi).1]
          exact hi
        · exact ⟨_, h, hlast, huse⟩
        · exact ⟨_, h, hlast, huse'⟩
  | notifyClose i closeWr closeRd =>
    refine ⟨Iff.rfl, fun _ a s' hstep => ?_⟩
    cases hstep
    exact hI.notifyClose i closeWr closeRd
  | unlink name =>
    refine ⟨Iff.rfl, fun _ a s' hstep => ?_⟩
    cases hstep
    intro name' hnamed hown
    have hne : name' ≠ name := by
      rintro rfl
      exact hnamed (Names.unlink_self _ _)
    exact hI name' (fun hnone => hnamed ((Names.unlink_of_ne _ hne).trans hnone)) hown
  | create name =>
    refine ⟨Iff.rfl, fun _ a s' hstep => ?_⟩
    cases hstep
    by_cases hname : s.Own name
    · rw [if_pos hname]
      exact hI
    · rw [if_neg hname]
      exact hI.create hname

/-! ### Calls that fail -/

variable {s : ShmSegments} {address : Bytes}

theorem connect_output_fails (haddr : s.Named address) (hname : ¬s.Named (s.inname s.nextId))
    (hlen : (s.inname s.nextId).length ≤ shmNameMax) :
    s.connect address { output := some .shmOpen } = (.error (.output .kernel),
      { s with toShmSpace := s.created (s.inname s.nextId), shmconnid := s.shmconnid + 1 }) := by
  obtain ⟨id, hopen⟩ := ShmSpace.openBuffer_of_named haddr
  have hin := ShmSpace.createBuffer_ok {} hlen hname
  unfold connect ShmSpace.connectBuffers
  rw [hopen]
  dsimp only
  rw [show s.createBuffer {} (shmInname s.shmname (shmNextId s.shmconnid)) none = _ from hin]
  dsimp only
  rw [ShmSpace.createBuffer_shmOpen]

theorem connect_input_fails (haddr : s.Named address) :
    s.connect address { input := some .shmOpen } =
      (.error (.input .kernel), { s with shmconnid := s.shmconnid + 1 }) := by
  obtain ⟨id, hopen⟩ := ShmSpace.openBuffer_of_named haddr
  unfold connect ShmSpace.connectBuffers
  rw [hopen]
  dsimp only
  rw [ShmSpace.createBuffer_shmOpen]

theorem connect_taken (haddr : s.Named address) (hname : s.Named (s.inname s.nextId))
    (hlen : (s.inname s.nextId).length ≤ shmNameMax) :
    s.connect address {} = (.error (.input .EEXIST), { s with shmconnid := s.shmconnid + 1 }) := by
  obtain ⟨id, hopen⟩ := ShmSpace.openBuffer_of_named haddr
  have hin := ShmSpace.createBuffer_taken {} hlen hname
  unfold connect ShmSpace.connectBuffers
  rw [hopen]
  dsimp only
  rw [show s.createBuffer {} (shmInname s.shmname (shmNextId s.shmconnid)) none = _ from hin]

/-- Calls that fail before a segment exists take a number each. -/
theorem run_input_fails (haddr : s.Named address) (n : Nat) :
    run step (List.replicate n (.connect address { input := some .shmOpen })) s =
      .ok (List.replicate n (some (.error (.input .kernel))),
        { s with shmconnid := s.shmconnid + BitVec.ofNat 32 n }) := by
  induction n generalizing s with
  | zero => simp [run]
  | succ n ih =>
    have hnext : s.shmconnid + 1 + BitVec.ofNat 32 n = s.shmconnid + BitVec.ofNat 32 (n + 1) := by
      rw [BitVec.add_assoc, Nat.add_comm n 1, BitVec.ofNat_add]
      rfl
    have hstep : step (.connect address { input := some .shmOpen }) s =
        .ok (some (.error (.input .kernel)), { s with shmconnid := s.shmconnid + 1 }) := by
      rw [step, connect_input_fails haddr]
    have hrest := ih (s := { s with shmconnid := s.shmconnid + 1 }) haddr
    rw [hnext] at hrest
    exact run_cons hstep hrest

/-- The names that the connector makes are not short. -/
theorem length_of_own {name : Bytes} (h : s.Own name) : 5 ≤ name.length := by
  obtain ⟨id, -, rfl | rfl⟩ := h
  · simp [inname, shmInname, literal]
    omega
  · simp [outname, shmOutname, literal]
    omega

end ShmSegments

open ShmSegments

/-- Whatever the kernel fails, a call of `connect` that returns `nullptr` leaves the names as they were, and a
name that comes round is taken only when an open connection uses it, in all of a run exactly if no call fails
once the segment of its input buffer has been created. -/
theorem segments_left_iff {s : ShmSegments} (h : s.Init) (os : List ShmSegments.Op) :
    Always step LeavesNothing os s ↔ Always step NothingAfterInput os s := by
  constructor
  · refine Always.imp Inv (fun hI hleaves => ?_) h.inv
    obtain ⟨hiff, hkeep⟩ := leavesNothing_iff hI _
    exact ⟨hiff.1 hleaves, hkeep (hiff.1 hleaves)⟩
  · refine Always.imp Inv (fun hI hnothing => ?_) h.inv
    obtain ⟨hiff, hkeep⟩ := leavesNothing_iff hI _
    exact ⟨hiff.2 hnothing, hkeep hnothing⟩

/-- The name at which a server listens. -/
private def atC : Bytes := literal ['/', 'c']

/-- A new connector, and a server that listens. -/
def newConnector : ShmSegments := { shmname := literal ['a', 'p', 'p'], names := Names.create {} atC }

theorem init_newConnector : newConnector.Init := by
  refine ⟨rfl, rfl, fun name hname hown => ?_⟩
  have hlen := length_of_own hown
  by_cases hc : name = atC
  · rw [hc] at hlen
    exact absurd hlen (by decide)
  · exact hname (Names.create_of_ne _ hc)

/-- Calls that fail before a segment exists, and two that succeed, with a `notify_close` between them. -/
private def someCalls : List ShmSegments.Op :=
  [.connect (literal ['/', 'd']) {}, .connect atC { input := some .shmOpen }, .connect atC {},
    .notifyClose 0 true true, .connect atC {}]

/-- One call fails at the address and one at its input buffer; the other two get their segments. -/
theorem segments_left_run :
    Always step LeavesNothing someCalls newConnector ∧ ∃ as s, run step someCalls newConnector = .ok (as, s) ∧
      as = [some (.error (.opening .ENOENT)), some (.error (.input .kernel)),
        some (.ok ⟨⟨1, true, s.inname 1, true⟩, ⟨2, true, s.outname 1, true⟩⟩), none,
        some (.ok ⟨⟨3, true, s.inname 2, true⟩, ⟨4, true, s.outname 2, true⟩⟩)] := by
  refine ⟨(segments_left_iff init_newConnector _).2 ?_, _, _, rfl, by decide⟩
  have hfree : ∀ n, n ∈ [1, 2] → (newConnector.outname n).length ≤ shmNameMax := by decide
  refine ⟨fun h => absurd h.1 (by decide), ?_⟩
  rintro _ _ ⟨⟩
  refine ⟨fun h => absurd rfl h.2.2.1, ?_⟩
  rintro _ _ ⟨⟩
  refine ⟨fun _ => ⟨rfl, rfl, nofun, hfree 1 (by decide), by decide⟩, ?_⟩
  rintro _ _ ⟨⟩
  refine ⟨trivial, ?_⟩
  rintro _ _ ⟨⟩
  refine ⟨fun _ => ⟨rfl, rfl, nofun, hfree 2 (by decide), by decide⟩, ?_⟩
  rintro _ _ ⟨⟩
  exact trivial

/-- The output buffer cannot be created, and the segment of the input buffer stays; a thousand calls later its
name is taken, with no connection open. -/
theorem segments_leak :
    newConnector.Init ∧
    (∃ e s, newConnector.connect atC { output := some .shmOpen } = (.error e, s) ∧
      s.names.object ≠ newConnector.names.object) ∧
    (∃ as s s', run step (.connect atC { output := some .shmOpen } ::
        List.replicate 1023 (.connect atC { input := some .shmOpen })) newConnector = .ok (as, s) ∧
      s.handles = [] ∧ s.connect atC {} = (.error (.input .EEXIST), s')) ∧
    ¬Always step LeavesNothing [.connect atC { output := some .shmOpen }] newConnector := by
  have haddr : newConnector.Named atC := by decide
  have hname : ¬newConnector.Named (newConnector.inname newConnector.nextId) := by decide
  have hcall := connect_output_fails haddr hname (by decide)
  have hne : (newConnector.created (newConnector.inname newConnector.nextId)).names.object ≠
      newConnector.names.object :=
    fun h => hname ((congrFun h _).symm.trans_ne ShmSpace.named_created_self)
  refine ⟨init_newConnector, ⟨_, _, hcall, hne⟩, ?_, ?_⟩
  · have hfirst : step (.connect atC { output := some .shmOpen }) newConnector = .ok (some (.error (.output .kernel)),
        { newConnector with toShmSpace := newConnector.created (newConnector.inname 0), shmconnid := 1 }) := by
      rw [step, hcall]
      rfl
    have haddr' : ({ newConnector with
        toShmSpace := newConnector.created (newConnector.inname 0)
        shmconnid := 1 } : ShmSegments).Named atC := by decide
    have hrest := run_input_fails haddr' 1023
    exact ⟨_, _, _, run_cons hfirst hrest, rfl, connect_taken (by decide) (by decide) (by decide)⟩
  · rintro ⟨hleaves, -⟩
    exact hne (hleaves _ _ hcall).1

end Mtcl
