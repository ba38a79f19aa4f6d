import Mtcl.Base.Runs
import Mtcl.Collective.Context
import Mtcl.Sendrecv

/-!
# Users without a handle

A `HandleUser` refers to no handle when it was constructed without one, when it has been moved from, and when
`getNext` has timed out, whatever its flags are.  A program is a sequence of operations on such objects, over
arbitrary classes of handles; what the runtime does to the handles in between is arbitrary too.

`empty_user_iff` says which calls on an object without a handle fail with `EBADF` and change nothing, as the
tests for the null pointer in the code mean them to: `probe`, `receive` and `sendrecv` look at the header cache
of the handle first.
-/

namespace Mtcl

open Runs

variable {H W : Type}

/-- The virtual functions of a handle with `sendrecv`, which returns what it leaves in the receive buffer, and
the data member `type`. -/
structure FullHandle (W : Type) extends CommunicationHandle W where
  sendrecv : Bytes → Bytes → Nat → W → Except Stop (Ret × Bytes × W)
  type : HandleType

/-- The virtual functions without the other two. -/
def FullHandle.table (vt : H → FullHandle W) (h : H) : CommunicationHandle W := (vt h).toCommunicationHandle

/-- What a call returns to the program. -/
inductive UserAnswer
  | unit
  | ret (r : Ret)
  | probed (r : Ret) (size : Nat)
  | received (r : Ret) (bs : Bytes)
  | closed (rd wr : Bool)
  | type (t : HandleType)
  deriving DecidableEq, Repr

/-- A call of a member function of `HandleUser`. -/
inductive UserCall
  | probe (size : Nat) (blocking : Bool)
  | receive (size : Nat)
  | send (buff : Bytes)
  | sendrecv (sendbuff recvbuff : Bytes) (recvsize : Nat)
  | close
  | yield
  | isClosed
  | getType

namespace HandleUser

variable (vt : H → FullHandle W) (u : HandleUser H)

/-- `HandleUser::sendrecv`: the header cache is reset before anything is tested. -/
def sendrecvFull (sendbuff recvbuff : Bytes) (recvsize : Nat) (w : W) : Except Stop (Ret × Bytes × W) :=
  match u.realHandle with
  | none => .error .nullDereference
  | some h => do
    let _ ← (vt h).base w
    (vt h).sendrecv sendbuff recvbuff recvsize ((vt h).setProbed (false, 0) w)

/-- On a class of handles that does not override `sendrecv`. -/
theorem sendrecvFull_handle {vt : H → FullHandle W} {u : HandleUser H}
    (h : ∀ id sendbuff recvbuff recvsize w, (vt id).sendrecv sendbuff recvbuff recvsize w =
      ((vt id).toCommunicationHandle.sendrecv w).map fun x => (x.1, recvbuff, x.2))
    (sendbuff recvbuff : Bytes) (recvsize : Nat) (w : W) :
    u.sendrecvFull vt sendbuff recvbuff recvsize w =
      (u.sendrecvHandle (FullHandle.table vt) w).map fun x => (x.1, recvbuff, x.2) := by
  unfold sendrecvFull sendrecvHandle deref
  cases u.realHandle with
  | none => rfl
  | some id =>
    show ((vt id).base w >>= _) = Except.map _ ((vt id).base w >>= _)
    cases (vt id).base w with
    | error e => rfl
    | ok b => exact h id sendbuff recvbuff recvsize _

/-- `HandleUser::getType`. -/
def getType (w : W) : Except Stop HandleType :=
  match u.realHandle with
  | some h => do
    let _ ← (vt h).base w
    return (vt h).type
  | none => .ok .INVALID_TYPE

/-- One call. -/
def call (w : W) : UserCall → Except Stop (UserAnswer × HandleUser H × W)
  | .probe size blocking => do
    let (r, size, u, w) ← u.probe (FullHandle.table vt) size blocking w
    return (.probed r size, u, w)
  | .receive size => do
    let (r, bs, u, w) ← u.receive (FullHandle.table vt) size w
    return (.received r bs, u, w)
  | .send buff => do
    let (r, u, w) ← u.send (FullHandle.table vt) buff w
    return (.ret r, u, w)
  | .sendrecv sendbuff recvbuff recvsize => do
    let (r, bs, w) ← u.sendrecvFull vt sendbuff recvbuff recvsize w
    return (.received r bs, u, w)
  | .close => do
    let w ← u.close (FullHandle.table vt) w
    return (.unit, u, w)
  | .yield => do
    let (u, w) ← u.yield (FullHandle.table vt) w
    return (.unit, u, w)
  | .isClosed => do
    let (rd, wr) ← u.isClosed (FullHandle.table vt) w
    return (.closed rd wr, u, w)
  | .getType => do
    let t ← u.getType vt w
    return (.type t, u, w)

end HandleUser

/-- `realHandle->`, for a pointer to a handle. -/
def derefHandle : Option H → Except Stop H
  | some h => .ok h
  | none => .error .nullDereference

/-- `CollectiveImpl::probeHandle` on a pointer that may be null: `realHandle->probed` is read before the test. -/
def probeHandlePtr (vt : H → CommunicationHandle W) (realHandle : Option H) (size : Nat) (blocking : Bool) (w : W) :
    Except Stop (Ret × Nat × W) := do
  let h ← derefHandle realHandle
  probeHandle vt h size blocking w

/-- `CollectiveImpl::receiveFromHandle`, in the same way. -/
def receiveFromHandlePtr (vt : H → CommunicationHandle W) (realHandle : Option H) (size : Nat) (w : W) :
    Except Stop (Ret × Bytes × W) := do
  let h ← derefHandle realHandle
  receiveFromHandle vt h size w

/-! ### Programs -/

/-- A program: the world of the handles, the ready queue of the manager, and the `HandleUser` objects in the
order in which they were constructed (`none` when one has been destroyed). -/
structure Program (H W : Type) where
  world : W
  handleReady : List (HandleUser H) := []
  vars : List (Option (HandleUser H)) := []

namespace Program

/-- What can happen.  `runtime` is whatever is done to the handles from elsewhere, and the last two are calls within a
collective. -/
inductive Op (H W : Type)
  | runtime (w : W)
  | construct (h : Option H) (r n : Bool)
  | addinQ (b : Bool) (h : H)
  | getNext
  | moveConstruct (y : Nat)
  | moveAssign (x y : Nat)
  | destroy (x : Nat)
  | call (x : Nat) (c : UserCall)
  | probeHandle (h : Option H) (size : Nat) (blocking : Bool)
  | receiveFromHandle (h : Option H) (size : Nat)

/-- The object `x`, while it exists. -/
def object (s : Program H W) (x : Nat) : Except Stop (HandleUser H) :=
  match s.vars[x]? with
  | some (some u) => .ok u
  | _ => .error .undefined

/-- The program with another object `x` and another world. -/
def assign (s : Program H W) (x : Nat) (u : Option (HandleUser H)) (w : W) : Program H W :=
  { s with world := w, vars := s.vars.set x u }

variable (vt : H → FullHandle W)

/-- One operation. -/
def step (o : Op H W) (s : Program H W) : Except Stop (UserAnswer × Program H W) :=
  match o with
  | .runtime w => .ok (.unit, { s with world := w })
  | .construct h r n => do
    let (u, w) ← HandleUser.mk' (FullHandle.table vt) h r n s.world
    return (.unit, { s with world := w, vars := s.vars ++ [some u] })
  | .addinQ b h => do
    let (u, w) ← HandleUser.mk' (FullHandle.table vt) (some h) true b s.world
    return (.unit, { s with world := w, handleReady := s.handleReady ++ [u] })
  | .getNext =>
    match s.handleReady with
    | [] => .ok (.unit, { s with vars := s.vars ++ [some ⟨none, true, true⟩] })
    | u :: us => .ok (.unit, { s with handleReady := us, vars := s.vars ++ [some u] })
  | .moveConstruct y => do
    let u ← s.object y
    return (.unit, { s with vars := s.vars.set y (some ⟨none, false, false⟩) ++ [some u] })
  | .moveAssign x y => do
    let u ← s.object x
    let v ← s.object y
    let (target, source) := u.moveAssign v
    return (.unit, if x = y then s else { s with vars := (s.vars.set y (some source)).set x (some target) })
  | .destroy x => do
    let u ← s.object x
    let w ← u.destroy (FullHandle.table vt) s.world
    return (.unit, s.assign x none w)
  | .call x c => do
    let u ← s.object x
    let (a, u, w) ← u.call vt s.world c
    return (a, s.assign x (some u) w)
  | .probeHandle h size blocking => do
    let (r, size, w) ← probeHandlePtr (FullHandle.table vt) h size blocking s.world
    return (.probed r size, { s with world := w })
  | .receiveFromHandle h size => do
    let (r, bs, w) ← receiveFromHandlePtr (FullHandle.table vt) h size s.world
    return (.received r bs, { s with world := w })

/-- The handle that the operation is about, where there is such, is the null pointer. -/
def OnNull (s : Program H W) : Op H W → Prop
  | .construct h _ _ => h = none
  | .addinQ _ _ => False
  | .destroy x => ∃ u, s.object x = .ok u ∧ u.realHandle = none
  | .call x _ => ∃ u, s.object x = .ok u ∧ u.realHandle = none
  | .probeHandle h _ _ => h = none
  | .receiveFromHandle h _ => h = none
  | _ => True

/-- What the operations that have to fail on the null pointer return then: `-1` with `errno = EBADF`, and
nothing else. -/
def failure : Op H W → Option UserAnswer
  | .call _ (.probe size _) => some (.probed (.error .EBADF) size)
  | .call _ (.receive _) => some (.received (.error .EBADF) [])
  | .call _ (.send _) => some (.ret (.error .EBADF))
  | .call _ (.sendrecv _ recvbuff _) => some (.received (.error .EBADF) recvbuff)
  | .probeHandle _ size _ => some (.probed (.error .EBADF) size)
  | .receiveFromHandle _ _ => some (.received (.error .EBADF) [])
  | _ => none

/-- The operation does not dereference a null `realHandle`, and if it has to fail then it fails and changes nothing. -/
def Refuses (s : Program H W) (o : Op H W) : Prop :=
  s.OnNull o → step vt o s ≠ .error .nullDereference ∧ ∀ a, failure o = some a → step vt o s = .ok (a, s)

/-- The operations that are made on the null pointer: none that looks at the handle first, and `send` only where
there is no flag to be reset. -/
def Harmless (s : Program H W) : Op H W → Prop
  | .call x (.send _) => ∀ u, s.object x = .ok u → u.realHandle = none → u.newConnection = false
  | .call x (.probe _ _) | .call x (.receive _) | .call x (.sendrecv _ _ _) =>
    ∀ u, s.object x = .ok u → u.realHandle ≠ none
  | .probeHandle h _ _ => h ≠ none
  | .receiveFromHandle h _ => h ≠ none
  | _ => True

end Program

/-! ### The calls on the null pointer -/

namespace HandleUser

variable {vt : H → FullHandle W} {u : HandleUser H} (hnull : u.realHandle = none) (w : W)

include hnull

private theorem probe_null (size : Nat) (blocking : Bool) :
    u.call vt w (.probe size blocking) = .error .nullDereference := by
  show (u.probe (FullHandle.table vt) size blocking w >>= _) = _
  unfold probe deref
  rw [hnull]
  rfl

private theorem receive_null (size : Nat) : u.call vt w (.receive size) = .error .nullDereference := by
  show (u.receive (FullHandle.table vt) size w >>= _) = _
  unfold receive deref
  rw [hnull]
  rfl

private theorem sendrecv_null (sendbuff recvbuff : Bytes) (recvsize : Nat) :
    u.call vt w (.sendrecv sendbuff recvbuff recvsize) = .error .nullDereference := by
  show (u.sendrecvFull vt sendbuff recvbuff recvsize w >>= _) = _
  unfold sendrecvFull
  rw [hnull]
  rfl

private theorem send_null (buff : Bytes) :
    u.call vt w (.send buff) = .ok (.ret (.error .EBADF), { u with newConnection := false }, w) := by
  show (u.send (FullHandle.table vt) buff w >>= _) = _
  unfold send
  dsimp only
  rw [hnull]
  rfl

private theorem close_null : u.call vt w .close = .ok (.unit, u, w) := by
  show (u.close (FullHandle.table vt) w >>= _) = _
  unfold close
  rw [hnull]
  rfl

private theorem yield_null :
    u.call vt w .yield = .ok (.unit, { u with isReadable := false, newConnection := false }, w) := by
  show (u.yield (FullHandle.table vt) w >>= _) = _
  unfold yield
  dsimp only
  rw [hnull]
  rfl

private theorem isClosed_null : u.call vt w .isClosed = .ok (.closed true true, u, w) := by
  show (u.isClosed (FullHandle.table vt) w >>= _) = _
  unfold isClosed
  rw [hnull]
  rfl

private theorem getType_null : u.call vt w .getType = .ok (.type .INVALID_TYPE, u, w) := by
  show (u.getType vt w >>= _) = _
  unfold getType
  rw [hnull]
  rfl

private theorem destroy_null : u.destroy (FullHandle.table vt) w = .ok w := by
  unfold destroy yield
  dsimp only
  rw [hnull]
  cases u.isReadable <;> rfl

end HandleUser

namespace Program

variable {vt : H → FullHandle W} {s : Program H W} {x : Nat} {u : HandleUser H}

theorem vars_of_object (hx : s.object x = .ok u) : s.vars[x]? = some (some u) := by
  unfold object at hx
  split at hx
  · rename_i hv
    rw [hv, Except.ok.inj hx]
  · cases hx

theorem assign_self (hx : s.object x = .ok u) : s.assign x (some u) s.world = s := by
  have hv := vars_of_object hx
  have hset : s.vars.set x (some u) = s.vars := by
    obtain ⟨hlt, hget⟩ := List.getElem?_eq_some_iff.1 hv
    rw [← hget, List.set_getElem_self]
  unfold assign
  rw [hset]

theorem ne_null_of_object {e : Stop} (hx : s.object x = .error e) : e ≠ .nullDereference := by
  unfold object at hx
  split at hx
  · cases hx
  · cases hx
    decide

theorem step_call (hx : s.object x = .ok u) (c : UserCall) :
    step vt (.call x c) s = (u.call vt s.world c).map fun y => (y.1, s.assign x (some y.2.1) y.2.2) := by
  show (s.object x >>= fun u => u.call vt s.world c >>= _) = _
  rw [hx, bind_ok]
  cases u.call vt s.world c <;> rfl

/-- A call that dereferences the null pointer is refused only where there is no such pointer. -/
private theorem refuses_call_iff {c : UserCall} (h : ∀ u : HandleUser H, u.realHandle = none →
    u.call vt s.world c = .error .nullDereference) :
    Refuses vt s (.call x c) ↔ ∀ u, s.object x = .ok u → u.realHandle ≠ none := by
  constructor
  · intro hr u hx hnull
    apply (hr ⟨u, hx, hnull⟩).1
    rw [step_call hx, h u hnull]
    rfl
  · rintro hne ⟨u, hx, hnull⟩
    exact absurd hnull (hne u hx)

private theorem refuses_send_iff {buff : Bytes} :
    Refuses vt s (.call x (.send buff)) ↔ ∀ u, s.object x = .ok u → u.realHandle = none → u.newConnection = false := by
  constructor
  · intro hr u hx hnull
    have hstep := (hr ⟨u, hx, hnull⟩).2 _ rfl
    rw [step_call hx, HandleUser.send_null hnull] at hstep
    have hs : s.assign x (some { u with newConnection := false }) s.world = s := (Prod.mk.inj (Except.ok.inj hstep)).2
    have hv := vars_of_object hx
    have hlt : x < s.vars.length := (List.getElem?_eq_some_iff.1 hv).1
    have hset : (s.assign x (some { u with newConnection := false }) s.world).vars[x]? =
        some (some { u with newConnection := false }) := List.getElem?_set_self hlt
    rw [hs, hv] at hset
    rw [Option.some.inj (Option.some.inj hset)]
  · rintro hflag ⟨u, hx, hnull⟩
    have hstep : step vt (.call x (.send buff)) s = .ok (.ret (.error .EBADF), s) := by
      rw [step_call hx, HandleUser.send_null hnull]
      have hu : ({ u with newConnection := false } : HandleUser H) = u := by
        rw [← hflag u hx hnull]
      show Except.ok (_, s.assign x (some { u with newConnection := false }) s.world) = _
      rw [hu, assign_self hx]
    refine ⟨?_, ?_⟩
    · rw [hstep]
      nofun
    · intro a ha
      rw [hstep, Option.some.inj ha]

private theorem refuses_of_ok {c : UserCall} (hc : failure (W := W) (.call (H := H) x c) = none)
    (h : ∀ u : HandleUser H, u.realHandle = none → ∃ y, u.call vt s.world c = .ok y) : Refuses vt s (.call x c) := by
  rintro ⟨u, hx, hnull⟩
  obtain ⟨y, hy⟩ := h u hnull
  refine ⟨?_, ?_⟩
  · rw [step_call hx, hy]
    nofun
  · intro a ha
    rw [hc] at ha
    cases ha

/-- What each operation does on the null pointer. -/
theorem refuses_iff (s : Program H W) (o : Op H W) : Refuses vt s o ↔ s.Harmless o := by
  cases o with
  | runtime w => exact iff_of_true (fun _ => ⟨nofun, nofun⟩) trivial
  | construct h r n =>
    refine iff_of_true ?_ trivial
    rintro rfl
    exact ⟨nofun, nofun⟩
  | addinQ b h => exact iff_of_true (fun h => h.elim) trivial
  | getNext =>
    refine iff_of_true (fun _ => ⟨?_, nofun⟩) trivial
    unfold step
    dsimp only
    split <;> nofun
  | moveConstruct y =>
    refine iff_of_true (fun _ => ⟨?_, nofun⟩) trivial
    show (s.object y >>= _) ≠ _
    cases hy : s.object y with
    | error e =>
      rw [bind_error]
      intro h
      exact ne_null_of_object hy (Except.error.inj h)
    | ok u => nofun
  | moveAssign x y =>
    refine iff_of_true (fun _ => ⟨?_, nofun⟩) trivial
    show (s.object x >>= fun u => s.object y >>= _) ≠ _
    cases hx : s.object x with
    | error e =>
      rw [bind_error]
      intro h
      exact ne_null_of_object hx (Except.error.inj h)
    | ok u =>
      rw [bind_ok]
      cases hy : s.object y with
      | error e =>
      rw [bind_error]
      intro h
      exact ne_null_of_object hy (Except.error.inj h)
      | ok v => nofun
  | destroy x =>
    refine iff_of_true ?_ trivial
    rintro ⟨u, hx, hnull⟩
    refine ⟨?_, nofun⟩
    show (s.object x >>= _) ≠ _
    rw [hx, bind_ok, HandleUser.destroy_null hnull]
    nofun
  | call x c =>
    cases c with
    | probe size blocking => exact refuses_call_iff fun u hnull => HandleUser.probe_null hnull _ _ _
    | receive size => exact refuses_call_iff fun u hnull => HandleUser.receive_null hnull _ _
    | send buff => exact refuses_send_iff
    | sendrecv sendbuff recvbuff recvsize =>
      exact refuses_call_iff fun u hnull => HandleUser.sendrecv_null hnull _ _ _ _
    | close => exact iff_of_true (refuses_of_ok rfl fun u hnull => ⟨_, HandleUser.close_null hnull _⟩) trivial
    | yield => exact iff_of_true (refuses_of_ok rfl fun u hnull => ⟨_, HandleUser.yield_null hnull _⟩) trivial
    | isClosed => exact iff_of_true (refuses_of_ok rfl fun u hnull => ⟨_, HandleUser.isClosed_null hnull _⟩) trivial
    | getType => exact iff_of_true (refuses_of_ok rfl fun u hnull => ⟨_, HandleUser.getType_null hnull _⟩) trivial
  | probeHandle h size blocking =>
    constructor
    · rintro hr rfl
      exact (hr rfl).1 rfl
    · intro hne hnull
      exact absurd hnull hne
  | receiveFromHandle h size =>
    constructor
    · rintro hr rfl
      exact (hr rfl).1 rfl
    · intro hne hnull
      exact absurd hnull hne

end Program

open Program

/-- In every run of every program all operations refuse the null pointer as they should exactly when no `probe`,
`receive` or `sendrecv` is called on an object without a handle, no `send` on such an object whose
`newConnection` is set, and none of the two functions of the collectives on a null handle. -/
theorem empty_user_iff (vt : H → FullHandle W) (s : Program H W) (os : List (Program.Op H W)) :
    Always (step vt) (Refuses vt) os s ↔ Always (step vt) Harmless os s :=
  Always.congr refuses_iff

/-- A handle from which nothing comes. -/
private def silent : FullHandle CommBase where
  base b := .ok b
  setProbed pr b := { b with probed := pr }
  probe size _ b := .ok (.error .EWOULDBLOCK, size, b)
  receive _ _ := .error .blocked
  send bs b := .ok (.ok bs.length, b)
  close wr rd b := .ok { b with closedWr := b.closedWr || wr, closedRd := b.closedRd || rd }
  yield b := .ok b
  incrementReferenceCounter b := .ok { b with counter := b.counter + 1 }
  decrementReferenceCounter b := .ok { b with counter := b.counter - 1 }
  sendrecv _ recvbuff _ b := .ok (.error .EINVAL, recvbuff, b)
  type := .P2P

/-- On a default constructed object, on one that has been moved from, and on what a `getNext` returns that times
out; and in a collective. -/
theorem empty_user_dereferenced :
    let refused (os : List (Program.Op Unit CommBase)) :=
      Always (step fun _ => silent) (Refuses fun _ => silent) os { world := {} }
    ¬refused [.construct none false false, .call 0 (.probe 0 true)] ∧
    ¬refused [.construct (some ()) true true, .moveConstruct 0, .call 0 (.receive 1)] ∧
    ¬refused [.getNext, .call 0 (.sendrecv [1] [0] 1)] ∧
    ¬refused [.getNext, .call 0 (.send [1])] ∧
    ¬refused [.probeHandle none 0 true] ∧
    ¬refused [.receiveFromHandle none 1] := by
  refine ⟨?_, ?_, ?_, ?_, ?_, ?_⟩
  · rintro ⟨-, h⟩
    exact ((h _ _ rfl).1 ⟨_, rfl, rfl⟩).1 rfl
  · rintro ⟨-, h⟩
    obtain ⟨-, h⟩ := h _ _ rfl
    exact ((h _ _ rfl).1 ⟨_, rfl, rfl⟩).1 rfl
  · rintro ⟨-, h⟩
    exact ((h _ _ rfl).1 ⟨_, rfl, rfl⟩).1 rfl
  · rintro ⟨-, h⟩
    -- the flag has been reset
    have hsend := ((h _ _ rfl).1 ⟨_, rfl, rfl⟩).2 _ rfl
    have hvars := congrArg (fun y => y.2.vars) (Except.ok.inj hsend)
    revert hvars
    exact fun h => Bool.false_ne_true (congrArg HandleUser.newConnection (Option.some.inj (List.cons.inj h).1))
  · rintro ⟨h, -⟩
    exact (h rfl).1 rfl
  · rintro ⟨h, -⟩
    exact (h rfl).1 rfl

end Mtcl
