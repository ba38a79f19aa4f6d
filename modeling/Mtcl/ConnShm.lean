import Mtcl.Base.Runs
import Mtcl.Handshake
import Mtcl.Shm.Buffers
import Mtcl.Shm.Slot

/-!
# The connector over shared memory

Processes that run `ConnSHM` share segments under names.  `connect` creates two of them, one for what the new
handle reads and one for what it writes, and puts their names into the listening buffer of the other process;
`update` of that process takes them out and opens the two segments the other way round.  Closing a buffer takes
its name away, whoever has it open besides, and the names come round again.

`Shm` is the state of all the processes and of the segments.  A handle has beside its members the process that
owns it and the listening buffer at which its connection was asked for.  Each step is one critical section, or
the system calls of one function between two of them.
-/

namespace Mtcl

/-- A handle: its process, whether `connect` has made it, the segment of the listening buffer, and its two buffers. -/
structure ShmEnd where
  owner : Nat := 0
  connects : Bool := false
  asked : Nat := 0
  inBuf : MappedBuffer := {}
  out : MappedBuffer := {}
  deriving DecidableEq, Repr

/-- The processes and the segments.  `accepting` is the connection message that `update` of a process has got
and not yet worked on, with the segment it was in; `waits` says of a handle that `connect` has still to put its
message, and `sent` and `got` are what has been put and taken through it. -/
structure Shm extends ShmSpace where
  shmname : Nat → Bytes
  shmconnid : Nat → BitVec 32 := fun _ => 0
  connbuff : Nat → MappedBuffer := fun _ => {}
  accepting : Nat → Option (Nat × Bytes) := fun _ => none
  ends : Nat → ShmEnd := fun _ => {}
  waits : Nat → Bool := fun _ => false
  sent : Nat → List Fill := fun _ => []
  got : Nat → List ShmSegment := fun _ => []
  allocated : Nat := 0

namespace Shm

/-! ### `ConnSHM` -/

/-- `ConnSHM::listen`. -/
def listen (w : Shm) (p : Nat) (address : Bytes) (fault : Option CreateFault) : Except ShmErrno Unit × Shm :=
  let (r, b, sp) := w.createBuffer (w.connbuff p) address fault
  (r, { w with toShmSpace := sp, connbuff := Function.update w.connbuff p b })

/-- The last line of `ConnSHM::end`. -/
def endListening (w : Shm) (p : Nat) : Shm :=
  let (b, sp) := w.closeBuffer (w.connbuff p)
  { w with toShmSpace := sp, connbuff := Function.update w.connbuff p b }

/-- The next name of an input buffer. -/
def inname (w : Shm) (p : Nat) : Bytes := shmInname (w.shmname p) (shmNextId (w.shmconnid p))

/-- The next name of an output buffer. -/
def outname (w : Shm) (p : Nat) : Bytes := shmOutname (w.shmname p) (shmNextId (w.shmconnid p))

/-- A new handle. -/
def newEnd (w : Shm) (e : ShmEnd) (waits : Bool) : Shm :=
  { w with
    ends := Function.update w.ends w.allocated e
    waits := Function.update w.waits w.allocated waits
    sent := Function.update w.sent w.allocated []
    got := Function.update w.got w.allocated []
    allocated := w.allocated + 1 }

/-- `ConnSHM::connect` up to the message. -/
def connect (w : Shm) (p : Nat) (address : Bytes) (f : ConnectFaults) : Except ConnectFailure Nat × Shm :=
  let (r, id, sp) := w.connectBuffers (w.shmname p) (w.shmconnid p) address f
  let w := { w with toShmSpace := sp, shmconnid := Function.update w.shmconnid p id }
  match r with
  | .error e => (.error e, w)
  | .ok (connshm, inBuf, out) =>
    (.ok w.allocated, w.newEnd { owner := p, connects := true, asked := connshm.seg, inBuf := inBuf, out := out } true)

/-- The message of `connect`. -/
def request (e : ShmEnd) : Bytes := connectMessage e.inBuf e.out

/-- The critical section of `put` of the message, with which `connect` ends. -/
def ask (w : Shm) (i : Nat) : Except Stop Shm :=
  let e := w.ends i
  if (w.segs e.asked).guard then .error .blocked
  else .ok { w with
    segs := Function.update w.segs e.asked ((w.segs e.asked).fill (.next (request e).length (request e)))
    waits := Function.update w.waits i false }

/-- `ConnSHM::update` up to the end of the critical section of `get`. -/
def look (w : Shm) (p : Nat) : Except Stop Shm :=
  let b := w.connbuff p
  let buffer : ShmBuffer := { shmp := b.shmp, seg := w.segs b.seg }
  if !b.opened then .ok w
  else
    match buffer.trygetsize.1 with
    | .error _ => .ok w
    | .ok _ => do
      let (r, msg, buffer) ← buffer.get shmSmallMsgSize
      let w := { w with segs := Function.update w.segs b.seg buffer.seg }
      match r with
      | .error _ => return w
      | .ok _ => return { w with accepting := Function.update w.accepting p (some (b.seg, msg)) }

/-- `ConnSHM::update` from the search for the colon on, for the message `msg`, which was in the segment `s`;
`failsIn` and `failsOut` say that the kernel fails a call of `open`. -/
def accept (w : Shm) (p s : Nat) (msg : Bytes) (failsIn failsOut : Bool) : Shm :=
  let w := { w with accepting := Function.update w.accepting p none }
  let msg := cstr msg
  if UInt8.ofNat ':'.toNat ∉ msg then w
  else
    match w.openBuffer {} (afterColon msg) failsIn with
    | .error _ => w
    | .ok inBuf =>
      match w.openBuffer {} (beforeColon msg) failsOut with
      | .error _ => w
      | .ok out => w.newEnd { owner := p, asked := s, inBuf := inBuf, out := out } false

/-- A critical section of `put` on the output buffer of a handle. -/
def put (w : Shm) (i : Nat) (f : Fill) : Shm :=
  let e := w.ends i
  { w with
    segs := Function.update w.segs e.out.seg ((w.segs e.out.seg).fill f)
    sent := Function.update w.sent i (w.sent i ++ [f]) }

/-- A critical section of `get` or `tryget` on the input buffer of a handle that resets the guard. -/
def take (w : Shm) (i : Nat) : Shm :=
  let e := w.ends i
  { w with
    segs := Function.update w.segs e.inBuf.seg (w.segs e.inBuf.seg).release
    got := Function.update w.got i (w.got i ++ [w.segs e.inBuf.seg]) }

/-- `ConnSHM::notify_close`. -/
def notifyClose (w : Shm) (i : Nat) (closeWr closeRd : Bool) : Shm :=
  let e := w.ends i
  let (inBuf, out, sp) := w.closeBuffers e.inBuf e.out closeWr closeRd
  { w with toShmSpace := sp, ends := Function.update w.ends i { e with inBuf := inBuf, out := out } }

/-! ### Runs -/

/-- What a process does next. -/
inductive Op
  | listen (p : Nat) (address : Bytes) (fault : Option CreateFault)
  | endListening (p : Nat)
  | connect (p : Nat) (address : Bytes) (f : ConnectFaults)
  | ask (i : Nat)
  | look (p : Nat)
  | accept (p s : Nat) (msg : Bytes) (failsIn failsOut : Bool)
  | put (i : Nat) (f : Fill)
  | take (i : Nat)
  | notifyClose (i : Nat) (closeWr closeRd : Bool)

/-- EOS is the last that has been put through the handle. -/
def Ended (w : Shm) (i : Nat) : Prop := ∃ f, (w.sent i).getLast? = some f ∧ f.size = 0

/-- Something has come for the handle. -/
def Heard (w : Shm) (i : Nat) : Prop := w.got i ≠ [] ∨ (w.segs (w.ends i).inBuf.seg).guard = true

/-- The handle exists, and the slot is in the state for which the critical section waits.  What is put first
through a handle that `connect` has made is the flag of the handshake.  `Handle::close` puts EOS before it
closes the write side; it closes the read side when EOS has come or together with the write side, and that of a
handle made by `update` at any time. -/
def Possible (w : Shm) : Op → Prop
  | .listen _ _ _ | .endListening _ | .connect _ _ _ => True
  | .ask i => i < w.allocated ∧ w.waits i = true
  | .look p => w.accepting p = none
  | .accept p s msg _ _ => w.accepting p = some (s, msg)
  | .put i f => i < w.allocated ∧ w.waits i = false ∧ (w.ends i).out.shmp = true ∧
      (w.segs (w.ends i).out.seg).guard = false ∧ ((w.ends i).connects = true → w.sent i = [] → f.size ≠ 0)
  | .take i => i < w.allocated ∧ w.waits i = false ∧ (w.ends i).inBuf.shmp = true ∧
      (w.segs (w.ends i).inBuf.seg).guard = true
  | .notifyClose i closeWr closeRd => i < w.allocated ∧ w.waits i = false ∧
      (closeWr = true → (w.ends i).out.shmp = false ∨ w.Ended i) ∧
      (closeRd = true → (w.ends i).connects = false ∨ (w.ends i).out.shmp = false ∨ w.Ended i ∨ w.Heard i)

/-- The state behind an operation that returns. -/
def exec (w : Shm) : Op → Except Stop Shm
  | .listen p address fault => .ok (w.listen p address fault).2
  | .endListening p => .ok (w.endListening p)
  | .connect p address f => .ok (w.connect p address f).2
  | .ask i => w.ask i
  | .look p => w.look p
  | .accept p s msg failsIn failsOut => .ok (w.accept p s msg failsIn failsOut)
  | .put i f => .ok (w.put i f)
  | .take i => .ok (w.take i)
  | .notifyClose i closeWr closeRd => .ok (w.notifyClose i closeWr closeRd)

/-- A step of the processes. -/
def Step (o : Op) (w w' : Shm) : Prop := w.Possible o ∧ w.exec o = .ok w'

/-- At the beginning nobody listens and there are no connections; in the names of the processes there is no
colon, and no NUL. -/
structure Starts (w : Shm) : Prop where
  shmname : ∀ p, UInt8.ofNat ':'.toNat ∉ w.shmname p ∧ 0 ∉ w.shmname p
  connbuff : ∀ p, (w.connbuff p).shmp = false ∧ (w.connbuff p).opened = false
  accepting : ∀ p, w.accepting p = none
  names : w.names.Sound
  allocated : w.allocated = 0

end Shm

end Mtcl
