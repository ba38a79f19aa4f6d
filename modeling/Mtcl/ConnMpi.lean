import Mathlib.Data.Prod.Lex
import Mtcl.Base.OrdMap
import Mtcl.Base.Runs
import Mtcl.Config

/-!
# The connector over MPI

Processes that run `ConnMPI` exchange messages that MPI keeps in order for each source, destination and tag.
`connect` announces a tag to the peer with a message on a tag of its own, which `update` of the peer accepts,
and both put their handle into `connections` under the rank of the other and the tag.

`Mpi` is the state of all the processes and of the messages between them.  A handle has beside its members the
process that owns it, the handle whose `connect` has made its connection, and the messages that have been sent
and received through it.
-/

namespace Mtcl

/-- An object of class `HandleMPI`. -/
structure HandleMPI where
  owner : Nat := 0
  rank : Nat := 0
  tag : Nat := 0
  closedRd : Bool := false
  closedWr : Bool := false
  initiator : Nat := 0
  sent : List Bytes := []
  received : List Bytes := []
  deriving DecidableEq, Repr

namespace HandleMPI

/-- What is sent through the handle is found under this source, destination and tag. -/
def outgoing (h : HandleMPI) : Nat × Nat × Nat := (h.owner, h.rank, h.tag)

/-- What is received through the handle comes from this source, for this destination and with this tag. -/
def incoming (h : HandleMPI) : Nat × Nat × Nat := (h.rank, h.owner, h.tag)

/-- The key of the handle in `connections`. -/
def key (h : HandleMPI) : Nat ×ₗ Nat := toLex (h.rank, h.tag)

/-- Both sides are closed. -/
def closed (h : HandleMPI) : Bool := h.closedRd && h.closedWr

end HandleMPI

/-- The processes and the messages between them.  The requests of a source at a destination are the tags and the
handles that wait to be accepted. -/
structure Mpi where
  size : Nat
  handles : Nat → HandleMPI := fun _ => {}
  allocated : Nat := 0
  connections : Nat → OrdMap (Nat ×ₗ Nat) (Nat × Bool) := fun _ => ∅
  handleReady : Nat → List (Nat × Bool) := fun _ => []
  requests : Nat × Nat → List (Nat × Nat) := fun _ => []
  channel : Nat × Nat × Nat → List Bytes := fun _ => []

/-- The value of a decimal numeral. -/
def ofDigits (bs : Bytes) : Nat := bs.foldl (fun n b => 10 * n + (b.toNat - 48)) 0

/-- `std::stoi`; `none` is `std::invalid_argument`, and nothing catches `std::out_of_range`. -/
def stoi (s : Bytes) : Except Stop (Option Int) :=
  let s := s.dropWhile fun b => b == 32 || (9 ≤ b && b ≤ 13)
  let digits := (s.drop (if s.head? = some 43 ∨ s.head? = some 45 then 1 else 0)).takeWhile fun b => 48 ≤ b && b ≤ 57
  let n : Int := if s.head? = some 45 then - ofDigits digits else ofDigits digits
  if digits = [] then .ok none
  else if n < - 2 ^ 31 ∨ 2 ^ 31 ≤ n then .error .outOfRange
  else .ok (some n)

/-- `MPI_CONNECTION_TAG`. -/
abbrev connectionTag : Nat := 0

/-- The rank and the tag of an address, when `connect` accepts it. -/
def mpiAddress (dest : Bytes) : Except Stop (Option (Nat × Nat)) := do
  match ← stoi (beforeColon dest) with
  | none => return none
  | some rank =>
    match ← stoi (afterColon dest) with
    | none => return none
    | some tag => return if rank < 0 then none else if tag ≤ connectionTag then none else some (rank.toNat, tag.toNat)

namespace Mpi

/-! ### Messages -/

/-- `MPI_Send` through a handle. -/
def push (w : Mpi) (i : Nat) (msg : Bytes) : Mpi :=
  let h := w.handles i
  { w with
    channel := Function.update w.channel h.outgoing (w.channel h.outgoing ++ [msg])
    handles := Function.update w.handles i { h with sent := h.sent ++ [msg] } }

/-- `MPI_Recv` through a handle takes the next message off the channel. -/
def pull (w : Mpi) (i : Nat) : Option (Bytes × Mpi) :=
  let h := w.handles i
  match w.channel h.incoming with
  | [] => none
  | msg :: msgs =>
    some (msg, { w with
      channel := Function.update w.channel h.incoming msgs
      handles := Function.update w.handles i { h with received := h.received ++ [msg] } })

/-- `MPI_Recv` into a buffer; a message that is longer is cut off, which is an error. -/
def recv (w : Mpi) (i size : Nat) : Except Stop (Ret × Bytes × Mpi) :=
  match w.pull i with
  | none => .error .blocked
  | some (msg, w) =>
    if size < msg.length then .ok (.error .ECOMM, msg.take size, w) else .ok (.ok msg.length, msg, w)

/-- `HandleMPI::send`. -/
def send (w : Mpi) (i : Nat) (buff : Bytes) : Ret × Mpi :=
  (.ok buff.length, (w.push i (Words.toLE sizeofSizeT buff.length)).push i buff)

/-- `HandleMPI::sendEOS`. -/
def sendEOS (w : Mpi) (i : Nat) : Mpi := w.push i (Words.toLE sizeofSizeT 0)

/-- `HandleMPI::receive`. -/
def receive (w : Mpi) (i size : Nat) : Except Stop (Ret × Bytes × Mpi) := w.recv i size

/-- `HandleMPI::probe`; the header of a message that is shorter changes the first bytes of `size` only. -/
def probe (w : Mpi) (i size : Nat) (blocking : Bool) : Except Stop (Ret × Nat × Mpi) :=
  if !blocking && (w.channel (w.handles i).incoming).isEmpty then .ok (.error .EWOULDBLOCK, size, w)
  else do
    let (r, bs, w) ← w.recv i sizeofSizeT
    match r with
    | .error e => return (.error e, size, w)
    | .ok _ => return (.ok sizeofSizeT, Words.ofLE (bs ++ (Words.toLE sizeofSizeT size).drop bs.length), w)

/-! ### Connections -/

/-- `connections.insert`, which keeps an entry that is there. -/
def register (m : OrdMap (Nat ×ₗ Nat) (Nat × Bool)) (key : Nat ×ₗ Nat) (i : Nat) : OrdMap (Nat ×ₗ Nat) (Nat × Bool) :=
  if (m.find? key).isSome then m else m.insert key (i, false)

/-- A new handle of a process, registered in its `connections`. -/
def newHandle (w : Mpi) (h : HandleMPI) : Mpi :=
  { w with
    handles := Function.update w.handles w.allocated h
    allocated := w.allocated + 1
    connections := Function.update w.connections h.owner (register (w.connections h.owner) h.key w.allocated) }

/-- `ConnMPI::connect` of the process `p`. -/
def connect (w : Mpi) (p : Nat) (dest : Bytes) : Except Stop (Option Nat × Mpi) := do
  match ← mpiAddress dest with
  | none => return (none, w)
  | some (rank, tag) =>
    if w.size ≤ rank then return (none, w)
    else
      let w := { w with
        requests := Function.update w.requests (p, rank) (w.requests (p, rank) ++ [(tag, w.allocated)]) }
      return (some w.allocated, w.newHandle { owner := p, rank := rank, tag := tag, initiator := w.allocated })

/-- The first half of `ConnMPI::update`: the request that `MPI_Iprobe` finds, of whatever source, is accepted. -/
def accept (w : Mpi) (p source : Nat) : Mpi :=
  match w.requests (source, p) with
  | [] => w
  | (tag, initiator) :: rs =>
    let w := { w with
      requests := Function.update w.requests (source, p) rs
      handleReady := Function.update w.handleReady p (w.handleReady p ++ [(w.allocated, true)]) }
    w.newHandle { owner := p, rank := source, tag := tag, initiator := initiator }

/-- The second half of `ConnMPI::update`, for one entry. -/
def pollEntry (p : Nat) (w : Mpi) (e : (Nat ×ₗ Nat) × (Nat × Bool)) : Mpi :=
  if e.2.2 && !(w.channel ((ofLex e.1).1, p, (ofLex e.1).2)).isEmpty then
    { w with
      connections := Function.update w.connections p ((w.connections p).insert e.1 (e.2.1, false))
      handleReady := Function.update w.handleReady p (w.handleReady p ++ [(e.2.1, false)]) }
  else w

/-- `ConnMPI::update` of the process `p`. -/
def update (w : Mpi) (p : Nat) (source : Option Nat) : Mpi :=
  let w := source.elim w (w.accept p)
  (w.connections p).entries.foldl (pollEntry p) w

/-- `ConnMPI::notify_close`. -/
def notifyClose (w : Mpi) (i : Nat) (_closeWr closeRd : Bool) : Mpi :=
  let h := w.handles i
  if closeRd then
    { w with connections := Function.update w.connections h.owner ((w.connections h.owner).erase h.key) }
  else w

/-- `ConnMPI::notify_yield`. -/
def notifyYield (w : Mpi) (i : Nat) : Mpi :=
  let h := w.handles i
  match (w.connections h.owner).find? h.key with
  | none => w
  | some e =>
    { w with connections := Function.update w.connections h.owner ((w.connections h.owner).insert h.key (e.1, true)) }

/-- A handle with other flags. -/
def setFlags (w : Mpi) (i : Nat) (closedRd closedWr : Bool) : Mpi :=
  { w with handles := Function.update w.handles i { w.handles i with closedRd := closedRd, closedWr := closedWr } }

/-- `Handle::close`; what deletes the object is left out. -/
def close (w : Mpi) (i : Nat) (closeWr closeRd : Bool) : Mpi :=
  let w := if closeWr && !(w.handles i).closedWr then (w.sendEOS i).setFlags i (w.handles i).closedRd true else w
  let w := if closeRd && !(w.handles i).closedRd then w.setFlags i true (w.handles i).closedWr else w
  w.notifyClose i (w.handles i).closedWr (w.handles i).closedRd

/-- `Handle::yield`. -/
def yield (w : Mpi) (i : Nat) : Mpi := if (w.handles i).closedRd then w else w.notifyYield i

/-! ### Runs -/

/-- What a process does next; a handle is used by the process that owns it. -/
inductive Op
  | connect (p : Nat) (dest : Bytes)
  | update (p : Nat) (source : Option Nat)
  | send (i : Nat) (buff : Bytes)
  | receive (i size : Nat)
  | probe (i size : Nat) (blocking : Bool)
  | close (i : Nat) (closeWr closeRd : Bool)
  | yield (i : Nat)

/-- The process and the handle exist, `MPI_Iprobe` finds a request, and a `HandleUser` lets the call pass. -/
def Possible (w : Mpi) : Op → Prop
  | .connect p _ => p < w.size
  | .update p source => p < w.size ∧ ∀ s, source = some s → w.requests (s, p) ≠ []
  | .send i _ => i < w.allocated ∧ (w.handles i).closedWr = false
  | .receive i _ | .probe i _ _ => i < w.allocated ∧ (w.handles i).closedRd = false
  | .close i _ _ | .yield i => i < w.allocated

/-- The state behind an operation that returns. -/
def exec (w : Mpi) : Op → Except Stop Mpi
  | .connect p dest => (w.connect p dest).map Prod.snd
  | .update p source => .ok (w.update p source)
  | .send i buff => .ok (w.send i buff).2
  | .receive i size => (w.receive i size).map fun x => x.2.2
  | .probe i size blocking => (w.probe i size blocking).map fun x => x.2.2
  | .close i closeWr closeRd => .ok (w.close i closeWr closeRd)
  | .yield i => .ok (w.yield i)

/-- A step of the processes. -/
def Step (o : Op) (w w' : Mpi) : Prop := w.Possible o ∧ w.exec o = .ok w'

/-- At the beginning there are no connections. -/
def Starts (w : Mpi) : Prop := ∃ size, w = { size := size }

end Mpi

end Mtcl
