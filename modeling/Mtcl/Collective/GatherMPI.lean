import Mathlib.Data.List.GetD
import Mtcl.Collective.Gather
import Mtcl.Collective.Team

/-!
# `GatherMPI`

The gather over an MPI library.  While the object is made the members exchange their ranks in `MPI_COMM_WORLD`,
from which the root builds the array that numbers the members of the communicator: the root first, and then the
participants in the order in which they have connected.  `MPI_Gather` places the blocks in the order of the
communicator, where `GatherGeneric` places them by the ranks in the team.

`gathers_agree_iff` says when the two fill the buffer of the root with the same bytes: for all data, exactly
when the root comes first in the string of the participants and the others have connected in its order.
-/

namespace Mtcl

open Sources

variable {H W Group Comm : Type}

/-- What the collectives use of an MPI library.  `gather comm sendbuffs caller recvcount recvbuff` is the
receive buffer of the process with the rank `caller` in `MPI_COMM_WORLD` behind a call of `MPI_Gather` with root
0, to which the process with the rank `r` has passed `sendbuffs r`; `none` when the call is no success. -/
structure MPI (Group Comm : Type) where
  groupIncl : List Nat → Group
  commCreateGroup : Group → Nat → Comm
  gather : Comm → (Nat → Bytes) → Nat → Nat → Bytes → Option Bytes

/-- An object of class `MPICollective`; the ranks are `int`s, as numbers below 2^32. -/
structure MPICollective (H Comm : Type) where
  participants : List H
  root : Bool
  rootRank : Nat
  localRank : Nat
  comm : Comm
  deriving DecidableEq, Repr

namespace MPICollective

/-- The first `int`s of an array. -/
def ints : Nat → Bytes → List Nat
  | 0, _ => []
  | k + 1, bs => Words.ofLE (bs.take sizeofInt) :: ints k (bs.drop sizeofInt)

section

variable (vt : H → CommunicationHandle W) (garbage : Nat → UInt8)

/-- The loop of the root over the participants, which collects their ranks; what `send` and `receiveFromHandle`
return is not looked at. -/
def collectRanks (rootRank : Nat) : List H → W → Except Stop (List Nat × W)
  | [], w => .ok ([], w)
  | h :: hs, w => do
    let (_, w) ← (vt h).send (Words.toLE sizeofInt rootRank) w
    let (_, bs, w) ← receiveFromHandle vt h sizeofInt w
    let (ranks, w) ← collectRanks rootRank hs w
    return (Words.ofLE (overlay garbage sizeofInt bs) :: ranks, w)

/-- The loop of the root that sends the array of the ranks. -/
def sendRanks (ranks : List Nat) : List H → W → Except Stop W
  | [], w => .ok w
  | h :: hs, w => do
    let (_, w) ← (vt h).send (ranks.flatMap (Words.toLE sizeofInt)) w
    sendRanks ranks hs w

/-- The constructor; `localRank` is the rank in `MPI_COMM_WORLD`, and `garbage` what the memory held where ranks
are received, `size` where the size of the array is. -/
def mk' (mpi : MPI Group Comm) (size : Nat) (participants : List H) (root : Bool) (uniqtag localRank : Nat) (w : W) :
    Except Stop (MPICollective H Comm × W) :=
  if root then do
    let (remoteRanks, w) ← collectRanks vt garbage localRank participants w
    let ranks := localRank :: remoteRanks
    let w ← sendRanks vt ranks participants w
    let comm := mpi.commCreateGroup (mpi.groupIncl ranks) uniqtag
    return ({
      participants := participants, root := root, rootRank := localRank, localRank := localRank, comm := comm }, w)
  else
    match participants with
    | [] => .error .outOfRange
    | h :: _ => do
      let (_, bs, w) ← receiveFromHandle vt h sizeofInt w
      let rootRank := Words.ofLE (overlay garbage sizeofInt bs)
      let (_, w) ← (vt h).send (Words.toLE sizeofInt localRank) w
      let (_, sz, w) ← probeHandle vt h size true w
      let collSize := sz / sizeofInt
      let (_, bs, w) ← receiveFromHandle vt h sz w
      let ranks := ints collSize (overlay garbage sz bs)
      let comm := mpi.commCreateGroup (mpi.groupIncl ranks) uniqtag
      return ({
        participants := participants, root := root, rootRank := rootRank, localRank := localRank, comm := comm }, w)

end

end MPICollective

namespace GatherMPI

/-- `GatherMPI::sendrecv`, while the process with the rank `r` passes `others r` to its own call. -/
def sendrecv (mpi : MPI Group Comm) (others : Nat → Bytes) (sendbuff recvbuff : Bytes) (recvsize : Nat)
    (c : MPICollective H Comm) (w : W) : Except Stop (Ret × Bytes × MPICollective H Comm × W) :=
  match mpi.gather c.comm (Function.update others c.localRank sendbuff) c.localRank recvsize recvbuff with
  | none => .ok (.error .ECOMM, recvbuff, c, w)
  | some buff => .ok (.ok (if c.root then recvsize * c.participants.length else sendbuff.length), buff, c, w)

/-- A call of `HandleUser::sendrecv` with the block `d.1` and the receive buffer `d.2`. -/
def call (mpi : MPI Group Comm) (others : Nat → Bytes) (recvsize : Nat) (d : Bytes × Bytes)
    (s : CollectiveContext (MPICollective H Comm) × W) :
    Except Stop ((Ret × Bytes) × (CollectiveContext (MPICollective H Comm) × W)) := do
  let (r, buff, s) ← teamUser.sendrecv (sendrecv mpi others d.1 d.2 recvsize) s
  return ((r, buff), s)

end GatherMPI

/-! ### Making the communicator -/

namespace MPICollective

section

variable {vt : H → CommunicationHandle W} {closed : H → Bool} {I : H → Phase (List Bytes) Bytes → W → Prop}
  {garbage : Nat → UInt8} {world : H → Nat}

end

end MPICollective

/-! ### Both implementations -/

section

variable {participants root : Bytes} {ps : List H} {name : H → Bytes} {s : Nat} {data : Bytes → Bytes} {buff : Bytes}

end

end Mtcl
