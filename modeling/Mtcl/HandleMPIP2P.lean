import Mtcl.HandleTCP

/-!
# `HandleMPIP2P`

Sending and receiving on a handle between two MPI processes with a communicator of their own: header and payload
of a message are two MPI messages.  The functions of MPI return their errors.
-/

namespace Mtcl

/-- An object of class `HandleMPIP2P`, with the MPI messages that its peer sends and those that it has sent. -/
structure HandleMPIP2P extends CommBase where
  incoming : List Bytes := []
  posted : List Bytes := []
  deriving DecidableEq, Repr

namespace HandleMPIP2P

/-- `HandleMPIP2P::send`; the header is in the byte order of the host. -/
def send (h : HandleMPIP2P) (buff : Bytes) : Ret × HandleMPIP2P :=
  (.ok buff.length, { h with posted := h.posted ++ [Words.toLE sizeofSizeT buff.length, buff] })

/-- `HandleMPIP2P::receive`; a message that is longer than the buffer is an error. -/
def receive (h : HandleMPIP2P) (size : Nat) : Except Stop (Ret × Bytes × HandleMPIP2P) :=
  match h.incoming with
  | [] => .error .blocked
  | m :: ms =>
    if m.length ≤ size then .ok (.ok m.length, m, { h with incoming := ms })
    else .ok (.error .ECOMM, [], { h with incoming := ms })

/-- `HandleMPIP2P::probe`. -/
def probe (garbage : Nat → UInt8) (h : HandleMPIP2P) (size : Nat) (blocking : Bool) :
    Except Stop (Ret × Nat × HandleMPIP2P) :=
  match h.incoming with
  | [] => if blocking then .error .blocked else .ok (.error .EWOULDBLOCK, size, h)
  | m :: ms =>
    if m.length ≤ sizeofSizeT then
      .ok (.ok sizeofSizeT, Words.ofLE (overlay garbage sizeofSizeT m), { h with incoming := ms })
    else .ok (.error .ECOMM, size, { h with incoming := ms })

end HandleMPIP2P

end Mtcl
