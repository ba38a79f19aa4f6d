import Mtcl.HandleTCP

/-!
# `HandleUCX`

Sending and receiving on a UCX handle: a stream of bytes, as over TCP, but a receive is completed with all its
bytes or fails, the size that `probe` has found is kept until the message is received, and EOS is a size of zero
followed by an `int`.

What the library brings is a stream of bytes and the way it ends.
-/

namespace Mtcl

/-- The errors among the values of `ucs_status_t`. -/
inductive UcsError
  | CONNECTION_RESET
  | other (code : Nat)
  deriving DecidableEq, Repr

/-- An object of class `HandleUCX`; `request` is the size of the receive that has been posted and is not
completed, `lastProbe` is `none` for `-1`.  A receive that `incoming` cannot fill waits, or fails as `broken`
says: with an error pointer (`true`), or with a request that is freed.  `failed` says that one has. -/
structure HandleUCX extends CommBase where
  request : Option Nat := none
  lastProbe : Option Nat := none
  incoming : Bytes := []
  broken : Option (UcsError × Bool) := none
  failed : Bool := false
  wire : Bytes := []
  deriving DecidableEq, Repr

namespace HandleUCX

/-- `HandleUCX::receive_internal`; the bytes go where the posted receive says, which may be one of an earlier
call.  After a failure `request` is not reset: the error pointer is met again, and so is the request that has
been freed. -/
def receiveInternal (h : HandleUCX) (size : Nat) (blocking : Bool) : Except Stop (Ret × Bytes × HandleUCX) :=
  let posted := h.request.getD size
  if posted ≤ h.incoming.length then
    .ok (.ok size, h.incoming.take posted, { h with request := none, incoming := h.incoming.drop posted })
  else
    match h.broken with
    | none => if blocking then .error .blocked else .ok (.error .EWOULDBLOCK, [], { h with request := some posted })
    | some (e, pointer) =>
      if h.failed && !pointer then .error .useAfterFree
      else .ok (if e = .CONNECTION_RESET then .ok 0 else .error .EINVAL, [],
        { h with request := some posted, failed := true })

/-- `HandleUCX::send`. -/
def send (h : HandleUCX) (buff : Bytes) : Ret × HandleUCX :=
  (.ok buff.length, { h with wire := h.wire ++ (Words.toBE sizeofSizeT buff.length ++ buff) })

/-- `HandleUCX::receive`; nothing is stored in the caller's buffer when a receive of `probe` was still posted. -/
def receive (h : HandleUCX) (size : Nat) : Except Stop (Ret × Bytes × HandleUCX) := do
  let (r, bs, h') ← h.receiveInternal size true
  return (r, if h.request.isSome then [] else bs, { h' with lastProbe := none })

/-- The value of `last_probe` for a size; the greatest one is that of `-1`. -/
def probedSize (size : Nat) : Option Nat := if size = 2 ^ 64 - 1 then none else some size

/-- `HandleUCX::probe`. -/
def probe (h : HandleUCX) (size : Nat) (blocking : Bool) : Except Stop (Ret × Nat × HandleUCX) :=
  match h.lastProbe with
  | some size => .ok (.ok sizeofSizeT, size, h)
  | none => do
    let (r, bs, h) ← h.receiveInternal sizeofSizeT blocking
    match r with
    | .ok (_ + 1) =>
      let h := { h with lastProbe := probedSize (Words.ofBE bs) }
      if Words.ofBE bs = 0 then
        let (_, _, h) ← h.receiveInternal sizeofInt true
        return (.ok sizeofSizeT, Words.ofBE bs, h)
      else return (.ok sizeofSizeT, Words.ofBE bs, h)
    | r => return (r, size, h)

end HandleUCX

end Mtcl
