import Mtcl.HandleTCP

/-!
# `HandleMQTT`

The virtual functions of a handle over a broker: a message travels as two publications, its header and its
payload, and EOS as a header alone.  A handle is modelled with its entry in the table of its connector,
`ConnMQTT`, with the messages that its client has for it, and with what it has published.
-/

namespace Mtcl

/-- An object of class `HandleMQTT`, with its entry in `ConnMQTT::connections` (`none` when it has been erased).
`client` is the queue of the client, with the topic of each message, `published` what has gone to `out_topic`,
and `ready` counts the calls of `addinQ` of `notify_yield`. -/
structure HandleMQTT extends CommBase where
  isProbed : Bool := false
  client : List (Bytes × Bytes) := []
  messages : List Bytes := []
  inTopic : Bytes := []
  published : List Bytes := []
  toManage : Option Bool := some false
  ready : Nat := 0
  deleted : Bool := false
  deriving DecidableEq, Repr

/-- `memcpy` of `n` bytes from `c_str()` of a string, behind which stands a NUL. -/
def fromCStr (s : Bytes) (n : Nat) : Except Stop Bytes :=
  if n ≤ s.length + 1 then .ok ((s ++ [0]).take n) else .error .undefined

namespace HandleMQTT

/-- `HandleMQTT::sendEOS`. -/
def sendEOS (h : HandleMQTT) : Ret × HandleMQTT :=
  (.ok sizeofSizeT, { h with published := h.published ++ [List.replicate sizeofSizeT 0] })

/-- `HandleMQTT::send`. -/
def send (h : HandleMQTT) (buff : Bytes) : Ret × HandleMQTT :=
  (.ok buff.length, { h with published := h.published ++ [Words.toBE sizeofSizeT buff.length, buff] })

/-- The loop of `receive` over the messages of the client; one of another topic is dropped. -/
def receiveLoop (inTopic : Bytes) (size : Nat) : List (Bytes × Bytes) → Except Stop (Bytes × List (Bytes × Bytes))
  | [] => .error .blocked
  | (topic, payload) :: client =>
    if topic = inTopic then do
      let bs ← fromCStr payload size
      return (bs, client)
    else receiveLoop inTopic size client

/-- `HandleMQTT::receive`; a message that `update` has put into `messages` is copied whole. -/
def receive (h : HandleMQTT) (size : Nat) : Except Stop (Ret × Bytes × HandleMQTT) :=
  let h := { h with isProbed := false }
  match h.messages with
  | m :: ms => if size < m.length then .error .undefined else .ok (.ok m.length, m, { h with messages := ms })
  | [] => do
    let (bs, client) ← receiveLoop h.inTopic size h.client
    return (.ok size, bs, { h with client := client })

/-- `HandleMQTT::probe`.  With `is_probed` the header is the front of `messages`, whether there is one or not. -/
def probe (garbage : Nat → UInt8) (h : HandleMQTT) (size : Nat) (blocking : Bool) :
    Except Stop (Ret × Nat × HandleMQTT) :=
  if h.isProbed then
    match h.messages with
    | [] => .error .undefined
    | m :: ms => do
      let bs ← fromCStr m sizeofSizeT
      return (.ok sizeofSizeT, Words.ofBE bs, { h with messages := ms })
  else if blocking then do
    let (_, bs, h) ← h.receive sizeofSizeT
    return (.ok sizeofSizeT, Words.ofBE (overlay garbage sizeofSizeT bs), { h with isProbed := true })
  else
    match h.client with
    | [] => .ok (.error .EWOULDBLOCK, size, h)
    | (_, payload) :: client => do
      let bs ← fromCStr payload sizeofSizeT
      return (.ok sizeofSizeT, Words.ofBE bs, { h with client := client, isProbed := true })

/-- `ConnMQTT::notify_yield`; a missing entry is reported, and then written to all the same. -/
def notifyYield (h : HandleMQTT) : Except Stop HandleMQTT :=
  if h.isProbed then .ok { h with ready := h.ready + 1 }
  else
    match h.toManage with
    | none => .error .undefined
    | some _ => .ok { h with toManage := some true }

/-- `ConnMQTT::notify_close`. -/
def notifyClose (h : HandleMQTT) (closeRd : Bool) : HandleMQTT := if closeRd then { h with toManage := none } else h

/-- `delete this`, when nothing refers to the handle and both its sides are closed. -/
def deleteUnused (h : HandleMQTT) : HandleMQTT :=
  if h.counter = 0 ∧ h.closedWr = true ∧ h.closedRd = true then { h with deleted := true } else h

/-- `Handle::close`. -/
def close (h : HandleMQTT) (closeWr closeRd : Bool) : HandleMQTT :=
  let h := if closeWr && !h.closedWr then { h.sendEOS.2 with closedWr := true } else h
  let h := if closeRd then { h with closedRd := true } else h
  (h.notifyClose h.closedRd).deleteUnused

/-- The object, while it exists. -/
def deref (h : HandleMQTT) : Except Stop HandleMQTT := if h.deleted then .error .useAfterFree else .ok h

theorem eq_of_deref {h k : HandleMQTT} (he : h.deref = .ok k) : h = k := by
  unfold deref at he
  split at he
  · cases he
  · exact Except.ok.inj he

/-- A virtual function that returns has found the handle. -/
theorem of_deref {α : Type} {h : HandleMQTT} {f : HandleMQTT → Except Stop α} {x : α}
    (hcall : (h.deref >>= f) = .ok x) : f h = .ok x := by
  obtain ⟨k, hderef, hcall⟩ := bind_eq_ok.1 hcall
  rw [eq_of_deref hderef]
  exact hcall

end HandleMQTT

/-- The virtual functions of the handle. -/
def mqttHandle (garbage : Nat → UInt8) : CommunicationHandle HandleMQTT where
  base h := do
    let h ← h.deref
    return h.toCommBase
  setProbed pr h := { h with probed := pr }
  probe size blocking h := do
    let h ← h.deref
    h.probe garbage size blocking
  receive n h := do
    let h ← h.deref
    h.receive n
  send bs h := do
    let h ← h.deref
    return h.send bs
  close wr rd h := do
    let h ← h.deref
    return h.close wr rd
  yield h := do
    let h ← h.deref
    if h.closedRd then return h else h.notifyYield
  incrementReferenceCounter h := do
    let h ← h.deref
    return { h with counter := h.counter + 1 }
  decrementReferenceCounter h := do
    let h ← h.deref
    return ({ h with counter := h.counter - 1 } : HandleMQTT).deleteUnused

end Mtcl
