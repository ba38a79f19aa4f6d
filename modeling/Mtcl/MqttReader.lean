import Mtcl.Base.Runs
import Mtcl.HandleMQTT

/-!
# Reading from `HandleMQTT`

A handle over a broker is read by the calls of `HandleUser`, and between them, once it has been yielded, by the
passes of `ConnMQTT::update`, which take a header out of the client and queue it in `messages`.  The calls take
no lock that a pass takes.  So a call and a pass are cut into their steps here, wherever one reads or writes
what the other one writes, and any step may come between two others.

`is_probed` says that the header has been read, by the manager or by a call.  `exactlyOnce_of_apart` says that
every message is received once, whole and in order, and that `probe` finds a header wherever it looks for one,
as long as no pass takes a publication of the handle while a call on it is in progress.
-/

namespace Mtcl

open Runs

/-! ### The publications -/

/-- What goes to `out_topic` for some messages, followed or not by EOS. -/
def publications (closed : Bool) (ms : List Bytes) : List Bytes :=
  ms.flatMap (fun m => [Words.toBE sizeofSizeT m.length, m]) ++ if closed then [List.replicate sizeofSizeT 0] else []

@[simp] theorem publications_cons (closed : Bool) (m : Bytes) (ms : List Bytes) :
    publications closed (m :: ms) = Words.toBE sizeofSizeT m.length :: m :: publications closed ms := rfl

/-- A header or EOS is eight bytes long. -/
theorem length_of_first {closed : Bool} {ms ps : List Bytes} {p : Bytes} (h : publications closed ms = p :: ps) :
    p.length = sizeofSizeT := by
  cases ms with
  | nil =>
    cases closed with
    | false => cases h
    | true =>
      obtain ⟨rfl, -⟩ := List.cons.inj h
      exact List.length_replicate
  | cons m ms =>
    obtain ⟨rfl, -⟩ := List.cons.inj h
    exact Words.length_toBE ..

/-- A publication that is copied whole. -/
theorem fromCStr_self (bs : Bytes) : fromCStr bs bs.length = .ok bs := by
  unfold fromCStr
  rw [if_pos (Nat.le_succ _), List.take_left' rfl]

theorem fromCStr_first {closed : Bool} {ms ps : List Bytes} {p : Bytes} (h : publications closed ms = p :: ps) :
    fromCStr p sizeofSizeT = .ok p := by
  rw [← length_of_first h, fromCStr_self]

namespace HandleMQTT

/-- The sends of one side publish its messages. -/
theorem published_sends (h : HandleMQTT) (ms : List Bytes) :
    (ms.foldl (fun h m => (h.send m).2) h).published = h.published ++ publications false ms := by
  induction ms generalizing h with
  | nil => exact (List.append_nil _).symm
  | cons m ms ih =>
    rw [List.foldl_cons, ih]
    exact List.append_assoc ..

/-- And `sendEOS` the end. -/
theorem published_sendEOS (h : HandleMQTT) (ms : List Bytes) :
    ((ms.foldl (fun h m => (h.send m).2) h).sendEOS.2).published = h.published ++ publications true ms := by
  show (ms.foldl (fun h m => (h.send m).2) h).published ++ [List.replicate sizeofSizeT 0] = _
  rw [published_sends, List.append_assoc]
  unfold publications
  rw [List.append_assoc]
  rfl

/-- The part of `ConnMQTT::update` for this handle. -/
def update (h : HandleMQTT) : HandleMQTT :=
  if h.toManage = some true then
    match h.client with
    | [] => h
    | (_, payload) :: client =>
      { h with
        client := client, isProbed := true, messages := h.messages ++ [payload], toManage :=
        some false, ready := h.ready + 1 }
  else h

end HandleMQTT

/-- Where `HandleMQTT::receive` is: at `is_probed = false`, at its look into `messages`, or at `try_consume_message`. -/
inductive Point
  | reset
  | look
  | take
  deriving DecidableEq, Repr

namespace HandleMQTT

/-- One step of `receive`: its result, or where it is then. -/
def receiveStep (h : HandleMQTT) (size : Nat) : Point → Except Stop (Sum (Nat × Bytes) Point × HandleMQTT)
  | .reset => .ok (.inr .look, { h with isProbed := false })
  | .look =>
    match h.messages with
    | [] => .ok (.inr .take, h)
    | m :: ms => if size < m.length then .error .undefined else .ok (.inl (m.length, m), { h with messages := ms })
  | .take =>
    match h.client with
    | [] => .ok (.inr .look, h)
    | (topic, payload) :: client =>
      if topic = h.inTopic then do
        let bs ← fromCStr payload size
        return (.inl (size, bs), { h with client := client })
      else .ok (.inr .look, { h with client := client })

theorem look_queued {h : HandleMQTT} {m : Bytes} {ms : List Bytes} (hm : h.messages = m :: ms) :
    h.receiveStep m.length .look = .ok (.inl (m.length, m), { h with messages := ms }) := by
  unfold receiveStep
  rw [hm]
  exact if_neg (Nat.lt_irrefl _)

theorem look_empty {h : HandleMQTT} (hm : h.messages = []) (size : Nat) :
    h.receiveStep size .look = .ok (.inr .take, h) := by
  unfold receiveStep
  rw [hm]

theorem take_first {h : HandleMQTT} {p : Bytes} {c : List (Bytes × Bytes)} (hc : h.client = (h.inTopic, p) :: c) :
    h.receiveStep p.length .take = .ok (.inl (p.length, p), { h with client := c }) := by
  unfold receiveStep
  rw [hc]
  dsimp only
  rw [if_pos rfl, fromCStr_self]
  rfl

theorem take_empty {h : HandleMQTT} (hc : h.client = []) (size : Nat) :
    h.receiveStep size .take = .ok (.inr .look, h) := by
  unfold receiveStep
  rw [hc]

end HandleMQTT

/-! ### The reader -/

/-- What `HandleMQTT::receive` is called for: the header, with the size of the buffer of `HandleUser::receive`,
or the payload. -/
inductive Waits
  | header (cap : Option Nat)
  | payload (size : Nat)
  deriving DecidableEq, Repr

/-- The size with which it is called. -/
def Waits.size : Waits → Nat
  | .header _ => sizeofSizeT
  | .payload size => size

/-- A call in progress: `HandleMQTT::probe` at its test of `is_probed`, or at the `try_consume_message` of a
`probe` that does not wait, or `HandleMQTT::receive`. -/
inductive Ongoing
  | test (cap : Option Nat) (blocking : Bool)
  | attempt (cap : Option Nat)
  | receive (x : Waits) (p : Point)
  deriving DecidableEq, Repr

/-- The steps that are left to a call, at most, when it does not have to wait. -/
def Ongoing.left : Ongoing → Nat
  | .receive (.payload _) .take => 1
  | .receive (.payload _) .look => 2
  | .receive (.payload _) .reset => 3
  | .receive (.header _) .take => 4
  | .receive (.header _) .look => 5
  | .receive (.header _) .reset => 6
  | .attempt _ => 6
  | .test _ _ => 7

/-- Where `ConnMQTT::update` is with this handle: it has done nothing, it has a publication in its hand, it has
then set `is_probed`, or has put the publication into `messages`. -/
inductive Pass
  | idle
  | taken (p : Bytes)
  | flagged (p : Bytes)
  | queued
  deriving DecidableEq, Repr

/-- The publication in its hand. -/
def Pass.hand : Pass → List Bytes
  | .taken p | .flagged p => [p]
  | .idle | .queued => []

/-- What a call returns; `noRoom` is `ENOMEM`. -/
inductive MqttAnswer
  | probed (r : Ret) (size : Nat)
  | received (r : Ret) (bs : Bytes)
  | noRoom (cap : Nat)
  deriving DecidableEq, Repr

/-- A handle with the publications that are still to come to its client, the call in progress and the pass.
`unread` is not in the program: the messages of the other side that no call has returned. -/
structure MqttReader where
  handle : HandleMQTT
  coming : List Bytes
  call : Option Ongoing := none
  pass : Pass := .idle
  unread : List Bytes

namespace MqttReader

/-- The end of `HandleUser::receive`, up to `HandleMQTT::receive`. -/
def startPayload (s : MqttReader) (cap : Nat) : Option MqttAnswer × MqttReader :=
  let sz := s.handle.probed.2
  if cap < sz then (some (.noRoom cap), s)
  else (none, { s with
    handle := { s.handle with probed := (false, 0) }, call := some (.receive (.payload (min sz cap)) .reset) })

/-- The end of `HandleUser::probe`, once `HandleMQTT::probe` has returned a size, and then the rest of
`HandleUser::receive`. -/
def headerRead (s : MqttReader) (cap : Option Nat) (size : Nat) : Option MqttAnswer × MqttReader :=
  let s := { s with handle := { s.handle with probed := (true, size) }, call := none }
  if size = 0 then
    (some (if cap.isSome then .received (.ok 0) [] else .probed (.ok 0) 0),
      { s with handle := s.handle.close false true })
  else
    match cap with
    | none => (some (.probed (.ok sizeofSizeT) size), s)
    | some cap => s.startPayload cap

/-- `HandleUser::probe` of a readable `HandleUser`, up to `HandleMQTT::probe`. -/
def startProbe (s : MqttReader) (blocking : Bool) : Option MqttAnswer × MqttReader :=
  if s.handle.probed.1 then (some (.probed (.ok (if s.handle.probed.2 = 0 then 0 else sizeofSizeT))
    s.handle.probed.2), s)
  else if s.handle.closedRd then (some (.probed (.ok 0) 0), s)
  else (none, { s with call := some (.test none blocking) })

/-- `HandleUser::receive` of a readable `HandleUser`, up to a virtual function of the handle. -/
def startReceive (s : MqttReader) (cap : Nat) : Option MqttAnswer × MqttReader :=
  if s.handle.probed.1 then
    if s.handle.closedRd then (some (.received (.ok 0) []), s) else s.startPayload cap
  else if s.handle.closedRd then (some (.received (.ok 0) []), s)
  else (none, { s with call := some (.test (some cap) true) })

/-- What follows the result of `HandleMQTT::receive`. -/
def finish (garbage : Nat → UInt8) (s : MqttReader) (n : Nat) (bs : Bytes) : Waits → Option MqttAnswer × MqttReader
  | .header cap =>
    ({ s with handle := { s.handle with isProbed := true } } : MqttReader).headerRead cap
      (Words.ofBE (overlay garbage sizeofSizeT bs))
  | .payload _ => (some (.received (.ok n) bs), { s with call := none, unread := s.unread.tail })

/-- The next step of the call in progress, up to the next one that a pass can see. -/
def turn (garbage : Nat → UInt8) (s : MqttReader) : Ongoing → Except Stop (Option MqttAnswer × MqttReader)
  | .test cap blocking =>
    if s.handle.isProbed then
      match s.handle.messages with
      | [] => .error .undefined
      | m :: ms => do
        let bs ← fromCStr m sizeofSizeT
        return ({ s with handle := { s.handle with messages := ms } } : MqttReader).headerRead cap (Words.ofBE bs)
    else .ok (none, { s with call := some (if blocking then .receive (.header cap) .reset else .attempt cap) })
  | .attempt cap =>
    match s.handle.client with
    | [] => .ok (some (.probed (.error .EWOULDBLOCK) 0), { s with call := none })
    | (_, payload) :: client => do
      let bs ← fromCStr payload sizeofSizeT
      return ({ s with handle := { s.handle with client := client, isProbed := true } } : MqttReader).headerRead
        cap (Words.ofBE bs)
  | .receive x p => do
    let (r, h) ← s.handle.receiveStep x.size p
    match r with
    | .inr p => return (none, { s with handle := h, call := some (.receive x p) })
    | .inl (n, bs) => return ({ s with handle := h } : MqttReader).finish garbage n bs x

/-- The next publication comes to the client. -/
def arrive (s : MqttReader) : MqttReader :=
  match s.coming with
  | [] => s
  | p :: ps => { s with handle := { s.handle with client := s.handle.client ++ [(s.handle.inTopic, p)] }, coming := ps }

/-- The next step of a pass of `update`. -/
def update (s : MqttReader) : MqttReader :=
  match s.pass with
  | .idle =>
    if s.handle.toManage = some true then
      match s.handle.client with
      | [] => s
      | (_, payload) :: client => { s with handle := { s.handle with client := client }, pass := .taken payload }
    else s
  | .taken p => { s with handle := { s.handle with isProbed := true }, pass := .flagged p }
  | .flagged p => { s with handle := { s.handle with messages := s.handle.messages ++ [p] }, pass := .queued }
  | .queued => { s with handle := { s.handle with toManage := some false, ready := s.handle.ready + 1 }, pass := .idle }

/-- A publication comes to the client, a step of a pass, `Handle::yield`, a call begins, or the call in progress
makes a step. -/
inductive Op
  | arrive
  | update
  | yield
  | probe (blocking : Bool)
  | receive (cap : Nat)
  | poll

/-- One operation; one call is made at a time, and the lock keeps `notify_yield` out of a pass. -/
def step (garbage : Nat → UInt8) (o : Op) (s : MqttReader) : Except Stop (Option MqttAnswer × MqttReader) :=
  match o with
  | .arrive => .ok (none, s.arrive)
  | .update => .ok (none, s.update)
  | .yield =>
    if s.pass = .idle then do
      let h ← (mqttHandle garbage).yield s.handle
      return (none, { s with handle := h })
    else .ok (none, s)
  | .probe blocking => if s.call = none then .ok (s.startProbe blocking) else .ok (none, s)
  | .receive cap => if s.call = none then .ok (s.startReceive cap) else .ok (none, s)
  | .poll =>
    match s.call with
    | none => .ok (none, s)
    | some c => s.turn garbage c

/-! ### What holds between the operations -/

/-- The publications that no call has taken, in order. -/
def stream (s : MqttReader) : List Bytes := s.handle.messages ++ s.pass.hand ++ s.handle.client.map Prod.snd ++ s.coming

/-- What every state has: the handle is in use, the client has subscribed to one topic, the messages can be sent. -/
structure Usable (s : MqttReader) : Prop where
  deleted : s.handle.deleted = false
  counter : s.handle.counter ≠ 0
  topics : ∀ x ∈ s.handle.client, x.1 = s.handle.inTopic
  sendable : ∀ m ∈ s.unread, m ≠ [] ∧ m.length < 2 ^ 64

/-- The read side is open, the connector has an entry, and the publications are still to be taken. -/
structure Faces (s : MqttReader) (probed : Bool × Nat) (ps : List Bytes) : Prop where
  probed : s.handle.probed = probed
  closedRd : s.handle.closedRd = false
  toManage : s.handle.toManage ≠ none
  stream : s.stream = ps

/-- What the passes have left in a handle whose `is_probed` the calls have left as `flag`. -/
inductive Stock (flag : Bool) (h : HandleMQTT) : Pass → Prop
  | empty (isProbed : h.isProbed = flag) (messages : h.messages = []) : Stock flag h .idle
  | taken {p : Bytes} (isProbed : h.isProbed = flag) (messages : h.messages = []) : Stock flag h (.taken p)
  | flagged {p : Bytes} (isProbed : h.isProbed = true) (messages : h.messages = []) : Stock flag h (.flagged p)
  | queued (isProbed : h.isProbed = true) (messages : h.messages.length = 1) : Stock flag h .queued
  | given (isProbed : h.isProbed = true) (messages : h.messages.length = 1) (toManage : h.toManage = some false) :
      Stock flag h .idle

/-- What a call finds that reads a header. -/
def Finds (h : HandleMQTT) : Ongoing → Prop
  | .test _ _ => Stock false h .idle
  | .attempt _ | .receive (.header _) _ => h.isProbed = false ∧ h.messages = []
  | .receive (.payload _) _ => False

/-- What `HandleMQTT::receive` finds for a payload; behind it the manager may have queued nothing. -/
def Holds (h : HandleMQTT) : Point → Prop
  | .reset => Stock true h .idle
  | .look => h.isProbed = false ∧ h.messages.length ≤ 1
  | .take => h.isProbed = false ∧ h.messages = []

/-- Where the reader is. -/
inductive Phase (closed : Bool) (s : MqttReader) : Prop
  /-- Before a header, outside of a call. -/
  | header (call : s.call = none) (faces : s.Faces (false, 0) (publications closed s.unread))
      (stock : Stock false s.handle s.pass)
  /-- In a call that reads a header. -/
  | probing (c : Ongoing) (call : s.call = some c) (pass : s.pass = .idle)
      (faces : s.Faces (false, 0) (publications closed s.unread)) (finds : Finds s.handle c)
  /-- Between a header and its payload. -/
  | payload (m : Bytes) (q : List Bytes) (call : s.call = none) (unread : s.unread = m :: q)
      (faces : s.Faces (true, m.length) (m :: publications closed q)) (stock : Stock true s.handle s.pass)
  /-- In a call that takes the payload. -/
  | taking (m : Bytes) (q : List Bytes) (p : Point) (call : s.call = some (.receive (.payload m.length) p))
      (pass : s.pass = .idle) (unread : s.unread = m :: q)
      (faces : s.Faces (false, 0) (m :: publications closed q)) (holds : Holds s.handle p)
  /-- Behind EOS. -/
  | ended (call : s.call = none) (pass : s.pass = .idle) (probed : s.handle.probed = (true, 0))
      (closedRd : s.handle.closedRd = true) (toManage : s.handle.toManage = none) (unread : s.unread = [])
      (eos : closed = true)

/-- The invariant of the reader. -/
structure Inv (closed : Bool) (s : MqttReader) : Prop where
  usable : s.Usable
  phase : s.Phase closed

/-- What may be answered: the size of the next message, or the next message; its end only behind the last;
`ENOMEM` when there is no room for it, and `EWOULDBLOCK` when there is nothing at the client. -/
def Agrees (closed : Bool) (s : MqttReader) : MqttAnswer → Prop
  | .probed (.ok 0) _ | .received (.ok 0) _ => s.unread = [] ∧ closed = true
  | .probed (.ok (_ + 1)) size => ∃ m q, s.unread = m :: q ∧ size = m.length
  | .received (.ok (n + 1)) bs => ∃ q, s.unread = bs :: q ∧ n + 1 = bs.length
  | .probed (.error e) _ => e = .EWOULDBLOCK ∧ s.handle.client = []
  | .received (.error _) _ => False
  | .noRoom cap => ∃ m q, s.unread = m :: q ∧ cap < m.length

/-- The messages that an answer returns. -/
def delivered : Option MqttAnswer → List Bytes
  | some (.received (.ok (_ + 1)) bs) => [bs]
  | _ => []

/-- An answer is right, the message that it returns is the next of those that have not been read, and none is lost. -/
structure Well (closed : Bool) (s : MqttReader) (a : Option MqttAnswer) (s' : MqttReader) : Prop where
  agrees : ∀ x, a = some x → s.Agrees closed x
  unread : s.unread = delivered a ++ s'.unread

/-- A call is in progress, and what it looks for has come to the client. -/
def Ready (closed : Bool) (s : MqttReader) : Prop := s.call ≠ none ∧ s.coming = [] ∧ (s.unread ≠ [] ∨ closed = true)

/-- And to the call in progress. -/
def left (s : MqttReader) : Nat :=
  match s.call with
  | none => 0
  | some c => c.left

/-- An operation returns, with a right answer, and a step of a call that can go on brings it nearer to its end. -/
def Correct (garbage : Nat → UInt8) (closed : Bool) (s : MqttReader) (o : Op) : Prop :=
  ∃ a s', step garbage o s = .ok (a, s') ∧ s.Well closed a s' ∧ (o = .poll → s.Ready closed → s'.left < s.left)

/-- No pass takes a publication while a call is in progress, and no call begins while a pass has one in its hand. -/
def Apart (s : MqttReader) : Op → Prop
  | .update => s.call ≠ none → s.handle.toManage = some true → s.handle.client = []
  | .probe _ | .receive _ => s.pass = .idle
  | .arrive | .yield | .poll => True

variable {g : Nat → UInt8} {closed : Bool} {s t : MqttReader}

/-! ### Reading a header -/

/-- Closing the read side of a handle in use. -/
theorem close_rd {h : HandleMQTT} (hc : h.counter ≠ 0) :
    h.close false true = { h with closedRd := true, toManage := none } := by
  unfold HandleMQTT.close HandleMQTT.deleteUnused
  exact if_neg fun h => hc h.1

theorem left_of_call {c : Ongoing} (hcall : s.call = some c) : s.left = c.left := by
  unfold left
  rw [hcall]

theorem left_of_none (hcall : s.call = none) : s.left = 0 := by
  unfold left
  rw [hcall]

/-- A call that returns, or goes on with a right state. -/
structure GoesOn (closed : Bool) (s : MqttReader) (x : Option MqttAnswer × MqttReader) (n : Nat) : Prop where
  well : s.Well closed x.1 x.2
  inv : x.2.Inv closed
  left : x.2.left ≤ n

/-- The end of a `receive` whose header has been read. -/
theorem startPayload_goesOn (hunread : s.unread = t.unread) (hu : s.Usable) (hcall : s.call = none)
    (hpass : s.pass = .idle) {m : Bytes} {q : List Bytes} (hs : s.unread = m :: q)
    (hf : s.Faces (true, m.length) (m :: publications closed q)) (hstock : Stock true s.handle .idle)
    (cap : Nat) : t.GoesOn closed (s.startPayload cap) 3 := by
  unfold startPayload
  rw [hf.probed]
  dsimp only
  by_cases hcap : cap < m.length
  · rw [if_pos hcap]
    refine ⟨⟨?_, hunread.symm⟩, ⟨hu, .payload m q hcall hs hf (hpass ▸ hstock)⟩, ?_⟩
    · rintro _ ⟨⟩
      exact ⟨m, q, hunread.symm.trans hs, hcap⟩
    · rw [left_of_none hcall]
      exact Nat.zero_le 3
  · rw [if_neg hcap, Nat.min_eq_left (Nat.le_of_not_lt hcap)]
    have hf' : Faces { s with
        handle := { s.handle with probed := (false, 0) },
        call := some (.receive (.payload m.length) .reset) } (false, 0)
        (m :: publications closed q) := ⟨rfl, hf.closedRd, hf.toManage, hf.stream⟩
    have hholds : Stock true { s.handle with probed := (false, 0) } .idle := by
      cases hstock with
      | empty hflag hm => exact .empty hflag hm
      | given hflag hm htom => exact .given hflag hm htom
    exact ⟨⟨nofun, hunread.symm⟩, ⟨⟨hu.deleted, hu.counter, hu.topics, hu.sendable⟩,
      .taking m q .reset rfl hpass hs hf' hholds⟩, Nat.le_refl 3⟩

/-- The end of a call that has read a header. -/
theorem headerRead_goesOn (hunread : s.unread = t.unread) (hu : s.Usable) (hpass : s.pass = .idle) {pr : Bool × Nat}
    {ps : List Bytes} (hf : s.Faces pr ps) {p : Bytes} (hp : publications closed s.unread = p :: ps)
    (hstock : Stock true s.handle .idle) (cap : Option Nat) : t.GoesOn closed (s.headerRead cap (Words.ofBE p)) 3 := by
  by_cases hs : s.unread = []
  · rw [hs] at hp
    cases closed with
    | false => cases hp
    | true =>
      obtain ⟨rfl, hnil⟩ := List.cons.inj hp
      have hzero : Words.ofBE (List.replicate sizeofSizeT 0) = 0 := by decide
      have hend : t.unread = [] := hunread.symm.trans hs
      have hclose : ({ s.handle with probed := (true, 0) } : HandleMQTT).close false true =
          { s.handle with probed := (true, 0), closedRd := true, toManage := none } := close_rd hu.counter
      unfold headerRead
      dsimp only
      rw [hzero, if_pos rfl, hclose]
      refine ⟨⟨?_, ?_⟩, ⟨⟨hu.deleted, hu.counter, hu.topics, hu.sendable⟩, .ended rfl hpass rfl rfl rfl hs rfl⟩,
        Nat.zero_le 3⟩
      · rintro x hx
        cases cap <;> cases hx <;> exact ⟨hend, rfl⟩
      · cases cap <;> exact hunread.symm
  · obtain ⟨m, q, hs⟩ := List.exists_cons_of_ne_nil hs
    rw [hs, publications_cons] at hp
    obtain ⟨rfl, rfl⟩ := List.cons.inj hp
    obtain ⟨hne, hlt⟩ := hu.sendable m (hs ▸ List.mem_cons_self ..)
    have hlen : m.length ≠ 0 := fun e => hne (List.length_eq_zero_iff.1 e)
    have hval : Words.ofBE (Words.toBE sizeofSizeT m.length) = m.length := Words.ofBE_toBE hlt
    have hu' : ({ s with handle := { s.handle with probed := (true, m.length) }, call := none } : MqttReader).Usable :=
      ⟨hu.deleted, hu.counter, hu.topics, hu.sendable⟩
    have hf' : Faces { s with handle := { s.handle with probed := (true, m.length) }, call := none } (true, m.length)
        (m :: publications closed q) := ⟨rfl, hf.closedRd, hf.toManage, hf.stream⟩
    have hstock' : Stock true { s.handle with probed := (true, m.length) } .idle := by
      cases hstock with
      | empty hflag hm => exact .empty hflag hm
      | given hflag hm htom => exact .given hflag hm htom
    unfold headerRead
    dsimp only
    rw [hval, if_neg hlen]
    cases cap with
    | none =>
      refine ⟨⟨?_, hunread.symm⟩, ⟨hu', .payload m q rfl hs hf' (hpass ▸ hstock')⟩, Nat.zero_le 3⟩
      rintro _ ⟨⟩
      exact ⟨m, q, hunread.symm.trans hs, rfl⟩
    | some cap =>
      exact startPayload_goesOn (s := { s with
        handle := { s.handle with probed := (true, m.length) }, call := none }) hunread hu'
        rfl hpass hs hf' hstock' cap

/-! ### The start of a call -/

theorem startProbe_goesOn (hI : s.Inv closed) (hcall : s.call = none) (hpass : s.pass = .idle) (blocking : Bool) :
    s.GoesOn closed (s.startProbe blocking) 7 := by
  unfold startProbe
  have hzero : s.left ≤ 7 := by
    rw [left_of_none hcall]
    exact Nat.zero_le 7
  cases hI.phase with
  | header _ hf hstock =>
    rw [hf.probed, hf.closedRd]
    exact ⟨⟨nofun, rfl⟩, ⟨⟨hI.usable.1, hI.usable.2, hI.usable.3, hI.usable.4⟩,
      .probing _ rfl hpass ⟨hf.1, hf.2, hf.3, hf.4⟩ (hpass ▸ hstock)⟩, Nat.le_refl 7⟩
  | payload m q _ hunread hf =>
    have hne : m.length ≠ 0 := fun e =>
      (hI.usable.sendable m (hunread ▸ List.mem_cons_self ..)).1 (List.length_eq_zero_iff.1 e)
    rw [hf.probed, if_pos rfl, if_neg hne]
    refine ⟨⟨?_, rfl⟩, hI, hzero⟩
    rintro _ ⟨⟩
    exact ⟨m, q, hunread, rfl⟩
  | probing _ hcall' => cases hcall.symm.trans hcall'
  | taking _ _ _ hcall' => cases hcall.symm.trans hcall'
  | ended _ _ hprobed _ _ hunread heos =>
    rw [hprobed, if_pos rfl]
    refine ⟨⟨?_, rfl⟩, hI, hzero⟩
    rintro _ ⟨⟩
    exact ⟨hunread, heos⟩

theorem startReceive_goesOn (hI : s.Inv closed) (hcall : s.call = none) (hpass : s.pass = .idle) (cap : Nat) :
    s.GoesOn closed (s.startReceive cap) 7 := by
  unfold startReceive
  cases hI.phase with
  | header _ hf hstock =>
    rw [hf.probed, hf.closedRd]
    exact ⟨⟨nofun, rfl⟩, ⟨⟨hI.usable.1, hI.usable.2, hI.usable.3, hI.usable.4⟩,
      .probing _ rfl hpass ⟨hf.1, hf.2, hf.3, hf.4⟩ (hpass ▸ hstock)⟩, Nat.le_refl 7⟩
  | payload m q _ hunread hf hstock =>
    rw [hf.probed, hf.closedRd]
    obtain ⟨hwell, hinv, hleft⟩ := startPayload_goesOn rfl hI.usable hcall hpass hunread hf (hpass ▸ hstock) cap
    exact ⟨hwell, hinv, Nat.le_trans hleft (by decide)⟩
  | probing _ hcall' => cases hcall.symm.trans hcall'
  | taking _ _ _ hcall' => cases hcall.symm.trans hcall'
  | ended _ _ hprobed hrd _ hunread heos =>
    rw [hprobed, hrd]
    refine ⟨⟨?_, rfl⟩, hI, (Nat.le_of_eq (left_of_none hcall)).trans (Nat.zero_le 7)⟩
    rintro _ ⟨⟩
    exact ⟨hunread, heos⟩

/-! ### The steps of a call -/

private theorem stream_messages {m : Bytes} {ms ps : List Bytes} (hs : s.stream = ps) (hpass : s.pass = .idle)
    (hm : s.handle.messages = m :: ms) : m :: (ms ++ s.handle.client.map Prod.snd ++ s.coming) = ps := by
  rw [← hs, stream, hm, hpass, Pass.hand, List.append_nil]
  rfl

private theorem stream_client {x : Bytes × Bytes} {client : List (Bytes × Bytes)} {ps : List Bytes} (hs : s.stream = ps)
    (hpass : s.pass = .idle) (hm : s.handle.messages = []) (hc : s.handle.client = x :: client) :
    x.2 :: (client.map Prod.snd ++ s.coming) = ps := by
  rw [← hs, stream, hm, hpass, hc]
  rfl

/-- A call that can go on finds something at the client, when the manager has queued nothing. -/
private theorem client_of_ready (hready : s.Ready closed) (hpass : s.pass = .idle)
    (hm : s.handle.messages = []) {p : Bytes} {ps : List Bytes} (hs : s.stream = p :: ps) :
    s.handle.client ≠ [] := by
  intro hc
  rw [stream, hm, hpass, hc, hready.2.1] at hs
  cases hs

/-- Of the messages that are still to come there is a publication. -/
private theorem publications_of_ready (hready : s.Ready closed) : ∃ p ps, publications closed s.unread = p :: ps := by
  rcases hready.2.2 with hne | rfl
  · obtain ⟨m, q, hq⟩ := List.exists_cons_of_ne_nil hne
    rw [hq]
    exact ⟨_, _, publications_cons closed m q⟩
  · cases s.unread with
    | nil => exact ⟨_, _, rfl⟩
    | cons m q => exact ⟨_, _, publications_cons true m q⟩

/-- What a step of the call in progress does. -/
def Turns (g : Nat → UInt8) (closed : Bool) (s : MqttReader) (c : Ongoing) : Prop :=
  ∃ a s', s.turn g c = .ok (a, s') ∧ s.Well closed a s' ∧ s'.Inv closed ∧ (s.Ready closed → s'.left < s.left)

private theorem GoesOn.turns {c : Ongoing} {x : Option MqttAnswer × MqttReader} {n : Nat} (h : s.GoesOn closed x n)
    (hturn : s.turn g c = .ok x) (hleft : n < s.left) : s.Turns g closed c :=
  ⟨x.1, x.2, hturn, h.well, h.inv, fun _ => Nat.lt_of_le_of_lt h.left hleft⟩

section

variable (hu : s.Usable) (hpass : s.pass = .idle)

include hu hpass

private theorem header_of_messages (hf : s.Faces (false, 0) (publications closed s.unread))
    (hflag : s.handle.isProbed = true) {m : Bytes} (hm : s.handle.messages = [m]) (cap : Option Nat) :
    s.GoesOn closed (({ s with handle := { s.handle with messages := [] } } : MqttReader).headerRead cap
      (Words.ofBE m)) 3 := by
  have hs := (stream_messages hf.stream hpass hm).symm
  refine headerRead_goesOn (s := { s with handle := { s.handle with messages := [] } }) (t := s) rfl
    ⟨hu.deleted, hu.counter, hu.topics, hu.sendable⟩ hpass ⟨hf.probed, hf.closedRd, hf.toManage, ?_⟩ hs
      (.empty hflag rfl) cap
  rw [stream, hpass]
  rfl

private theorem header_of_client (hf : s.Faces (false, 0) (publications closed s.unread)) (hm : s.handle.messages = [])
    {x : Bytes × Bytes} {client : List (Bytes × Bytes)} (hc : s.handle.client = x :: client) (cap : Option Nat) :
    s.GoesOn closed (({ s with handle := { s.handle with client := client, isProbed := true } } :
      MqttReader).headerRead cap (Words.ofBE x.2)) 3 := by
  have hs := (stream_client hf.stream hpass hm hc).symm
  refine headerRead_goesOn (s := { s with handle := { s.handle with client := client, isProbed := true } }) (t := s) rfl
    ⟨hu.deleted, hu.counter, fun y hy => hu.topics y (hc ▸ List.mem_cons_of_mem _ hy), hu.sendable⟩ hpass
    ⟨hf.probed, hf.closedRd, hf.toManage, ?_⟩ hs (.empty rfl hm) cap
  rw [stream, hpass, hm]
  rfl

end

private theorem probing_turns (hu : s.Usable) (hpass : s.pass = .idle) {c : Ongoing} (hcall : s.call = some c)
    (hf : s.Faces (false, 0) (publications closed s.unread)) (hfinds : Finds s.handle c) : s.Turns g closed c := by
  have hinv : ∀ {c'}, Finds s.handle c' → Inv closed { s with call := some c' } := fun hfinds' =>
    ⟨⟨hu.1, hu.2, hu.3, hu.4⟩, .probing _ rfl hpass ⟨hf.1, hf.2, hf.3, hf.4⟩ hfinds'⟩
  cases c with
  | test cap blocking =>
    have hleft : s.left = 7 := left_of_call hcall
    have hfirst : s.handle.isProbed = true → s.handle.messages.length = 1 → s.Turns g closed (.test cap blocking) := by
      intro hflag hone
      obtain ⟨m, hm⟩ := List.length_eq_one_iff.1 hone
      refine (header_of_messages hu hpass hf hflag hm cap).turns ?_ (by omega)
      rw [turn, if_pos hflag, hm]
      dsimp only
      rw [fromCStr_first (stream_messages hf.stream hpass hm).symm]
      rfl
    cases hfinds with
    | given hflag hone => exact hfirst hflag hone
    | empty hflag hm =>
      have hturn : s.turn g (.test cap blocking) =
          .ok (none, { s with call := some (if blocking then .receive (.header cap) .reset else .attempt cap) }) := by
        rw [turn, if_neg (by rw [hflag]; decide)]
      refine ⟨_, _, hturn, ⟨nofun, rfl⟩, hinv ?_, fun _ => ?_⟩
      · cases blocking <;> exact ⟨hflag, hm⟩
      · rw [hleft]
        cases blocking <;> exact Nat.le_refl 7
  | attempt cap =>
    obtain ⟨hflag, hm⟩ := hfinds
    have hleft : s.left = 6 := left_of_call hcall
    cases hc : s.handle.client with
    | nil =>
      refine ⟨some (.probed (.error .EWOULDBLOCK) 0), { s with call := none }, ?_, ⟨?_, rfl⟩, ?_, fun _ => ?_⟩
      · rw [turn, hc]
      · rintro _ ⟨⟩
        exact ⟨rfl, hc⟩
      · exact ⟨⟨hu.1, hu.2, hu.3, hu.4⟩, .header rfl ⟨hf.1, hf.2, hf.3, hf.4⟩ (hpass ▸ .empty hflag hm)⟩
      · rw [hleft]
        exact Nat.succ_pos 5
    | cons x client =>
      refine (header_of_client hu hpass hf hm hc cap).turns ?_ (by omega)
      rw [turn, hc]
      dsimp only
      rw [fromCStr_first (stream_client hf.stream hpass hm hc).symm]
      rfl
  | receive x p =>
    cases x with
    | payload size => exact absurd hfinds id
    | header cap =>
      obtain ⟨hflag, hm⟩ := hfinds
      cases p with
      | reset =>
        have hsame : ({ s.handle with isProbed := false } : HandleMQTT) = s.handle := by rw [← hflag]
        refine ⟨none, { s with call := some (.receive (.header cap) .look) }, ?_, ⟨nofun, rfl⟩,
          hinv ⟨hflag, hm⟩, fun _ => ?_⟩
        · rw [turn, HandleMQTT.receiveStep, hsame]
          rfl
        · rw [left_of_call hcall]
          exact Nat.lt_succ_self _
      | look =>
        refine ⟨none, { s with call := some (.receive (.header cap) .take) }, ?_, ⟨nofun, rfl⟩,
          hinv ⟨hflag, hm⟩, fun _ => ?_⟩
        · rw [turn, HandleMQTT.look_empty hm]
          rfl
        · rw [left_of_call hcall]
          exact Nat.lt_succ_self _
      | take =>
        cases hc : s.handle.client with
        | nil =>
          refine ⟨none, { s with call := some (.receive (.header cap) .look) }, ?_, ⟨nofun, rfl⟩,
            hinv ⟨hflag, hm⟩, fun hready => ?_⟩
          · rw [turn, HandleMQTT.take_empty hc]
            rfl
          · obtain ⟨p, ps, hps⟩ := publications_of_ready hready
            exact absurd hc (client_of_ready hready hpass hm (hf.stream.trans hps))
        | cons x client =>
          have hleft : s.left = 4 := left_of_call hcall
          have hfirst := (stream_client hf.stream hpass hm hc).symm
          have htopic : x.1 = s.handle.inTopic := hu.topics x (hc ▸ List.mem_cons_self ..)
          have hstep := HandleMQTT.take_first (h := s.handle) (p := x.2) (c := client) (by rw [hc, ← htopic])
          rw [length_of_first hfirst] at hstep
          refine (header_of_client hu hpass hf hm hc cap).turns ?_ (by omega)
          have hover := overlay_full g x.2
          rw [length_of_first hfirst] at hover
          rw [turn, Waits.size, hstep, bind_ok]
          dsimp only
          rw [finish, hover]
          rfl

private theorem taking_turns (hu : s.Usable) (hpass : s.pass = .idle) {m : Bytes} {q : List Bytes} {p : Point}
    (hcall : s.call = some (.receive (.payload m.length) p)) (hunread : s.unread = m :: q)
    (hf : s.Faces (false, 0) (m :: publications closed q)) (hholds : Holds s.handle p) :
    s.Turns g closed (.receive (.payload m.length) p) := by
  have hinv : ∀ {p' : Point} {flag : Bool}, Holds { s.handle with isProbed := flag } p' →
      Inv closed { s with
        handle := { s.handle with isProbed := flag }, call := some (.receive (.payload m.length) p') } := fun hholds' =>
    ⟨⟨hu.1, hu.2, hu.3, hu.4⟩, .taking m q _ rfl hpass hunread ⟨hf.1, hf.2, hf.3, hf.4⟩ hholds'⟩
  -- the call returns the payload
  have hreturn : ∀ {ms : List Bytes} {client : List (Bytes × Bytes)}, s.handle.isProbed = false →
      s.handle.receiveStep m.length p = .ok (.inl (m.length, m), { s.handle with messages := ms, client := client }) →
      ms = [] → client.map Prod.snd ++ s.coming = publications closed q → (∀ x ∈ client, x.1 = s.handle.inTopic) →
      s.Turns g closed (.receive (.payload m.length) p) := by
    intro ms client hflag hstep hms hrest htopics
    obtain ⟨hne, -⟩ := hu.sendable m (hunread ▸ List.mem_cons_self ..)
    obtain ⟨n, hn⟩ := Nat.exists_eq_succ_of_ne_zero fun e => hne (List.length_eq_zero_iff.1 e)
    refine ⟨some (.received (.ok m.length) m), { s with
      handle := { s.handle with messages := ms, client := client }, call := none,
      unread := s.unread.tail }, ?_, ⟨?_, ?_⟩, ?_, fun _ => ?_⟩
    · rw [turn, Waits.size, hstep]
      rfl
    · rintro _ ⟨⟩
      rw [hn]
      exact ⟨q, hunread, hn.symm⟩
    · rw [hn, hunread]
      rfl
    · refine ⟨⟨hu.deleted, hu.counter, htopics, fun m' hm' => hu.sendable m' (List.mem_of_mem_tail hm')⟩, ?_⟩
      refine .header rfl ⟨hf.probed, hf.closedRd, hf.toManage, ?_⟩ (hpass ▸ .empty hflag hms)
      rw [stream, hpass, hms, hunread]
      exact hrest
    · rw [left_of_call hcall]
      cases p <;> exact Nat.succ_pos _
  cases p with
  | reset =>
    refine ⟨none,
      { s with handle := { s.handle with isProbed := false }, call := some (.receive (.payload m.length) .look) },
      rfl, ⟨nofun, rfl⟩, hinv ⟨rfl, ?_⟩, fun _ => ?_⟩
    · cases hholds with
      | empty _ hm =>
        show s.handle.messages.length ≤ 1
        rw [hm]
        exact Nat.zero_le 1
      | given _ hone => exact Nat.le_of_eq hone
    · rw [left_of_call hcall]
      exact Nat.lt_succ_self _
  | look =>
    obtain ⟨hflag, hle⟩ := hholds
    cases hm : s.handle.messages with
    | nil =>
      have hsame : ({ s.handle with isProbed := false } : HandleMQTT) = s.handle := by rw [← hflag]
      refine ⟨none, { s with call := some (.receive (.payload m.length) .take) }, ?_, ⟨nofun, rfl⟩, ?_, fun _ => ?_⟩
      · rw [turn, HandleMQTT.look_empty hm]
        rfl
      · rw [← hsame]
        exact hinv ⟨rfl, hm⟩
      · rw [left_of_call hcall]
        exact Nat.lt_succ_self _
    | cons m' ms =>
      have hnil : ms = [] := by
        rw [hm] at hle
        exact List.length_eq_zero_iff.1 (by simpa using hle)
      obtain ⟨rfl, hrest⟩ := List.cons.inj (stream_messages hf.stream hpass hm)
      rw [hnil] at hrest
      exact hreturn hflag (HandleMQTT.look_queued hm) hnil hrest hu.topics
  | take =>
    obtain ⟨hflag, hm⟩ := hholds
    have hsame : ({ s.handle with isProbed := false } : HandleMQTT) = s.handle := by rw [← hflag]
    cases hc : s.handle.client with
    | nil =>
      refine ⟨none, { s with call := some (.receive (.payload m.length) .look) }, ?_, ⟨nofun, rfl⟩, ?_,
        fun hready => ?_⟩
      · rw [turn, HandleMQTT.take_empty hc]
        rfl
      · rw [← hsame]
        refine hinv ⟨rfl, ?_⟩
        show s.handle.messages.length ≤ 1
        rw [hm]
        exact Nat.zero_le 1
      · exact absurd hc (client_of_ready hready hpass hm hf.stream)
    | cons x client =>
      obtain ⟨topic, p⟩ := x
      obtain ⟨rfl, hrest⟩ := List.cons.inj (stream_client hf.stream hpass hm hc)
      have htopic : topic = s.handle.inTopic := hu.topics _ (hc ▸ List.mem_cons_self ..)
      have hstep := HandleMQTT.take_first (h := s.handle) (c := client) (by rw [hc, htopic])
      exact hreturn hflag hstep hm hrest fun y hy => hu.topics y (hc ▸ List.mem_cons_of_mem _ hy)

/-- A step of the call in progress. -/
theorem turn_well (hI : s.Inv closed) {c : Ongoing} (hcall : s.call = some c) : s.Turns g closed c := by
  obtain ⟨hu, hp⟩ := hI
  cases hp with
  | header hcall' => cases hcall.symm.trans hcall'
  | payload _ _ hcall' => cases hcall.symm.trans hcall'
  | ended hcall' => cases hcall.symm.trans hcall'
  | probing c' hcall' hpass hf hfinds =>
    cases hcall.symm.trans hcall'
    exact probing_turns hu hpass hcall hf hfinds
  | taking m q p hcall' hpass hunread hf hholds =>
    cases hcall.symm.trans hcall'
    exact taking_turns hu hpass hcall hunread hf hholds

/-! ### The other operations -/

/-- What is left in the handle does not depend on its entry, nor on what has come to its client. -/
private theorem Stock.congr {flag : Bool} {h h' : HandleMQTT} {x : Pass} (hs : Stock flag h x)
    (hflag : h'.isProbed = h.isProbed) (hm : h'.messages = h.messages)
    (htom : h.isProbed = true → h'.toManage = h.toManage) : Stock flag h' x := by
  cases hs with
  | empty h1 h2 => exact .empty (hflag.trans h1) (hm.trans h2)
  | taken h1 h2 => exact .taken (hflag.trans h1) (hm.trans h2)
  | flagged h1 h2 => exact .flagged (hflag.trans h1) (hm.trans h2)
  | queued h1 h2 => exact .queued (hflag.trans h1) (hm ▸ h2)
  | given h1 h2 h3 => exact .given (hflag.trans h1) (hm ▸ h2) ((htom h1).trans h3)

private theorem Finds.congr {h h' : HandleMQTT} {c : Ongoing} (hs : Finds h c) (hflag : h'.isProbed = h.isProbed)
    (hm : h'.messages = h.messages) (htom : h.isProbed = true → h'.toManage = h.toManage) : Finds h' c := by
  cases c with
  | test cap blocking => exact Stock.congr hs hflag hm htom
  | attempt cap => exact ⟨hflag.trans hs.1, hm.trans hs.2⟩
  | receive x p =>
    cases x with
    | header cap => exact ⟨hflag.trans hs.1, hm.trans hs.2⟩
    | payload size => exact hs

private theorem Holds.congr {h h' : HandleMQTT} {p : Point} (hs : Holds h p) (hflag : h'.isProbed = h.isProbed)
    (hm : h'.messages = h.messages) (htom : h.isProbed = true → h'.toManage = h.toManage) : Holds h' p := by
  cases p with
  | reset => exact Stock.congr hs hflag hm htom
  | look => exact ⟨hflag.trans hs.1, hm ▸ hs.2⟩
  | take => exact ⟨hflag.trans hs.1, hm.trans hs.2⟩

private theorem Phase.congr {h : HandleMQTT} {ps : List Bytes} (hp : s.Phase closed)
    (hflag : h.isProbed = s.handle.isProbed) (hm : h.messages = s.handle.messages)
    (htom : h.isProbed = true → h.toManage = s.handle.toManage) (hprobed : h.probed = s.handle.probed)
    (hrd : h.closedRd = s.handle.closedRd) (hnone : h.toManage = none ↔ s.handle.toManage = none)
    (hs : h.client.map Prod.snd ++ ps = s.handle.client.map Prod.snd ++ s.coming) :
    ({ s with handle := h, coming := ps } : MqttReader).Phase closed := by
  have hfaces : ∀ {pr l}, s.Faces pr l → Faces { s with handle := h, coming := ps } pr l := by
    intro pr l hf
    refine ⟨hprobed.trans hf.probed, hrd.trans hf.closedRd, fun e => hf.toManage (hnone.1 e), ?_⟩
    rw [← hf.stream, stream, stream, hm, List.append_assoc, hs, ← List.append_assoc]
  have htom' : s.handle.isProbed = true → h.toManage = s.handle.toManage := fun e => htom (hflag.trans e)
  cases hp with
  | header hcall hf hstock => exact .header hcall (hfaces hf) (hstock.congr hflag hm htom')
  | probing c hcall hpass hf hfinds => exact .probing c hcall hpass (hfaces hf) (hfinds.congr hflag hm htom')
  | payload m q hcall hunread hf hstock => exact .payload m q hcall hunread (hfaces hf) (hstock.congr hflag hm htom')
  | taking m q p hcall hpass hunread hf hholds =>
    exact .taking m q p hcall hpass hunread (hfaces hf) (hholds.congr hflag hm htom')
  | ended hcall hpass hpr hclosed hentry hunread heos =>
    exact .ended hcall hpass (hprobed.trans hpr) (hrd.trans hclosed) (hnone.2 hentry) hunread heos

theorem unread_arrive : s.arrive.unread = s.unread := by
  unfold MqttReader.arrive
  split <;> rfl

/-- What has come to the client is no more to come. -/
theorem Inv.arrive (hI : s.Inv closed) : s.arrive.Inv closed := by
  unfold MqttReader.arrive
  cases hc : s.coming with
  | nil => exact hI
  | cons p ps =>
    obtain ⟨hu, hp⟩ := hI
    refine ⟨⟨hu.deleted, hu.counter, fun x hx => ?_, hu.sendable⟩, hp.congr rfl rfl (fun _ => rfl) rfl rfl Iff.rfl ?_⟩
    · rcases List.mem_append.1 hx with hx | hx
      · exact hu.topics x hx
      · rw [List.mem_singleton.1 hx]
    · rw [hc, List.map_append, List.append_assoc]
      rfl

/-- `Handle::yield` and `notify_yield`. -/
theorem Inv.yield (hI : s.Inv closed) :
    ∃ h, (mqttHandle g).yield s.handle = .ok h ∧ ({ s with handle := h } : MqttReader).Inv closed := by
  obtain ⟨hu, hp⟩ := hI
  have hderef : s.handle.deref = .ok s.handle := by
    unfold HandleMQTT.deref
    rw [hu.deleted]
    rfl
  change ∃ h, (s.handle.deref >>= _) = .ok h ∧ _
  rw [hderef, bind_ok]
  by_cases hrd : s.handle.closedRd = true
  · rw [if_pos hrd]
    exact ⟨s.handle, rfl, hu, hp⟩
  · rw [if_neg hrd]
    unfold HandleMQTT.notifyYield
    by_cases hflag : s.handle.isProbed = true
    · rw [if_pos hflag]
      exact ⟨_, rfl, ⟨hu.deleted, hu.counter, hu.topics, hu.sendable⟩,
        hp.congr rfl rfl (fun _ => rfl) rfl rfl Iff.rfl rfl⟩
    · rw [if_neg hflag]
      have hentry : s.handle.toManage ≠ none := by
        cases hp with
        | header _ hf => exact hf.toManage
        | probing _ _ _ hf => exact hf.toManage
        | payload _ _ _ _ hf => exact hf.toManage
        | taking _ _ _ _ _ _ hf => exact hf.toManage
        | ended _ _ _ hclosed => exact absurd hclosed hrd
      obtain ⟨b, hb⟩ := Option.ne_none_iff_exists'.1 hentry
      rw [hb]
      refine ⟨_, rfl, ⟨hu.deleted, hu.counter, hu.topics, hu.sendable⟩,
        hp.congr rfl rfl (fun e => absurd e hflag) rfl rfl ?_ rfl⟩
      rw [hb]
      exact ⟨nofun, nofun⟩

/-- A pass that finds nothing to take does nothing. -/
theorem update_idle (hpass : s.pass = .idle) (h : s.handle.toManage = some true → s.handle.client = []) :
    s.update = s := by
  unfold MqttReader.update
  rw [hpass]
  dsimp only
  by_cases htom : s.handle.toManage = some true
  · rw [if_pos htom, h htom]
  · rw [if_neg htom]

/-- A pass that finds something has it in its hand. -/
theorem update_take (hpass : s.pass = .idle) (htom : s.handle.toManage = some true) {x : Bytes × Bytes}
    {client : List (Bytes × Bytes)} (hc : s.handle.client = x :: client) :
    s.update = { s with handle := { s.handle with client := client }, pass := .taken x.2 } := by
  unfold MqttReader.update
  rw [hpass]
  dsimp only
  rw [if_pos htom, hc]

/-- What a step of a pass leaves in the handle, outside of a call. -/
private theorem stock_update {flag : Bool} (hstock : Stock flag s.handle s.pass) :
    Stock flag s.update.handle s.update.pass := by
  cases hpass : s.pass with
  | idle =>
    by_cases h : s.handle.toManage = some true → s.handle.client = []
    · rw [update_idle hpass h]
      exact hstock
    · obtain ⟨htom, hc⟩ := Classical.not_imp.1 h
      obtain ⟨x, client, hc⟩ := List.exists_cons_of_ne_nil hc
      rw [update_take hpass htom hc]
      rw [hpass] at hstock
      cases hstock with
      | empty hflag hm => exact .taken hflag hm
      | given _ _ hgiven => cases htom.symm.trans hgiven
  | taken p =>
    rw [hpass] at hstock
    unfold MqttReader.update
    rw [hpass]
    cases hstock with
    | taken _ hm => exact .flagged rfl hm
  | flagged p =>
    rw [hpass] at hstock
    unfold MqttReader.update
    rw [hpass]
    cases hstock with
    | flagged hflag hm =>
      refine .queued hflag ?_
      show (s.handle.messages ++ [p]).length = 1
      rw [hm]
      rfl
  | queued =>
    rw [hpass] at hstock
    unfold MqttReader.update
    rw [hpass]
    cases hstock with
    | queued hflag hone => exact .given hflag hone rfl

private theorem faces_update {pr : Bool × Nat} {ps : List Bytes} (hf : s.Faces pr ps) : s.update.Faces pr ps := by
  have hs := hf.stream
  cases hpass : s.pass with
  | idle =>
    by_cases h : s.handle.toManage = some true → s.handle.client = []
    · rw [update_idle hpass h]
      exact hf
    · obtain ⟨htom, hc⟩ := Classical.not_imp.1 h
      obtain ⟨x, client, hc⟩ := List.exists_cons_of_ne_nil hc
      rw [update_take hpass htom hc]
      refine ⟨hf.probed, hf.closedRd, hf.toManage, ?_⟩
      rw [← hs, stream, stream, hpass, hc]
      simp only [Pass.hand, List.map_cons, List.append_assoc, List.nil_append, List.singleton_append]
  | taken p =>
    unfold MqttReader.update
    rw [hpass]
    refine ⟨hf.probed, hf.closedRd, hf.toManage, ?_⟩
    rw [← hs, stream, stream, hpass]
    rfl
  | flagged p =>
    unfold MqttReader.update
    rw [hpass]
    refine ⟨hf.probed, hf.closedRd, hf.toManage, ?_⟩
    rw [← hs, stream, stream, hpass]
    simp only [Pass.hand, List.append_nil]
  | queued =>
    unfold MqttReader.update
    rw [hpass]
    refine ⟨hf.probed, hf.closedRd, nofun, ?_⟩
    rw [← hs, stream, stream, hpass]
    rfl

private theorem update_frame (s : MqttReader) : s.update.call = s.call ∧ s.update.unread = s.unread ∧
    s.update.handle.deleted = s.handle.deleted ∧ s.update.handle.counter = s.handle.counter ∧
    s.update.handle.inTopic = s.handle.inTopic ∧ ∀ x ∈ s.update.handle.client, x ∈ s.handle.client := by
  unfold MqttReader.update
  split
  · split
    · split
      · exact ⟨rfl, rfl, rfl, rfl, rfl, fun _ => id⟩
      · rename_i hc
        exact ⟨rfl, rfl, rfl, rfl, rfl, fun x hx => hc ▸ List.mem_cons_of_mem _ hx⟩
    · exact ⟨rfl, rfl, rfl, rfl, rfl, fun _ => id⟩
  · exact ⟨rfl, rfl, rfl, rfl, rfl, fun _ => id⟩
  · exact ⟨rfl, rfl, rfl, rfl, rfl, fun _ => id⟩
  · exact ⟨rfl, rfl, rfl, rfl, rfl, fun _ => id⟩

/-- A step of a pass that keeps apart from the calls. -/
theorem Inv.update (hI : s.Inv closed) (hapart : s.Apart .update) : s.update.Inv closed := by
  obtain ⟨hu, hp⟩ := hI
  obtain ⟨hcall', hunread', hdel, hcount, htopic, hclient⟩ := update_frame s
  have hu' : s.update.Usable := by
    refine ⟨hdel.trans
      hu.deleted, by rw [hcount]; exact hu.counter, fun x hx => ?_, by rw [hunread']; exact hu.sendable⟩
    rw [htopic]
    exact hu.topics x (hclient x hx)
  have hbusy : s.call ≠ none → s.pass = .idle → s.update.Inv closed := by
    intro hne hpass
    rw [update_idle hpass (hapart hne)]
    exact ⟨hu, hp⟩
  cases hp with
  | header hcall hf hstock =>
    exact ⟨hu', .header (hcall'.trans hcall) (by rw [hunread']; exact faces_update hf) (stock_update hstock)⟩
  | payload m q hcall hunread hf hstock =>
    exact ⟨hu', .payload m q (hcall'.trans hcall) (hunread'.trans hunread) (faces_update hf) (stock_update hstock)⟩
  | probing c hcall hpass => exact hbusy (by rw [hcall]; exact Option.some_ne_none _) hpass
  | taking _ _ _ hcall hpass => exact hbusy (by rw [hcall]; exact Option.some_ne_none _) hpass
  | ended hcall hpass hprobed hrd hnone hunread heos =>
    rw [update_idle hpass fun htom => nomatch hnone.symm.trans htom]
    exact ⟨hu, .ended hcall hpass hprobed hrd hnone hunread heos⟩

/-- One operation. -/
theorem correct_of_apart (hI : s.Inv closed) {o : Op} (hapart : s.Apart o) :
    s.Correct g closed o ∧ ∀ a s', step g o s = .ok (a, s') → s'.Inv closed := by
  have hall : ∃ a s', step g o s = .ok (a, s') ∧ s.Well closed a s' ∧ s'.Inv closed ∧
      (o = .poll → s.Ready closed → s'.left < s.left) := by
    cases o with
    | arrive => exact ⟨none, _, rfl, ⟨nofun, unread_arrive.symm⟩, hI.arrive, nofun⟩
    | update => exact ⟨none, _, rfl, ⟨nofun, (update_frame s).2.1.symm⟩, hI.update hapart, nofun⟩
    | yield =>
      by_cases hpass : s.pass = .idle
      · obtain ⟨h, hcall, hinv⟩ := hI.yield (g := g)
        refine ⟨none, { s with handle := h }, ?_, ⟨nofun, rfl⟩, hinv, nofun⟩
        rw [step, if_pos hpass, hcall]
        rfl
      · exact ⟨none, s, if_neg hpass, ⟨nofun, rfl⟩, hI, nofun⟩
    | probe blocking =>
      by_cases hcall : s.call = none
      · obtain ⟨hwell, hinv, -⟩ := startProbe_goesOn hI hcall hapart blocking
        exact ⟨_, _, if_pos hcall, hwell, hinv, nofun⟩
      · exact ⟨none, s, if_neg hcall, ⟨nofun, rfl⟩, hI, nofun⟩
    | receive cap =>
      by_cases hcall : s.call = none
      · obtain ⟨hwell, hinv, -⟩ := startReceive_goesOn hI hcall hapart cap
        exact ⟨_, _, if_pos hcall, hwell, hinv, nofun⟩
      · exact ⟨none, s, if_neg hcall, ⟨nofun, rfl⟩, hI, nofun⟩
    | poll =>
      cases hcall : s.call with
      | none =>
        have hstep : step g .poll s = .ok (none, s) := by
          rw [step, hcall]
        exact ⟨none, s, hstep, ⟨nofun, rfl⟩, hI, fun _ hready => absurd hcall hready.1⟩
      | some c =>
        obtain ⟨a, s', hturn, hwell, hinv, hgo⟩ := turn_well (g := g) hI hcall
        have hstep : step g .poll s = .ok (a, s') := by
          rw [step, hcall]
          exact hturn
        exact ⟨a, s', hstep, hwell, hinv, fun _ => hgo⟩
  obtain ⟨a, s', hstep, hwell, hinv, hgo⟩ := hall
  refine ⟨⟨a, s', hstep, hwell, hgo⟩, fun a1 s1 hstep1 => ?_⟩
  cases hstep.symm.trans hstep1
  exact hinv

/-! ### Runs -/

/-- In a run of correct operations the messages that have been returned and those that have not been read are
all messages, in order. -/
theorem run_delivers {os : List Op} (h : Always (step g) (Correct g closed) os s) :
    ∃ as s', run (step g) os s = .ok (as, s') ∧ s.unread = as.flatMap delivered ++ s'.unread := by
  induction os generalizing s with
  | nil => exact ⟨[], s, rfl, rfl⟩
  | cons o os ih =>
    obtain ⟨⟨a, s1, hstep, hwell, -⟩, hnext⟩ := h
    obtain ⟨as, s', hrun, hall⟩ := ih (hnext a s1 hstep)
    refine ⟨a :: as, s', run_cons hstep hrun, ?_⟩
    rw [hwell.unread, hall, List.flatMap_cons, List.append_assoc]

/-- The states of a run that meets the condition. -/
theorem inv_of_run {os : List Op} (hI : s.Inv closed) (h : Always (step g) Apart os s) {as : List (Option MqttAnswer)}
    {s' : MqttReader} (hrun : run (step g) os s = .ok (as, s')) : s'.Inv closed := by
  induction os generalizing s as with
  | nil =>
    cases hrun
    exact hI
  | cons o os ih =>
    obtain ⟨hapart, hnext⟩ := h
    obtain ⟨a, s1, as', hstep, hrest, -⟩ := run_cons_eq_ok hrun
    exact ih ((correct_of_apart hI hapart).2 a s1 hstep) (hnext a s1 hstep) hrest

/-- A call looks for a payload in `messages`, and a pass can take it. -/
def Exposed (s : MqttReader) : Prop :=
  (∃ n, s.call = some (.receive (.payload n) .look)) ∧ s.handle.messages = [] ∧ s.handle.toManage = some true ∧
    s.handle.client ≠ []

/-- When the pass takes it then, the call returns it, and every later one looks for a header that nobody has queued. -/
def Misled (g : Nat → UInt8) (s : MqttReader) : Prop :=
  ∃ a s', run (step g) [.update, .update, .update, .update, .poll] s = .ok ([none, none, none, none, some a], s') ∧
    (∀ blocking, run (step g) [.probe blocking, .poll] s' = .error .undefined) ∧
    ∀ cap, run (step g) [.receive cap, .poll] s' = .error .undefined

private theorem front_of_empty (hcall : s.call = none) (hprobed : s.handle.probed = (false, 0))
    (hrd : s.handle.closedRd = false) (hflag : s.handle.isProbed = true) (hm : s.handle.messages = []) :
    (∀ blocking, run (step g) [.probe blocking, .poll] s = .error .undefined) ∧
      ∀ cap, run (step g) [.receive cap, .poll] s = .error .undefined := by
  have htest : ∀ cap blocking, run (step g) [.poll] { s with call := some (.test cap blocking) } =
    .error .undefined := by
    intro cap blocking
    have hturn : turn g { s with call := some (.test cap blocking) } (.test cap blocking) = .error .undefined := by
      rw [turn, if_pos hflag, hm]
    exact congrArg (· >>= _) hturn
  constructor
  · intro blocking
    have hstep : step g (.probe blocking) s = .ok (none, { s with call := some (.test none blocking) }) := by
      rw [step, if_pos hcall, startProbe, hprobed, hrd]
      rfl
    exact run_cons_error hstep (htest none blocking)
  · intro cap
    have hstep : step g (.receive cap) s = .ok (none, { s with call := some (.test (some cap) true) }) := by
      rw [step, if_pos hcall, startReceive, hprobed, hrd]
      rfl
    exact run_cons_error hstep (htest (some cap) true)

theorem misled_of_exposed (hI : s.Inv closed) (h : s.Exposed) : s.Misled g := by
  obtain ⟨⟨n, hcall⟩, hm, htom, hc⟩ := h
  obtain ⟨x, client, hc⟩ := List.exists_cons_of_ne_nil hc
  cases hI.phase with
  | header hcall' => cases hcall.symm.trans hcall'
  | payload _ _ hcall' => cases hcall.symm.trans hcall'
  | ended hcall' => cases hcall.symm.trans hcall'
  | probing c hcall' _ _ hfinds =>
    cases hcall.symm.trans hcall'
    exact absurd hfinds id
  | taking m q p hcall' hpass hunread hf =>
    cases hcall.symm.trans hcall'
    obtain ⟨rfl, -⟩ := List.cons.inj (stream_client hf.stream hpass hm hc)
    -- the handle behind the pass
    let h : HandleMQTT := { s.handle with
      client := client, isProbed := true, messages := s.handle.messages ++ [x.2], toManage := some false,
      ready := s.handle.ready + 1 }
    have hlook : h.receiveStep x.2.length .look = .ok (.inl (x.2.length, x.2), { h with messages := [] }) := by
      refine HandleMQTT.look_queued ?_
      show s.handle.messages ++ [x.2] = [x.2]
      rw [hm]
      rfl
    have hpoll : step g .poll { s with handle := h, pass := .idle } = .ok (some (.received (.ok x.2.length) x.2),
        { s with handle := { h with messages := [] }, pass := .idle, call := none, unread := s.unread.tail }) := by
      rw [step, hcall]
      show turn g { s with handle := h, pass := .idle } (.receive (.payload x.2.length) .look) = _
      rw [turn, Waits.size, hlook]
      rfl
    have htake : step g .update s =
        .ok (none, { s with handle := { s.handle with client := client }, pass := .taken x.2 }) := by
      rw [step, update_take hpass htom hc]
    exact ⟨_, _, run_cons htake (run_cons rfl (run_cons rfl (run_cons rfl (run_cons hpoll rfl)))),
      front_of_empty rfl hf.probed hf.closedRd rfl rfl⟩

/-! ### One owner -/

/-- A handle that has been yielded is not used until it is given back, and a call is not interrupted by a `yield`. -/
def Owned (s : MqttReader) : Op → Prop
  | .probe _ | .receive _ => s.handle.toManage ≠ some true
  | .yield => s.call = none
  | .arrive | .update | .poll => True

instance (s : MqttReader) : DecidablePred s.Owned
  | .probe _ | .receive _ => inferInstanceAs (Decidable (s.handle.toManage ≠ some true))
  | .yield => inferInstanceAs (Decidable (s.call = none))
  | .arrive | .update | .poll => isTrue trivial

/-- A handle is not managed during a call, and it is managed during a pass. -/
structure Held (s : MqttReader) : Prop where
  call : s.call ≠ none → s.handle.toManage ≠ some true
  pass : s.pass ≠ .idle → s.handle.toManage = some true

/-- The entry of the connector stays as it is, or it is erased; no pass makes a step. -/
structure Entry (s s' : MqttReader) : Prop where
  toManage : s'.handle.toManage = s.handle.toManage ∨ s'.handle.toManage = none
  pass : s'.pass = s.pass

theorem entry_startPayload (s : MqttReader) (cap : Nat) : s.Entry (s.startPayload cap).2 := by
  unfold startPayload
  dsimp only
  split
  · exact ⟨Or.inl rfl, rfl⟩
  · exact ⟨Or.inl rfl, rfl⟩

theorem toManage_close_rd (h : HandleMQTT) : (h.close false true).toManage = none := by
  change ((({ h with closedRd := true } : HandleMQTT).notifyClose true).deleteUnused).toManage = none
  unfold HandleMQTT.deleteUnused
  split <;> rfl

theorem entry_headerRead (s : MqttReader) (cap : Option Nat) (size : Nat) : s.Entry (s.headerRead cap size).2 := by
  unfold headerRead
  dsimp only
  split
  · exact ⟨Or.inr (toManage_close_rd _), rfl⟩
  · cases cap with
    | none => exact ⟨Or.inl rfl, rfl⟩
    | some cap =>
      obtain ⟨htom, hpass⟩ := entry_startPayload { s with
        handle := { s.handle with probed := (true, size) }, call := none } cap
      exact ⟨htom, hpass⟩

private theorem toManage_receiveStep {h h' : HandleMQTT} {size : Nat} {p : Point} {x : Sum (Nat × Bytes) Point}
    (hcall : h.receiveStep size p = .ok (x, h')) : h'.toManage = h.toManage := by
  cases p with
  | reset =>
    cases hcall
    rfl
  | look =>
    unfold HandleMQTT.receiveStep at hcall
    dsimp only at hcall
    split at hcall
    · cases hcall
      rfl
    · split at hcall
      · cases hcall
      · cases hcall
        rfl
  | take =>
    unfold HandleMQTT.receiveStep at hcall
    dsimp only at hcall
    split at hcall
    · cases hcall
      rfl
    · split at hcall
      · obtain ⟨bs, -, hcall⟩ := bind_eq_ok.1 hcall
        cases hcall
        rfl
      · cases hcall
        rfl

private theorem entry_turn {c : Ongoing} {a : Option MqttAnswer} {s' : MqttReader}
    (hturn : s.turn g c = .ok (a, s')) : s.Entry s' := by
  -- a header that has been read
  have hheader : ∀ {h : HandleMQTT} {cap : Option Nat} {size : Nat}, h.toManage = s.handle.toManage →
      ({ s with handle := h } : MqttReader).headerRead cap size = (a, s') → s.Entry s' := by
    intro h cap size htom hread
    have hentry := entry_headerRead { s with handle := h } cap size
    rw [hread] at hentry
    exact ⟨hentry.toManage.imp_left fun e => e.trans htom, hentry.pass⟩
  cases c with
  | test cap blocking =>
    unfold turn at hturn
    dsimp only at hturn
    split at hturn
    · split at hturn
      · cases hturn
      · obtain ⟨bs, -, hturn⟩ := bind_eq_ok.1 hturn
        refine hheader ?_ (Except.ok.inj hturn)
        rfl
    · cases hturn
      exact ⟨Or.inl rfl, rfl⟩
  | attempt cap =>
    unfold turn at hturn
    dsimp only at hturn
    split at hturn
    · cases hturn
      exact ⟨Or.inl rfl, rfl⟩
    · obtain ⟨bs, -, hturn⟩ := bind_eq_ok.1 hturn
      refine hheader ?_ (Except.ok.inj hturn)
      rfl
  | receive x p =>
    obtain ⟨⟨r, h⟩, hstep, hturn⟩ := bind_eq_ok.1 hturn
    have htom := toManage_receiveStep hstep
    cases r with
    | inr p' =>
      cases hturn
      exact ⟨Or.inl htom, rfl⟩
    | inl y =>
      cases x with
      | header cap => exact hheader (h := { h with isProbed := true }) htom (Except.ok.inj hturn)
      | payload size =>
        cases hturn
        exact ⟨Or.inl htom, rfl⟩

/-- A handle that is not managed is not managed after a step of a call. -/
theorem Entry.held {s' : MqttReader} (h : s.Entry s') (hheld : s.Held)
    (htom : s.handle.toManage ≠ some true) : s'.Held := by
  refine ⟨fun _ he => ?_, fun hpass => ?_⟩
  · rcases h.toManage with h | h
    · exact htom (h.symm.trans he)
    · cases h.symm.trans he
  · rw [h.pass] at hpass
    exact absurd (hheld.pass hpass) htom

/-- A pass takes nothing out of a handle that is not managed. -/
private theorem held_update (hheld : s.Held) : s.update.Held := by
  cases hpass : s.pass with
  | idle =>
    by_cases h : s.handle.toManage = some true → s.handle.client = []
    · rw [update_idle hpass h]
      exact hheld
    · obtain ⟨htom, hc⟩ := Classical.not_imp.1 h
      obtain ⟨x, client, hc⟩ := List.exists_cons_of_ne_nil hc
      rw [update_take hpass htom hc]
      exact ⟨hheld.call, fun _ => htom⟩
  | taken p =>
    unfold MqttReader.update
    rw [hpass]
    exact ⟨hheld.call, fun _ => hheld.pass (by rw [hpass]; exact nofun)⟩
  | flagged p =>
    unfold MqttReader.update
    rw [hpass]
    exact ⟨hheld.call, fun _ => hheld.pass (by rw [hpass]; exact nofun)⟩
  | queued =>
    unfold MqttReader.update
    rw [hpass]
    exact ⟨fun _ => nofun, fun h => absurd rfl h⟩

/-- One owner keeps the handle from being managed during a call. -/
theorem held_of_owned (hheld : s.Held) {o : Op} (ho : s.Owned o) {a : Option MqttAnswer} {s' : MqttReader}
    (hstep : step g o s = .ok (a, s')) : s'.Held := by
  cases o with
  | arrive =>
    cases hstep
    unfold MqttReader.arrive
    split
    · exact hheld
    · exact ⟨hheld.call, hheld.pass⟩
  | update =>
    cases hstep
    exact held_update hheld
  | yield =>
    unfold step at hstep
    dsimp only at hstep
    split at hstep
    · rename_i hpass
      obtain ⟨h, -, hstep⟩ := bind_eq_ok.1 hstep
      cases hstep
      exact ⟨fun hcall => absurd ho hcall, fun hne => absurd hpass hne⟩
    · cases hstep
      exact hheld
  | probe blocking =>
    unfold step at hstep
    dsimp only at hstep
    split at hstep
    · have hentry : s.Entry (s.startProbe blocking).2 := by
        unfold startProbe
        split
        · exact ⟨Or.inl rfl, rfl⟩
        · split
          · exact ⟨Or.inl rfl, rfl⟩
          · exact ⟨Or.inl rfl, rfl⟩
      rw [Except.ok.inj hstep] at hentry
      exact hentry.held hheld ho
    · cases hstep
      exact hheld
  | receive cap =>
    unfold step at hstep
    dsimp only at hstep
    split at hstep
    · have hentry : s.Entry (s.startReceive cap).2 := by
        unfold startReceive
        split
        · split
          · exact ⟨Or.inl rfl, rfl⟩
          · exact entry_startPayload s cap
        · split
          · exact ⟨Or.inl rfl, rfl⟩
          · exact ⟨Or.inl rfl, rfl⟩
      rw [Except.ok.inj hstep] at hentry
      exact hentry.held hheld ho
    · cases hstep
      exact hheld
  | poll =>
    unfold step at hstep
    dsimp only at hstep
    split at hstep
    · cases hstep
      exact hheld
    · rename_i c hcall
      refine (entry_turn hstep).held hheld (hheld.call ?_)
      rw [hcall]
      exact Option.some_ne_none c

/-- So no pass takes anything during a call. -/
theorem apart_of_owned (hheld : s.Held) {o : Op} (ho : s.Owned o) : s.Apart o := by
  have hidle : s.handle.toManage ≠ some true → s.pass = .idle := fun htom => Classical.not_not.1 fun h =>
    htom (hheld.pass h)
  cases o with
  | arrive => trivial
  | update => exact fun hcall htom => absurd htom (hheld.call hcall)
  | yield => trivial
  | probe blocking => exact hidle ho
  | receive cap => exact hidle ho
  | poll => trivial

/-- A new handle that is to be read. -/
structure Init (closed : Bool) (ms : List Bytes) (s : MqttReader) : Prop where
  unread : s.unread = ms
  coming : s.coming = publications closed ms
  call : s.call = none
  pass : s.pass = .idle
  probed : s.handle.probed = (false, 0)
  isProbed : s.handle.isProbed = false
  messages : s.handle.messages = []
  client : s.handle.client = []
  closedRd : s.handle.closedRd = false
  toManage : s.handle.toManage ≠ none
  deleted : s.handle.deleted = false
  counter : s.handle.counter ≠ 0

theorem Init.inv {ms : List Bytes} (h : Init closed ms s) (hms : ∀ m ∈ ms, m ≠ [] ∧ m.length < 2 ^ 64) :
    s.Inv closed := by
  refine ⟨⟨h.deleted, h.counter, ?_, fun m hm => hms m (h.unread ▸ hm)⟩,
    .header h.call ⟨h.probed, h.closedRd, h.toManage, ?_⟩ ?_⟩
  · rw [h.client]
    exact nofun
  · rw [stream, h.messages, h.pass, h.client, h.coming, h.unread]
    rfl
  · rw [h.pass]
    exact .empty h.isProbed h.messages

end MqttReader

open MqttReader

/-- Over a broker that delivers in order, every message that one side publishes is received once, whole and in
order, each size that is probed is that of the next message, EOS is seen behind the last, a call that finds
something at the client gets nearer to its end with every step, and `probe` calls `front` of no empty queue, in
every run in which no pass of `update` takes a publication of the handle while a call on it is in progress; that
is so when the handle has one owner at a time.  Where a pass takes the payload for which a call looks in
`messages`, the next call but this calls `front` of an empty queue. -/
theorem exactlyOnce_of_apart {closed : Bool} {ms : List Bytes} (hms : ∀ m ∈ ms, m ≠ [] ∧ m.length < 2 ^ 64)
    {s : MqttReader} (h : s.Init closed ms) (g : Nat → UInt8) (os : List MqttReader.Op) :
    (Always (step g) MqttReader.Apart os s → Always (step g) (Correct g closed) os s ∧
      ∃ as s', run (step g) os s = .ok (as, s') ∧ as.flatMap delivered ++ s'.unread = ms) ∧
    (Always (step g) Owned os s → Always (step g) MqttReader.Apart os s) ∧
    (Always (step g) MqttReader.Apart os s → ∀ as s', run (step g) os s = .ok (as, s') → s'.Exposed → s'.Misled g) := by
  have hI := h.inv hms
  refine ⟨fun hapart => ?_, fun howned => ?_, fun hapart as s' hrun => misled_of_exposed (inv_of_run hI hapart hrun)⟩
  · have hcorrect : Always (step g) (Correct g closed) os s :=
      Always.imp (Inv closed) (fun hI hapart => correct_of_apart hI hapart) hI hapart
    obtain ⟨as, s', hrun, hall⟩ := run_delivers hcorrect
    exact ⟨hcorrect, as, s', hrun, hall.symm.trans h.unread⟩
  · have hheld : s.Held := ⟨fun hcall => absurd h.call hcall, fun hpass => absurd h.pass hpass⟩
    exact Always.imp Held (fun hheld ho => ⟨apart_of_owned hheld ho,
      fun a s' hstep => held_of_owned hheld ho hstep⟩) hheld howned

/-- A handle on which two messages and EOS are to come. -/
private def twoMessages : MqttReader where
  handle := { counter := 1 }
  coming := publications true [[7], [8, 9]]
  unread := [[7], [8, 9]]

private theorem init_twoMessages : twoMessages.Init true [[7], [8, 9]] :=
  ⟨rfl, rfl, rfl, rfl, rfl, rfl, rfl, rfl, rfl, nofun, rfl, nofun⟩

/-- The header of the first message is queued by the manager and its payload waited for, the second message has
come when it is received, and EOS is probed. -/
private def ordinary : List MqttReader.Op :=
  [.yield, .arrive, .update, .update, .update, .update, .receive 1, .poll, .poll, .poll, .poll, .arrive, .poll, .poll,
    .arrive, .arrive, .receive 2, .poll, .poll, .poll, .poll, .poll, .poll, .poll, .arrive, .probe false, .poll, .poll]

theorem exactlyOnce_of_apart_run :
    ∃ as s', run (step fun _ => 0) ordinary twoMessages = .ok (as, s') ∧
      as.flatMap delivered ++ s'.unread = [[7], [8, 9]] ∧ s'.unread = [] := by
  obtain ⟨hgood, howned, -⟩ := exactlyOnce_of_apart (by decide) init_twoMessages (fun _ => 0) ordinary
  obtain ⟨-, as, s', hrun, hall⟩ := hgood (howned (by decide))
  refine ⟨as, s', hrun, hall, ?_⟩
  cases hrun
  rfl

/-- The user who has yielded the handle yields it again while the next owner reads: a pass of `update` takes the
payload of the second message for a header, and the next `probe` looks for it in an empty queue.  Or a pass
takes the first header behind the look of a `probe` into `messages`: the `probe` reads the payload for the
header, and beyond its end. -/
theorem taken_misleads :
    (∃ as s', run (step fun _ => 0)
      [.yield, .arrive, .update, .update, .update, .update, .receive 1, .poll, .poll, .poll, .poll,
        .arrive, .poll, .poll, .yield, .receive 2, .poll, .poll, .poll, .arrive, .poll, .poll, .arrive, .update,
          .update, .update,
        .update, .poll] twoMessages = .ok (as, s') ∧
      run (step fun _ => 0) [.probe true, .poll] s' = .error .undefined) ∧
    run (step fun _ => 0)
    [.yield, .probe true, .poll, .poll, .poll, .arrive, .update, .update, .update, .update, .arrive, .poll]
      twoMessages = .error .undefined :=
  ⟨⟨_, _, rfl, rfl⟩, rfl⟩

end Mtcl
