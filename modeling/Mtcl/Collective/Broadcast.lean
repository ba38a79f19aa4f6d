import Mtcl.Collective.Participants
import Mtcl.Collective.Sending

/-!
# `BroadcastGeneric`

The generic implementation of a broadcast.  The root sends a message to one participant after the other and stops at the
first that fails; a member reads from its only participant, the root, and closes it when the end has come.

`Broadcast` is a team at work: the root over any transport with everything written down that it sends, the
members over TCP, and between them the bytes of the messages that have been sent successfully, which arrive in
any pieces at any time.  `broadcast_agrees` says that whatever the interleaving, and whichever links are lost at
whatever time, every member has received the first of the messages that the root has passed, in order, and finds
the end only behind the last.
-/

namespace Mtcl

open Arrivals Sources

variable {H W : Type}

/-- An object of class `BroadcastGeneric`. -/
structure BroadcastGeneric (H : Type) where
  participants : List H
  root : Bool
  deriving DecidableEq, Repr

namespace BroadcastGeneric

section

variable (vt : H → CommunicationHandle W)

/-- `BroadcastGeneric::probe`. -/
def probe (size : Nat) (_blocking : Bool) (c : BroadcastGeneric H) (w : W) :
    Except Stop (Ret × Nat × BroadcastGeneric H × W) := .ok (.error .EINVAL, size, c, w)

/-- The loop of `send` over the participants. -/
def sendLoop (buff : Bytes) : List H → W → Except Stop (Ret × W)
  | [], w => .ok (.ok buff.length, w)
  | h :: hs, w => do
    let (r, w) ← (vt h).send buff w
    match r with
    | .error _ => return (.error .ECONNRESET, w)
    | .ok _ => sendLoop buff hs w

/-- `BroadcastGeneric::send`. -/
def send (buff : Bytes) (c : BroadcastGeneric H) (w : W) : Except Stop (Ret × BroadcastGeneric H × W) := do
  let (r, w) ← sendLoop vt buff c.participants w
  return (r, c, w)

/-- `BroadcastGeneric::receive`. -/
def receive (size : Nat) (c : BroadcastGeneric H) (w : W) : Except Stop (Ret × Bytes × BroadcastGeneric H × W) :=
  match c.participants[0]? with
  | none => .error .outOfRange
  | some h => do
    let (res, bs, w) ← receiveFromHandle vt h size w
    match res with
    | .ok 0 =>
      let w ← (vt h).close true false w
      return (.ok 0, bs, c, w)
    | res => return (res, bs, c, w)

/-- `BroadcastGeneric::sendrecv`. -/
def sendrecv (sendbuff : Bytes) (recvsize : Nat) (c : BroadcastGeneric H) (w : W) :
    Except Stop (Ret × Bytes × BroadcastGeneric H × W) :=
  if c.root then do
    let (r, c, w) ← c.send vt sendbuff w
    return (r, [], c, w)
  else c.receive vt recvsize w

/-- `BroadcastGeneric::close`, which does not look at its arguments. -/
def close (c : BroadcastGeneric H) (w : W) : Except Stop (BroadcastGeneric H × W) :=
  if c.root then do
    let w ← closeAll vt c.participants w
    return (c, w)
  else .ok (c, w)

end

end BroadcastGeneric

/-- The virtual functions of `BroadcastGeneric`. -/
def broadcastGeneric (vt : H → CommunicationHandle W) : CollectiveImpl (BroadcastGeneric H) W where
  probe := BroadcastGeneric.probe
  receive := BroadcastGeneric.receive vt
  send := BroadcastGeneric.send vt
  close _ _ := BroadcastGeneric.close vt

/-! ### The root -/

namespace BroadcastGeneric

section

variable [DecidableEq H] {vt : H → CommunicationHandle W} {log log' : List (Sent H)} {ps : List H}

/-- What the participants have been sent, in the order of the loop: all of what has been passed up to the first
that has been lost, and from there on the first of it. -/
def Agrees (passed : List Bytes) (log : List (Sent H)) : List H → Prop
  | [] => True
  | h :: ps => sentTo h log = passed ∧ Agrees passed log ps ∨
      Lost h log ∧ ∀ j ∈ h :: ps, sentTo j log <+: passed

theorem Agrees.isPrefix {passed : List Bytes} (ha : Agrees passed log ps) {h : H} (hh : h ∈ ps) :
    sentTo h log <+: passed := by
  induction ps with
  | nil => exact absurd hh List.not_mem_nil
  | cons j ps ih =>
    rcases ha with ⟨heq, ha⟩ | ⟨-, hall⟩
    · rcases List.mem_cons.1 hh with rfl | hh
      · rw [heq]
      · exact ih ha hh
    · exact hall h hh

private theorem Agrees.congr {passed : List Bytes} (ha : Agrees passed log ps)
    (hsent : ∀ h ∈ ps, sentTo h log' = sentTo h log) (hlost : ∀ h ∈ ps, Lost h log → Lost h log') :
    Agrees passed log' ps := by
  induction ps with
  | nil => trivial
  | cons j ps ih =>
    rcases ha with ⟨heq, ha⟩ | ⟨hl, hall⟩
    · refine Or.inl ⟨(hsent j (List.mem_cons_self ..)).trans heq, ?_⟩
      exact ih ha (fun h hh => hsent h (List.mem_cons_of_mem _ hh)) fun h hh => hlost h (List.mem_cons_of_mem _ hh)
    · exact Or.inr ⟨hlost j (List.mem_cons_self ..) hl, fun h hh => hsent h hh ▸ hall h hh⟩

private theorem sendLoop_log {m : Bytes} {s s' : W × List (Sent H)} {r : Ret}
    (he : sendLoop (record vt) m ps s = .ok (r, s')) :
    ∃ l, s'.2 = s.2 ++ l ∧ (∀ h ∉ ps, sentTo h l = []) ∧ ∀ h, (∀ x ∈ sentTo h l, x = m) ∧ closedTo h l = false := by
  induction ps generalizing s with
  | nil =>
    cases he
    exact ⟨[], (List.append_nil _).symm, fun _ _ => rfl, fun _ => ⟨nofun, rfl⟩⟩
  | cons j ps ih =>
    obtain ⟨⟨r1, s1⟩, h1, he⟩ := bind_eq_ok.1 he
    obtain ⟨-, hlog⟩ := record_send h1
    rcases r1 with e | n
    · cases he
      exact ⟨_, hlog, fun _ _ => rfl, fun h => ⟨nofun, closedTo_message ..⟩⟩
    · obtain ⟨l, hl, hother, hall⟩ := ih he
      have hsent : ∀ h, sentTo h (.message j m (.ok n) :: l) = sentTo h [.message j m (.ok n)] ++ sentTo h l :=
        fun h => sentTo_append h [_] l
      refine ⟨.message j m (.ok n) :: l, ?_, fun h hh => ?_, fun h => ⟨fun x hx => ?_, ?_⟩⟩
      · rw [hl, hlog]
        exact List.append_assoc ..
      · have hj : j ≠ h := fun e => hh (e ▸ List.mem_cons_self ..)
        rw [hsent, sentTo_message_of_ne hj, hother h fun hmem => hh (List.mem_cons_of_mem _ hmem)]
        rfl
      · rw [hsent] at hx
        rcases List.mem_append.1 hx with hx | hx
        · by_cases hj : j = h
          · subst hj
            rw [sentTo_message] at hx
            exact List.mem_singleton.1 hx
          · rw [sentTo_message_of_ne hj] at hx
            exact absurd hx List.not_mem_nil
        · exact (hall h).1 x hx
      · have := closedTo_append h [.message j m (.ok n)] l
        rw [closedTo_message, (hall h).2] at this
        exact this

/-- A message goes to the participants before the first that has been lost. -/
theorem sendLoop_agrees {m : Bytes} {passed : List Bytes} {s s' : W × List (Sent H)} {r : Ret} (hn : ps.Nodup)
    (ha : Agrees passed s.2 ps) (he : sendLoop (record vt) m ps s = .ok (r, s')) (hperm : Permanent s'.2) :
    Agrees (passed ++ [m]) s'.2 ps := by
  induction ps generalizing s with
  | nil => trivial
  | cons j ps ih =>
    obtain ⟨hj, hn⟩ := List.nodup_cons.1 hn
    obtain ⟨⟨r1, s1⟩, h1, he⟩ := bind_eq_ok.1 he
    obtain ⟨-, hlog⟩ := record_send h1
    rcases r1 with e | n
    · cases he
      refine Or.inr ⟨⟨m, e, ?_⟩, fun h hh => ?_⟩
      · rw [hlog]
        exact List.mem_append_right _ (List.mem_singleton_self _)
      · rw [hlog, sentTo_append, sentTo_failed, List.append_nil]
        exact (Agrees.isPrefix ha hh).trans (List.prefix_append ..)
    · obtain ⟨l, hl, hother, -⟩ := sendLoop_log he
      have hperm1 : Permanent s1.2 := (hl ▸ hperm).of_append
      rcases ha with ⟨heq, ha⟩ | ⟨hlost, -⟩
      · left
        refine ⟨?_, ih hn (ha.congr (fun h hh => ?_) fun h hh hlost => ?_) he⟩
        · rw [hl, hlog, sentTo_append, sentTo_append, sentTo_message, heq, hother j hj, List.append_nil]
        · have hne : j ≠ h := fun e => hj (e ▸ hh)
          rw [hlog, sentTo_append, sentTo_message_of_ne hne, List.append_nil]
        · rw [hlog]
          exact hlost.append _
      · rw [hlog] at hperm1
        exact absurd hlost hperm1.not_lost

end

end BroadcastGeneric

/-! ### Streams that have arrived in part -/

/-- Of the stream `total` the part `arrived` has come in so far; `bs` is what has not been read of it. -/
def Arriving (arrived total : Bytes) (s : List SockArrival) (bs : Bytes) : Prop :=
  arrived <+: total ∧ afterLead s = [] ∧ ∃ used, arrived = used ++ lead s ∧ total = used ++ bs

theorem arriving_supplies (closed : Bool) (arrived total : Bytes) : Supplies closed (Arriving arrived total) True where
  readn := by
    rintro s x rest ⟨hpre, hdry, used, harr, htot⟩
    have hlead : lead s <+: x ++ rest := by
      rw [harr, htot] at hpre
      exact (List.prefix_append_right_inj used).1 hpre
    rw [readn_eq]
    by_cases hlen : x.length ≤ (lead s).length
    · left
      have hx : (lead s).take x.length = x :=
        (List.prefix_iff_eq_take.1 (List.prefix_of_prefix_length_le (List.prefix_append x rest) hlead hlen)).symm
      obtain ⟨h1, h2⟩ := dropItems_lead hlen
      refine ⟨dropItems x.length s, ?_, hpre, h2.trans hdry, used ++ x, ?_, ?_⟩
      · rw [if_pos hlen, hx]
      · rw [h1, List.append_assoc, harr]
        congr 1
        conv_lhs => rw [← List.take_append_drop x.length (lead s), hx]
      · rw [htot, List.append_assoc]
    · right
      rw [if_neg hlen, hdry]
      exact ⟨trivial, rfl⟩
  dry := by
    rintro - s n ⟨hpre, hdry, used, harr, htot⟩ hn
    have hlead : lead s = [] := by
      rw [harr, htot] at hpre
      exact List.prefix_nil.1 ((List.prefix_append_right_inj used).1 hpre)
    rw [readn_eq, hlead, List.length_nil, if_neg (Nat.not_le.2 hn), hdry]

/-- The sender goes on. -/
theorem Arriving.more {arrived total bs : Bytes} {s : List SockArrival} (h : Arriving arrived total s bs) (x : Bytes) :
    Arriving arrived (total ++ x) s (bs ++ x) := by
  obtain ⟨hpre, hdry, used, harr, rfl⟩ := h
  exact ⟨hpre.trans (List.prefix_append ..), hdry, used, harr, List.append_assoc ..⟩

/-- More bytes come in. -/
theorem Arriving.piece {arrived total bs : Bytes} {s : List SockArrival} (h : Arriving arrived total s bs) {b : UInt8}
    {l : Bytes} (hpre : arrived ++ b :: l <+: total) : Arriving (arrived ++ b :: l) total (s ++ [.piece b l]) bs := by
  obtain ⟨-, hdry, used, rfl, htot⟩ := h
  have hsplit : ∀ s : List SockArrival, afterLead s = [] →
      lead (s ++ [.piece b l]) = lead s ++ b :: l ∧ afterLead (s ++ [.piece b l]) = [] := by
    intro s hs
    induction s with
    | nil => exact ⟨List.append_nil _, rfl⟩
    | cons a s ih =>
      cases a with
      | piece c k =>
        obtain ⟨h1, h2⟩ := ih hs
        refine ⟨?_, h2⟩
        change c :: k ++ lead (s ++ [.piece b l]) = c :: k ++ lead s ++ b :: l
        rw [h1, List.append_assoc]
      | quiet => exact ih hs
      | eof => cases hs
      | error e => cases hs
  obtain ⟨h1, h2⟩ := hsplit s hdry
  refine ⟨hpre, h2, used, ?_, htot⟩
  rw [h1, List.append_assoc]

/-! ### The team -/

/-- A team at work.  The participants of the root are named by `H`, and `member h` is the process at the other
end of the handle `h`; `passed` are the messages passed to the `sendrecv` of the root, `arrived h` the bytes
that have come to a member, and `returned h` its calls so far: the capacity, the result, and the bytes written.
-/
structure Broadcast (H W : Type) where
  root : CollectiveContext (BroadcastGeneric H) × (W × List (Sent H))
  member : H → CollectiveContext (BroadcastGeneric Nat) × Process
  passed : List Bytes := []
  closed : Bool := false
  arrived : H → Bytes := fun _ => []
  returned : H → List (Nat × Ret × Bytes) := fun _ => []

/-- The messages among the replies. -/
def messagesOf (l : List (Nat × Ret × Bytes)) : List Bytes :=
  l.filterMap fun
    | (_, .ok (_ + 1), bs) => some bs
    | _ => none

@[simp] theorem messagesOf_append (l l' : List (Nat × Ret × Bytes)) :
    messagesOf (l ++ l') = messagesOf l ++ messagesOf l' := List.filterMap_append

namespace Broadcast

inductive Op (H : Type)
  | send (m : Bytes)
  | close
  | arrive (h : H) (b : UInt8) (bs : Bytes)
  | call (h : H) (cap : Nat)

/-- What has been put on the link to the member so far. -/
def stream [DecidableEq H] (s : Broadcast H W) (h : H) : Bytes :=
  encode (closedTo h s.root.2.2) (sentTo h s.root.2.2)

/-- The team has just been created; `id h` is the handle of the member `h`. -/
structure Starts (ps : List H) (id : H → Nat) (s : Broadcast H W) : Prop where
  root : s.root.1.coll = { participants := ps, root := true }
  log : s.root.2.2 = []
  nodup : ps.Nodup
  passed : s.passed = []
  closed : s.closed = false
  member : ∀ h ∈ ps, (s.member h).1.coll = { participants := [id h], root := false } ∧
    (s.member h).2.Attached (id h) ∧ ((s.member h).2.handles (id h)).probed.1 = false ∧
    ((s.member h).2.handles (id h)).incoming = []
  arrived : ∀ h ∈ ps, s.arrived h = []
  returned : ∀ h ∈ ps, s.returned h = []

/-- The root passes a message or closes, bytes that have been sent come in, or a call of a member returns. -/
inductive Step [DecidableEq H] (vt : H → CommunicationHandle W) (id : H → Nat) :
    Op H → Broadcast H W → Broadcast H W → Prop
  | send {s : Broadcast H W} {m bs : Bytes} {r : Ret}
      {root' : CollectiveContext (BroadcastGeneric H) × (W × List (Sent H))}
      (hopen : s.closed = false) (hm : Sendable m)
      (he : teamUser.sendrecv (BroadcastGeneric.sendrecv (record vt) m 0) s.root = .ok (r, bs, root'))
      (hperm : Permanent root'.2.2) :
      Step vt id (.send m) s { s with root := root', passed := s.passed ++ [m] }
  | close {s : Broadcast H W} {root' : CollectiveContext (BroadcastGeneric H) × (W × List (Sent H))}
      (he : teamUser.close (fun _ => contextHandle (broadcastGeneric (record vt))) s.root = .ok root') :
      Step vt id .close s { s with root := root', closed := true }
  | arrive {s : Broadcast H W} {h : H} {b : UInt8} {bs : Bytes} (hpre : s.arrived h ++ b :: bs <+: s.stream h) :
      Step vt id (.arrive h b bs) s
        { s with
          arrived := Function.update s.arrived h (s.arrived h ++ b :: bs)
          member := Function.update s.member h ((s.member h).1, (s.member h).2.withIncoming (id h)
            ((s.member h).2.handles (id h)).probed (((s.member h).2.handles (id h)).incoming ++ [.piece b bs])) }
  | call {s : Broadcast H W} {h : H} {cap : Nat} {bs : Bytes} {r : Ret}
      {member' : CollectiveContext (BroadcastGeneric Nat) × Process}
      (he : teamUser.sendrecv (BroadcastGeneric.sendrecv tcpHandle [] cap) (s.member h) = .ok (r, bs, member')) :
      Step vt id (.call h cap) s
        { s with
          member := Function.update s.member h member'
          returned := Function.update s.returned h (s.returned h ++ [(cap, r, bs)]) }

/-! ### A member -/

/-- A member has returned the first of the messages that have been sent to it, and reads the others, or it has
returned all of them and then the end; it has refused none but messages without room. -/
structure Listening (id : Nat) (closed : Bool) (sent : List Bytes) (arrived : Bytes)
    (returned : List (Nat × Ret × Bytes)) (member : CollectiveContext (BroadcastGeneric Nat) × Process) : Prop where
  coll : member.1.coll = { participants := [id], root := false }
  refused : ∀ l cap e bs l', returned = l ++ (cap, .error e, bs) :: l' →
    e = .ENOMEM ∧ ∃ m, messagesOf l ++ [m] <+: sent ∧ cap < m.length
  state : (∃ ph q, ph.queue = (q, false) ∧ Attending (Arriving arrived (encode closed sent)) closed id ph member.2 ∧
      sent = messagesOf returned ++ q ∧ ∀ x ∈ returned, x.2.1 ≠ .ok 0) ∨
    (member.2.handles id).deleted = true ∧ closed = true ∧ sent = messagesOf returned

section

variable {id : Nat} {closed : Bool} {sent : List Bytes} {arrived : Bytes} {returned : List (Nat × Ret × Bytes)}
  {member member' : CollectiveContext (BroadcastGeneric Nat) × Process}

theorem Listening.isPrefix (h : Listening id closed sent arrived returned member) : messagesOf returned <+: sent := by
  rcases h.state with ⟨ph, q, -, -, hsent, -⟩ | ⟨-, -, hsent⟩
  · rw [hsent]
    exact List.prefix_append ..
  · rw [hsent]

/-- The root sends more, or closes. -/
theorem Listening.more (h : Listening id closed sent arrived returned member) {l : List Bytes} (b : Bool)
    (hl : closed = true → l = []) (hm : ∀ m ∈ l, Sendable m) :
    Listening id (closed || b) (sent ++ l) arrived returned member := by
  refine ⟨h.coll, fun k cap e bs l' he => ?_, ?_⟩
  · obtain ⟨h1, m, h2, h3⟩ := h.refused k cap e bs l' he
    exact ⟨h1, m, h2.trans (List.prefix_append ..), h3⟩
  · rcases h.state with ⟨ph, q, hq, hatt, hsent, hzero⟩ | ⟨hdel, hcl, hsent⟩
    · left
      obtain ⟨x, hx⟩ : ∃ x, ∀ q, encode (closed || b) (q ++ l) = encode closed q ++ x := by
        cases closed with
        | true => exact ⟨[], fun q => by rw [hl rfl]; simp⟩
        | false => exact ⟨encode b l, fun q => by simp [encode]⟩
      obtain ⟨ph', hq', hatt'⟩ := hatt.grow hx (fun s bs hA => hA.more x) hm hq
      refine ⟨ph', q ++ l, hq', ?_, by rw [hsent, List.append_assoc], hzero⟩
      rw [hx]
      exact hatt'
    · right
      refine ⟨hdel, by rw [hcl, Bool.true_or], ?_⟩
      rw [hl hcl, List.append_nil, hsent]

/-- More bytes come in. -/
theorem Listening.arrive (h : Listening id closed sent arrived returned member) {b : UInt8} {bs : Bytes}
    (hpre : arrived ++ b :: bs <+: encode closed sent) :
    Listening id closed sent (arrived ++ b :: bs) returned
      (member.1, member.2.withIncoming id (member.2.handles id).probed
        ((member.2.handles id).incoming ++ [.piece b bs])) := by
  refine ⟨h.coll, h.refused, ?_⟩
  rcases h.state with ⟨ph, q, hq, hatt, hsent, hzero⟩ | ⟨hdel, hcl, hsent⟩
  · exact Or.inl ⟨ph, q, hq, hatt.incoming fun bs hA => hA.piece hpre, hsent, hzero⟩
  · refine Or.inr ⟨?_, hcl, hsent⟩
    rw [Process.withIncoming_handles]
    exact hdel

private theorem refused_concat (h : Listening id closed sent arrived returned member) {x : Nat × Ret × Bytes}
    (hx : ∀ cap e bs, x = (cap, .error e, bs) → e = .ENOMEM ∧ ∃ m, messagesOf returned ++ [m] <+: sent ∧ cap < m.length)
    (l : List (Nat × Ret × Bytes)) (cap : Nat) (e : Errno) (bs : Bytes) (l' : List (Nat × Ret × Bytes))
    (he : returned ++ [x] = l ++ (cap, .error e, bs) :: l') :
    e = .ENOMEM ∧ ∃ m, messagesOf l ++ [m] <+: sent ∧ cap < m.length := by
  rcases List.eq_nil_or_concat l' with rfl | ⟨l', y, rfl⟩
  · obtain ⟨rfl, hy⟩ := List.append_inj' he rfl
    exact hx cap e bs (List.singleton_inj.1 hy)
  · rw [List.concat_eq_append, ← List.cons_append, ← List.append_assoc] at he
    exact h.refused l cap e bs l' (List.append_inj' he rfl).1

/-- A call of the member returns. -/
theorem Listening.call (h : Listening id closed sent arrived returned member) {cap : Nat} {r : Ret} {bs : Bytes}
    (he : teamUser.sendrecv (BroadcastGeneric.sendrecv tcpHandle [] cap) member = .ok (r, bs, member')) :
    Listening id closed sent arrived (returned ++ [(cap, r, bs)]) member' := by
  obtain ⟨coll, hf, hctx⟩ := HandleUser.sendrecv_cases he
  rw [h.coll] at hf
  obtain ⟨⟨r1, bs1, w1⟩, hrecv, hf⟩ := bind_eq_ok.1 hf
  rcases h.state with ⟨ph, q, hq, hatt, hsent, hzero⟩ | ⟨hdel, -⟩
  · have hzero' : r ≠ .ok 0 → ∀ x ∈ returned ++ [(cap, r, bs)], x.2.1 ≠ .ok 0 := by
      intro hr x hx
      rcases List.mem_append.1 hx with hx | hx
      · exact hzero x hx
      · rw [List.mem_singleton.1 hx]
        exact hr
    rcases receiveFromHandle_queue (tcp_hears (arriving_supplies ..) id) hatt hq hrecv with
      ⟨q', ph', rfl, hcap, hne, rfl, hq', hatt'⟩ | ⟨m, q', ph', rfl, hcap, rfl, hq', hatt'⟩ | ⟨rfl, hcl, rfl, hatt'⟩
    · -- the next message
      obtain ⟨n, hn⟩ := Nat.exists_eq_succ_of_ne_zero fun e => hne (List.length_eq_zero_iff.1 e)
      rw [hn] at hf
      cases hf
      refine ⟨by rw [hctx], refused_concat h nofun, Or.inl ⟨ph', q', hq', hatt', ?_, hzero' nofun⟩⟩
      rw [messagesOf_append, hsent, List.append_assoc]
      rfl
    · -- no room for it
      cases hf
      refine ⟨by rw [hctx], refused_concat h fun cap' e bs' hx => ?_,
        Or.inl ⟨ph', _, hq', hatt', ?_, hzero' nofun⟩⟩
      · cases hx
        refine ⟨rfl, m, ?_, hcap⟩
        rw [hsent]
        exact (List.prefix_append_right_inj _).2 (List.prefix_append [m] q')
      · rw [messagesOf_append, hsent]
        exact congrArg (· ++ (m :: q')) (List.append_nil _).symm
    · -- the end
      obtain ⟨hclose, hdel⟩ := hatt'.gone
      generalize w1.closeHandle id true false = w2 at hclose hdel
      dsimp only at hf
      rw [hclose] at hf
      cases hf
      refine ⟨by rw [hctx], refused_concat h nofun, Or.inr ⟨hdel, hcl, ?_⟩⟩
      rw [messagesOf_append, hsent]
      rfl
  · exfalso
    have hbase : (tcpHandle id).base member.2 = .error .useAfterFree := by
      change (member.2.deref id >>= _) = _
      rw [Process.deref, if_pos (Or.inr hdel)]
      rfl
    unfold receiveFromHandle at hrecv
    dsimp only at hrecv
    rw [hbase] at hrecv
    cases hrecv

end

/-! ### The whole team -/

section

variable [DecidableEq H] {vt : H → CommunicationHandle W} {ps : List H} {id : H → Nat}

/-- Every member listens to what the root has sent to it, and that agrees with what the root has passed. -/
structure Inv (ps : List H) (id : H → Nat) (s : Broadcast H W) : Prop where
  coll : s.root.1.coll = { participants := ps, root := true }
  agrees : BroadcastGeneric.Agrees s.passed s.root.2.2 ps
  closed : ∀ h, closedTo h s.root.2.2 = true → s.closed = true
  member : ∀ h ∈ ps, Listening (id h) (closedTo h s.root.2.2) (sentTo h s.root.2.2) (s.arrived h)
    (s.returned h) (s.member h)

private theorem agrees_start (hn : ps.Nodup) : BroadcastGeneric.Agrees [] ([] : List (Sent H)) ps := by
  induction ps with
  | nil => trivial
  | cons h ps ih => exact Or.inl ⟨rfl, ih (List.nodup_cons.1 hn).2⟩

theorem Inv.start {s : Broadcast H W} (h : Starts ps id s) : Inv ps id s := by
  refine ⟨h.root, ?_, fun j hj => ?_, fun j hj => ?_⟩
  · rw [h.passed, h.log]
    exact agrees_start h.nodup
  · rw [h.log] at hj
    cases hj
  · obtain ⟨hcoll, hatt, hprobed, hin⟩ := h.member j hj
    rw [h.log, h.arrived j hj, h.returned j hj]
    refine ⟨hcoll, fun l cap e bs l' he => ?_, Or.inl ⟨.idle [], [], rfl, ⟨hatt, hprobed, nofun, ?_⟩, rfl, nofun⟩⟩
    · exact absurd he (List.append_ne_nil_of_right_ne_nil _ (List.cons_ne_nil _ _)).symm
    · rw [hin]
      exact ⟨List.prefix_rfl, rfl, [], rfl, rfl⟩

private theorem Inv.moved {s : Broadcast H W} (h : Inv ps id s) {j : H} {arrived : Bytes}
    {returned : List (Nat × Ret × Bytes)} {member : CollectiveContext (BroadcastGeneric Nat) × Process}
    (hj : j ∈ ps → Listening (id j) (closedTo j s.root.2.2) (sentTo j s.root.2.2) arrived returned member) :
    Inv ps id { s with
      arrived := Function.update s.arrived j arrived
      returned := Function.update s.returned j returned
      member := Function.update s.member j member } := by
  refine ⟨h.coll, h.agrees, h.closed, fun k hk => ?_⟩
  by_cases hkj : k = j
  · subst hkj
    dsimp only
    rw [Function.update_self, Function.update_self, Function.update_self]
    exact hj hk
  · dsimp only
    rw [Function.update_of_ne hkj, Function.update_of_ne hkj, Function.update_of_ne hkj]
    exact h.member k hk

/-- The members listen to what the root has put out besides. -/
private theorem Inv.member_more {s : Broadcast H W} (h : Inv ps id s) {l : List (Sent H)}
    (hopen : s.closed = false ∨ ∀ j, sentTo j l = []) (hm : ∀ j, ∀ m ∈ sentTo j l, Sendable m) :
    ∀ j ∈ ps, Listening (id j) (closedTo j (s.root.2.2 ++ l)) (sentTo j (s.root.2.2 ++ l)) (s.arrived j) (s.returned j)
      (s.member j) := by
  intro j hj
  rw [closedTo_append, sentTo_append]
  refine (h.member j hj).more _ (fun hcl => ?_) (hm j)
  rcases hopen with hopen | hnil
  · rw [h.closed j hcl] at hopen
    cases hopen
  · exact hnil j

theorem Inv.step (hn : ps.Nodup) {o : Op H} {s s' : Broadcast H W} (h : Inv ps id s) (hs : Step vt id o s s') :
    Inv ps id s' := by
  cases hs with
  | send hopen hm he hperm =>
    rename_i m bs r root'
    obtain ⟨coll, hf, hctx⟩ := HandleUser.sendrecv_cases he
    rw [h.coll] at hf
    obtain ⟨⟨r1, c1, w1⟩, hf, hf'⟩ := bind_eq_ok.1 hf
    cases hf'
    obtain ⟨⟨r2, w2⟩, hloop, hf⟩ := bind_eq_ok.1 hf
    cases hf
    have hagrees := BroadcastGeneric.sendLoop_agrees hn h.agrees hloop hperm
    obtain ⟨l, hl, -, hall⟩ := BroadcastGeneric.sendLoop_log hloop
    refine ⟨by rw [hctx], hagrees, fun j hj => ?_, ?_⟩
    · rw [hl, closedTo_append, (hall j).2, Bool.or_false] at hj
      exact h.closed j hj
    · rw [hl]
      exact h.member_more (Or.inl hopen) fun j m' hm' => (hall j).1 m' hm' ▸ hm
  | close he =>
    obtain ⟨-, coll, hctx, hf⟩ := contextHandle_close he
    rw [h.coll] at hf
    obtain ⟨w1, hall, hf⟩ := bind_eq_ok.1 hf
    cases hf
    have hlog := closeAll_record hall
    refine ⟨by rw [hctx], ?_, fun _ _ => rfl, ?_⟩
    · rw [hlog]
      refine h.agrees.congr (fun j _ => ?_) fun j _ hlost => hlost.append _
      rw [sentTo_append, sentTo_eos, List.append_nil]
    · rw [hlog]
      refine h.member_more (Or.inr fun j => sentTo_eos ps) fun j m hm => ?_
      rw [sentTo_eos] at hm
      exact absurd hm List.not_mem_nil
  | arrive hpre =>
    rename_i j b bs
    have hmoved := h.moved fun hj => (h.member j hj).arrive hpre
    rwa [Function.update_eq_self] at hmoved
  | call he =>
    rename_i j cap bs r member'
    have hmoved := h.moved fun hj => (h.member j hj).call he
    rwa [Function.update_eq_self] at hmoved

/-- Broadcast agreement: at all times of every run, what a member has returned is the first of what the root has
passed; it has returned 0 only if the root has closed and all that was sent to it has been returned before; and
it has refused a message only for want of room. -/
theorem broadcast_agrees {H W : Type} [DecidableEq H] {vt : H → CommunicationHandle W} {ps : List H} {id : H → Nat}
    (hn : ps.Nodup) {s : Broadcast H W} (hs : Runs.Reach (Starts ps id) (Step vt id) s) {h : H} (hh : h ∈ ps) :
    messagesOf (s.returned h) <+: s.passed ∧
      (∀ x ∈ s.returned h, x.2.1 = .ok 0 → s.closed = true ∧ messagesOf (s.returned h) = sentTo h s.root.2.2) ∧
      ∀ l cap e bs l', s.returned h = l ++ (cap, .error e, bs) :: l' →
        e = .ENOMEM ∧ ∃ m, messagesOf l ++ [m] <+: s.passed ∧ cap < m.length := by
  have hinv : Inv ps id s := hs.invariant (Inv ps id) (fun _ h0 => .start h0) fun _ _ _ hi hstep => hi.step hn hstep
  have hmember := hinv.member h hh
  have hsent := hinv.agrees.isPrefix hh
  refine ⟨hmember.isPrefix.trans hsent, fun x hx hzero => ?_, fun l cap e bs l' he => ?_⟩
  · rcases hmember.state with ⟨-, -, -, -, -, hno⟩ | ⟨-, hcl, he⟩
    · exact absurd hzero (hno x hx)
    · exact ⟨hinv.closed h hcl, he.symm⟩
  · obtain ⟨h1, m, h2, h3⟩ := hmember.refused l cap e bs l' he
    exact ⟨h1, m, h2.trans hsent, h3⟩

/-- Two members over TCP, of which the second is lost behind the first message: the other one has room for the
second message only when it asks again, and then gets the end. -/
theorem broadcast_agrees_run :
    ∃ s : Broadcast Nat Process, Runs.Reach (Starts [0, 1] fun h => h) (Step tcpHandle fun h => h) s ∧
      s.passed = [[7], [8, 8]] ∧ s.returned 1 = [(5, .ok 1, [7])] ∧
      s.returned 0 = [(5, .ok 1, [7]), (1, .error .ENOMEM, []), (2, .ok 2, [8, 8]), (2, .ok 0, [])] ∧
      Lost 1 s.root.2.2 ∧ (∀ h ∈ [0, 1], messagesOf (s.returned h) <+: s.passed) := by
  let k0 : HandleTCP := { fd := some 3 }
  let k1 : HandleTCP := { fd := some 4, answers := [.moved 9, .broken .EPIPE] }
  let p : Process := { handles := fun h => if h = 0 then k0 else k1, allocated := 2 }
  let q : Process := { handles := fun _ => k0, allocated := 2 }
  let s0 : Broadcast Nat Process :=
    { root := (.mk' false false { participants := [0, 1], root := true }, (p, []))
      member := fun h => (.mk' false false { participants := [h], root := false }, q) }
  have hn : [0, 1].Nodup := by decide
  have h0 : Starts [0, 1] (fun h => h) s0 := by
    refine ⟨rfl, rfl, hn, rfl, rfl, fun h hh => ?_, fun _ _ => rfl, fun _ _ => rfl⟩
    have hlt : h < 2 := by
      rcases List.mem_cons.1 hh with rfl | hh
      · decide
      · rw [List.mem_singleton.1 hh]
        decide
    exact ⟨rfl, ⟨⟨hlt, rfl, Option.some_ne_none _⟩, rfl, rfl, rfl⟩, rfl, rfl⟩
  have hperm1 : Permanent [Sent.message 0 [7] (.ok 1), .message 1 [7] (.ok 1)] := by simp [Permanent]
  have hperm2 : Permanent [Sent.message 0 [7] (.ok 1), .message 1 [7] (.ok 1), .message 0 [8, 8] (.ok 2),
      .message 1 [8, 8] (.error .EPIPE)] := by simp [Permanent]
  have h1 := Runs.Reach.next (Broadcast.Op.send [7]) (.start h0)
    (@Step.send _ _ _ tcpHandle (fun h => h) s0 [7] _ _ _ rfl ⟨List.cons_ne_nil 7 [], by decide⟩ rfl hperm1)
  have h2 := Runs.Reach.next (Broadcast.Op.arrive 1 0 [0, 0, 0, 0, 0, 0, 1, 7]) h1
    (.arrive (List.prefix_refl [0, 0, 0, 0, 0, 0, 0, 1, 7]))
  have h3 := Runs.Reach.next (Broadcast.Op.call 1 5) h2 (.call rfl)
  have h4 := Runs.Reach.next (Broadcast.Op.send [8, 8]) h3
    (.send rfl ⟨List.cons_ne_nil 8 [8], by decide⟩ rfl hperm2)
  have h5 := Runs.Reach.next (Broadcast.Op.arrive 0 0 [0, 0, 0, 0, 0, 0, 1, 7, 0, 0, 0, 0, 0, 0, 0, 2, 8]) h4
    (.arrive ⟨[8], rfl⟩)
  have h6 := Runs.Reach.next (Broadcast.Op.call 0 5) h5 (.call rfl)
  have h7 := Runs.Reach.next (Broadcast.Op.call 0 1) h6 (.call rfl)
  have h8 := Runs.Reach.next Broadcast.Op.close h7 (.close rfl)
  have h9 := Runs.Reach.next (Broadcast.Op.arrive 0 8 [0, 0, 0, 0, 0, 0, 0, 0]) h8 (.arrive ⟨[], rfl⟩)
  have h10 := Runs.Reach.next (Broadcast.Op.call 0 2) h9 (.call rfl)
  have h11 := Runs.Reach.next (Broadcast.Op.call 0 2) h10 (.call rfl)
  refine ⟨_, h11, rfl, rfl, rfl, ⟨[8, 8], .EPIPE, ?_⟩, fun h hh => (broadcast_agrees hn h11 hh).1⟩
  exact List.mem_append_left _ (List.mem_of_getElem? (i := 3) rfl)

end

end Broadcast

end Mtcl
