import Mtcl.Framing
import Mtcl.Tcp.Stream

/-!
# Reading from participants

The implementations of the collectives read from the handles of their participants with
`CollectiveImpl::receiveFromHandle`.  `receiveFromHandle_step` says that on a handle that hears a source
`receiveFromHandle` is the reader of the source, and `Participants` what is needed to read from several handles
that live in one world.

`tcp_hears` says that a TCP handle nobody else owns is such a handle, whatever of the bytes has arrived, and
`tcp_participants` that such handles are participants.
-/

namespace Mtcl

open Arrivals Sources

variable {H W σ : Type}

/-! ### One participant -/

/-- `receiveFromHandle` keeps what the virtual functions of the handle keep. -/
theorem receiveFromHandle_keeps {vt : H → CommunicationHandle W} {h : H} {I : W → Prop}
    (hk : (vt h).Keeps I) {cap : Nat} {w w' : W} {r : Ret} {bs : Bytes} (hw : I w)
    (he : receiveFromHandle vt h cap w = .ok (r, bs, w')) : I w' := by
  have hprobe : ∀ {size size' : Nat} {blocking : Bool} {w w' : W} {r : Ret}, I w →
      probeHandle vt h size blocking w = .ok (r, size', w') → I w' := by
    intro size size' blocking w w' r hw he
    obtain ⟨b, -, ⟨rfl, -⟩ | ⟨-, r0, w0, h0, hout⟩⟩ := probeHandle_cases he
    · exact hw
    · have hw0 : I w0 := hk.probe hw h0
      cases hout with
      | closed _ hc => exact hk.close hw0 hc
      | failed _ => exact hw0
      | eos _ hc => exact hk.close (hk.setProbed _ _ hw0) hc
      | header _ => exact hk.setProbed _ _ hw0
  have hrest : ∀ {w w' : W} {r : Ret} {bs : Bytes}, I w →
      receiveProbedFromHandle vt h cap w = .ok (r, bs, w') → I w' := by
    intro w w' r bs hw he
    obtain ⟨b, -, rfl | ⟨-, hr⟩⟩ := receiveProbedFromHandle_cases he
    · exact hw
    · exact hk.receive (hk.setProbed _ _ hw) hr
  obtain ⟨b, -, rfl | ⟨-, -, he⟩ | ⟨-, r0, size0, w0, h0, rfl | ⟨-, he⟩⟩⟩ := receiveFromHandle_cases he
  · exact hw
  · exact hrest hw he
  · exact hprobe hw h0
  · exact hrest (hprobe hw h0) he

/-- Where a reader stands when it has seen at most the size of the next message. -/
inductive Ahead (src : Source σ Bytes) : Phase σ Bytes → Phase σ Bytes → Prop
  | here {ph : Phase σ Bytes} : Ahead src ph ph
  | next {s s' : σ} {m : Bytes} (h : src.next s m s') : Ahead src (.idle s) (.opened m s')

section

variable {vt : H → CommunicationHandle W} {h : H} {src : Source σ Bytes} {I : Phase σ Bytes → W → Prop}
  {Waits : Phase σ Bytes → Prop} {w : W}

private theorem receiveFromHandle_opened (hr : Hears (vt h) src I Waits) {m : Bytes} {s : σ} (hI : I (.opened m s) w)
    (cap : Nat) : receiveFromHandle vt h cap w = receiveProbedFromHandle vt h cap w := by
  obtain ⟨-, b, hb, hp, hrd⟩ := hr.opened hI
  unfold receiveFromHandle
  dsimp only
  rw [hb, bind_ok, hp, hrd]
  rfl

/-- `receiveFromHandle` at a message of which the size is known: it takes the message, leaves it, or waits. -/
private theorem receive_step_opened (hr : Hears (vt h) src I Waits) {m : Bytes} {s : σ} (hI : I (.opened m s) w)
    (cap : Nat) :
    (∃ a ph' r bs w', receiveProbedFromHandle vt h cap w = .ok (r, bs, w') ∧ receiveAnswer r bs = some a ∧
        Step src List.length (.receive cap) (.opened m s) a ph' ∧ I ph' w') ∨
      Waits (.opened m s) ∧ receiveProbedFromHandle vt h cap w = .error .blocked := by
  obtain ⟨hm, b, hb, hp, -⟩ := hr.opened hI
  unfold receiveProbedFromHandle
  dsimp only
  rw [hb, bind_ok, hp]
  dsimp only
  by_cases hcap : cap < m.length
  · rw [if_pos hcap]
    exact Or.inl ⟨_, _, _, _, _, rfl, rfl, .noRoom hcap, hI⟩
  · rw [if_neg hcap, Nat.min_eq_left (Nat.le_of_not_lt hcap)]
    rcases hr.receive hI with ⟨w', hcall, hI'⟩ | ⟨hwait, hcall⟩
    · have hlen : m.length ≠ 0 := fun e => hm (List.length_eq_zero_iff.1 e)
      obtain ⟨n, hn⟩ := Nat.exists_eq_succ_of_ne_zero hlen
      refine Or.inl ⟨_, _, _, _, _, hcall, ?_, .message (Nat.le_of_not_lt hcap), hI'⟩
      rw [hn]
      exact if_pos hn
    · exact Or.inr ⟨hwait, hcall⟩

private theorem receiveFromHandle_idle {b : CommBase} (hb : (vt h).base w = .ok b)
    (hp : b.probed.1 = false) (cap : Nat) :
    receiveFromHandle vt h cap w = (probeHandle vt h 0 true w >>= fun x => match x.1 with
      | .ok (_ + 1) => receiveProbedFromHandle vt h cap x.2.2
      | r => .ok (r, [], x.2.2)) := by
  unfold receiveFromHandle
  dsimp only
  rw [hb, bind_ok, hp]
  rfl

private theorem probeHandle_idle {b : CommBase} (hb : (vt h).base w = .ok b) (hp : b.probed.1 = false)
    (hrd : b.closedRd = false) :
    probeHandle vt h 0 true w = ((vt h).probe 0 true w >>= fun x => match x.1 with
      | .ok 0 => (vt h).close true true x.2.2 >>= fun w => .ok (.ok 0, x.2.1, w)
      | .error e => if e = .ECONNRESET then (vt h).close true true x.2.2 >>= fun w => .ok (.ok 0, x.2.1, w)
        else .ok (.error e, x.2.1, x.2.2)
      | .ok (n + 1) => if x.2.1 = 0 then (vt h).close false true ((vt h).setProbed (true, x.2.1) x.2.2) >>= fun w =>
            .ok (.ok 0, x.2.1, w)
        else .ok (.ok (n + 1), x.2.1, (vt h).setProbed (true, x.2.1) x.2.2)) := by
  unfold probeHandle
  dsimp only
  rw [hb, bind_ok, hp, hrd]
  rfl

/-- `receiveFromHandle` is answered as the reader of the source is, or waits. -/
theorem receiveFromHandle_step (hr : Hears (vt h) src I Waits) {ph : Phase σ Bytes} (hI : I ph w) (cap : Nat) :
    (∃ a ph' r bs w', receiveFromHandle vt h cap w = .ok (r, bs, w') ∧ receiveAnswer r bs = some a ∧
        Step src List.length (.receive cap) ph a ph' ∧ I ph' w') ∨
      (∃ ph', Ahead src ph ph' ∧ Waits ph') ∧ receiveFromHandle vt h cap w = .error .blocked := by
  cases ph with
  | opened m s =>
    rw [receiveFromHandle_opened hr hI]
    rcases receive_step_opened hr hI cap with hstep | ⟨hwait, hcall⟩
    · exact Or.inl hstep
    · exact Or.inr ⟨⟨_, .here, hwait⟩, hcall⟩
  | ended s =>
    obtain ⟨b, hb, hp, hrd⟩ := hr.ended hI
    refine Or.inl ⟨_, _, .ok 0, [], w, ?_, rfl, .ended, hI⟩
    unfold receiveFromHandle
    dsimp only
    rw [hb, bind_ok, hp, hrd]
    rfl
  | idle s =>
    obtain ⟨b, hb, hp, hrd⟩ := hr.idle hI
    rw [receiveFromHandle_idle hb hp, probeHandle_idle hb hp hrd]
    rcases hr.probe hI 0 with ⟨m, s', w', hn, hpr, hI'⟩ | ⟨hfin, w', w'', hpr, hc, hI'⟩ | ⟨hwait, hpr⟩
    · -- from here on it is as if the size had been known
      have hne : m.length ≠ 0 := fun e => (hr.opened hI').1 (List.length_eq_zero_iff.1 e)
      rw [hpr, bind_ok]
      dsimp only
      rw [if_neg hne]
      rcases receive_step_opened hr hI' cap with ⟨a, ph', r, bs, w'', hrecv, ha, hstep, hI''⟩ | ⟨hwait, hrecv⟩
      · exact Or.inl ⟨a, ph', r, bs, w'', hrecv, ha, .next hn hstep, hI''⟩
      · exact Or.inr ⟨⟨_, .next hn, hwait⟩, hrecv⟩
    · left
      refine ⟨_, _, .ok 0, [], w'', ?_, rfl, .finish hfin, hI'⟩
      rw [hpr, bind_ok]
      dsimp only
      rw [if_pos rfl, hc]
      rfl
    · right
      refine ⟨⟨_, .here, hwait⟩, ?_⟩
      rw [hpr]
      rfl

/-- What a result of `receiveFromHandle` that is an answer has been made of. -/
private theorem receiveAnswer_cases {r : Ret} {bs : Bytes} {a : Answer Bytes} (h : receiveAnswer r bs = some a) :
    (a = .finished ∧ r = .ok 0) ∨ (a = .noRoom ∧ r = .error .ENOMEM) ∨
      a = .message bs ∧ r = .ok bs.length ∧ bs ≠ [] := by
  rcases r with e | _ | n
  · cases e <;> cases h
    exact Or.inr (Or.inl ⟨rfl, rfl⟩)
  · cases h
    exact Or.inl ⟨rfl, rfl⟩
  · change (if bs.length = n + 1 then some (Answer.message bs) else none) = some a at h
    by_cases hlen : bs.length = n + 1
    · rw [if_pos hlen] at h
      cases h
      refine Or.inr (Or.inr ⟨rfl, by rw [hlen], fun e => ?_⟩)
      rw [e] at hlen
      cases hlen
    · rw [if_neg hlen] at h
      cases h

/-- A call of `receiveFromHandle` that returns, on a handle that brings a list of messages: the next message if
there is room for it, and the end only behind the last. -/
theorem receiveFromHandle_queue {closed : Bool} {I : Phase (List Bytes) Bytes → W → Prop}
    {Waits : Phase (List Bytes) Bytes → Prop} (hr : Hears (vt h) (queue closed) I Waits) {ph : Phase (List Bytes) Bytes}
    (hI : I ph w) {q : List Bytes} (hq : ph.queue = (q, false)) {cap : Nat} {r : Ret} {bs : Bytes} {w' : W}
    (he : receiveFromHandle vt h cap w = .ok (r, bs, w')) :
    (∃ q' ph', q = bs :: q' ∧ bs.length ≤ cap ∧ bs ≠ [] ∧ r = .ok bs.length ∧ ph'.queue = (q', false) ∧ I ph' w') ∨
      (∃ m q' ph', q = m :: q' ∧ cap < m.length ∧ r = .error .ENOMEM ∧ ph'.queue = (q, false) ∧ I ph' w') ∨
      q = [] ∧ closed = true ∧ r = .ok 0 ∧ I (.ended []) w' := by
  rcases receiveFromHandle_step hr hI cap with ⟨a, ph', r', bs', w'', he', ha, hstep, hI'⟩ | ⟨-, he'⟩
  · rw [he] at he'
    cases he'
    have hans := hstep.queueAnswer
    rw [hq] at hans
    cases q with
    | nil =>
      cases closed with
      | false => cases hans
      | true =>
        obtain ⟨h1, h2⟩ := Prod.mk.inj (Option.some.inj hans)
        subst h1
        right
        right
        have hr0 : r = .ok 0 := by
          rcases receiveAnswer_cases ha with ⟨-, h⟩ | ⟨h, -⟩ | ⟨h, -⟩
          · exact h
          · cases h
          · cases h
        cases ph' with
        | idle q' => cases h2
        | opened m q' => cases h2
        | ended q' =>
          cases h2
          exact ⟨rfl, rfl, hr0, hI'⟩
    | cons m q' =>
      have hans : (if cap < m.length then some (Answer.noRoom, (m :: q', false)) else some (.message m, (q', false))) =
          some (a, ph'.queue) := hans
      by_cases hcap : cap < m.length
      · rw [if_pos hcap] at hans
        obtain ⟨h1, h2⟩ := Prod.mk.inj (Option.some.inj hans)
        subst h1
        rcases receiveAnswer_cases ha with ⟨h, -⟩ | ⟨-, h⟩ | ⟨h, -⟩
        · cases h
        · exact Or.inr (Or.inl ⟨m, q', ph', rfl, hcap, h, h2.symm, hI'⟩)
        · cases h
      · rw [if_neg hcap] at hans
        obtain ⟨h1, h2⟩ := Prod.mk.inj (Option.some.inj hans)
        subst h1
        rcases receiveAnswer_cases ha with ⟨h, -⟩ | ⟨h, -⟩ | ⟨h, hr1, hne⟩
        · cases h
        · cases h
        · cases h
          exact Or.inl ⟨q', ph', rfl, Nat.le_of_not_lt hcap, hne, hr1, h2.symm, hI'⟩
  · rw [he] at he'
    cases he'

/-- On a handle that brings a list of messages, `receiveFromHandle` with room enough returns the next. -/
theorem receiveFromHandle_message {closed : Bool} {I : Phase (List Bytes) Bytes → W → Prop}
    (hr : Reads (vt h) (queue closed) I) {m : Bytes} {q : List Bytes} (hI : I (.idle (m :: q)) w) {cap : Nat}
    (hcap : m.length ≤ cap) :
    ∃ w', receiveFromHandle vt h cap w = .ok (.ok m.length, m, w') ∧ I (.idle q) w' ∧ m ≠ [] := by
  rcases receiveFromHandle_step hr.hears hI cap with ⟨a, ph', r, bs, w', he, ha, hstep, hI'⟩ |
    ⟨⟨ph', hahead, hstuck⟩, -⟩
  · cases hstep with
    | next hn hstep =>
      cases hn
      cases hstep with
      | message _ =>
        rcases receiveAnswer_cases ha with ⟨h, -⟩ | ⟨h, -⟩ | ⟨h, hr1, hne⟩
        · cases h
        · cases h
        · cases h
          exact ⟨w', by rw [he, hr1], hI', hne⟩
      | noRoom hlt => exact absurd hcap (Nat.not_le.2 hlt)
    | finish hfin => exact absurd hfin.1 (List.cons_ne_nil _ _)
  · obtain ⟨s, rfl, -, hn⟩ := hstuck
    cases hahead with
    | here => exact absurd rfl (hn m q)

/-- On a handle that brings a list of messages, `probeHandle` returns the size of the next. -/
theorem probeHandle_message {closed : Bool} {I : Phase (List Bytes) Bytes → W → Prop}
    (hr : Reads (vt h) (queue closed) I) {m : Bytes} {q : List Bytes} (hI : I (.idle (m :: q)) w) (size : Nat) :
    ∃ w', probeHandle vt h size true w = .ok (.ok sizeofSizeT, m.length, w') ∧ I (.opened m q) w' := by
  obtain ⟨b, hb, hp, hrd⟩ := hr.idle hI
  rcases hr.probe hI size with ⟨m', q', w', hn, hpr, hI'⟩ | ⟨hfin, -⟩ | ⟨-, hn, -⟩
  · cases hn
    have hne : m.length ≠ 0 := fun e => (hr.opened hI').1 (List.length_eq_zero_iff.1 e)
    refine ⟨_, ?_, hI'⟩
    unfold probeHandle
    dsimp only
    rw [hb, bind_ok, hp, hrd, hpr]
    exact if_neg hne
  · exact absurd hfin.1 (List.cons_ne_nil _ _)
  · exact absurd rfl (hn m q)

/-- Without room for the next message `receiveFromHandle` leaves it, with its size known. -/
theorem receiveFromHandle_noRoom {closed : Bool} {I : Phase (List Bytes) Bytes → W → Prop}
    (hr : Reads (vt h) (queue closed) I) {m : Bytes} {q : List Bytes} (hI : I (.idle (m :: q)) w) {cap : Nat}
    (hcap : cap < m.length) :
    ∃ w', receiveFromHandle vt h cap w = .ok (.error .ENOMEM, [], w') ∧ I (.opened m q) w' := by
  obtain ⟨b, hb, hp, -⟩ := hr.idle hI
  obtain ⟨w', hprobe, hI'⟩ := probeHandle_message hr hI 0
  obtain ⟨-, b', hb', hp', -⟩ := hr.opened hI'
  refine ⟨w', ?_, hI'⟩
  rw [receiveFromHandle_idle hb hp, hprobe, bind_ok]
  dsimp only
  unfold receiveProbedFromHandle
  dsimp only
  rw [hb', bind_ok, hp']
  exact if_pos hcap

end

/-! ### Several participants -/

/-- Each of the handles brings the messages of its source and leaves the others where they are; and when one has ended,
closing its write side deletes it. -/
structure Participants (vt : H → CommunicationHandle W) (src : H → Source σ Bytes)
    (I : H → Phase σ Bytes → W → Prop) : Prop where
  reads : ∀ h, Reads (vt h) (src h) (I h)
  apart : ∀ {h j : H}, j ≠ h → ∀ ph, (vt h).Keeps (I j ph)
  gone : ∀ {h s w}, I h (.ended s) w → ∃ w', (vt h).close true false w = .ok w' ∧ (vt h).base w' = .error .useAfterFree

/-! ### TCP -/

namespace Process

/-- The handle is open in both directions, and nobody owns it. -/
structure Attached (p : Process) (id : Nat) : Prop where
  live : p.Live id
  closedRd : (p.handles id).closedRd = false
  closedWr : (p.handles id).closedWr = false
  counter : (p.handles id).counter = 0

theorem Attached.withIncoming {p : Process} {id : Nat} (h : p.Attached id) (pr : Bool × Nat) (s : List SockArrival) :
    (p.withIncoming id pr s).Attached id := by
  refine ⟨h.live.withIncoming pr s, ?_, ?_, ?_⟩
  · rw [withIncoming_handles]
    exact h.closedRd
  · rw [withIncoming_handles]
    exact h.closedWr
  · rw [withIncoming_handles]
    exact h.counter

end Process

/-- What the handle of a participant is like in each phase of the reading of a list of messages. -/
def Attending (A : List SockArrival → Bytes → Prop) (closed : Bool) (id : Nat) :
    Phase (List Bytes) Bytes → Process → Prop
  | .idle q, p => p.Attached id ∧ (p.handles id).probed.1 = false ∧ (∀ m ∈ q, Sendable m) ∧
      A (p.handles id).incoming (encode closed q)
  | .opened m q, p => p.Attached id ∧ (p.handles id).probed = (true, m.length) ∧ m ≠ [] ∧ (∀ m ∈ q, Sendable m) ∧
      A (p.handles id).incoming (m ++ encode closed q)
  | .ended _, p => id < p.allocated ∧ (p.handles id).deleted = false ∧ (p.handles id).probed = (true, 0) ∧
      (p.handles id).closedRd = true ∧ (p.handles id).closedWr = false ∧ (p.handles id).counter = 0

section

variable {A : List SockArrival → Bytes → Prop} {closed : Bool} {mayWait : Prop} {id : Nat}

private theorem Attending.congr {ph : Phase (List Bytes) Bytes} {p p' : Process} (h : p'.handles id = p.handles id)
    (ha : p'.allocated = p.allocated) (hp : Attending A closed id ph p) : Attending A closed id ph p' := by
  have hatt : p.Attached id → p'.Attached id := by
    rintro ⟨⟨h1, h2, h3⟩, h4, h5, h6⟩
    refine ⟨⟨ha ▸ h1, ?_, ?_⟩, ?_, ?_, ?_⟩
    all_goals rw [h]; assumption
  cases ph with
  | idle q =>
    obtain ⟨h1, h2⟩ := hp
    refine ⟨hatt h1, ?_⟩
    rw [h]
    exact h2
  | opened m q =>
    obtain ⟨h1, h2⟩ := hp
    refine ⟨hatt h1, ?_⟩
    rw [h]
    exact h2
  | ended q =>
    obtain ⟨h1, h2⟩ := hp
    refine ⟨ha ▸ h1, ?_⟩
    rw [h]
    exact h2

/-- The peer goes on: `x` are the bytes of the messages `l` that it sends, or of its EOS. -/
theorem Attending.grow {A' : List SockArrival → Bytes → Prop} {closed' : Bool} {l : List Bytes} {x : Bytes}
    {ph : Phase (List Bytes) Bytes} {p : Process} (hp : Attending A closed id ph p)
    (hx : ∀ q, encode closed' (q ++ l) = encode closed q ++ x) (hA : ∀ s bs, A s bs → A' s (bs ++ x))
    (hl : ∀ m ∈ l, Sendable m) {q : List Bytes} (hq : ph.queue = (q, false)) :
    ∃ ph', ph'.queue = (q ++ l, false) ∧ Attending A' closed' id ph' p := by
  have hall : ∀ {q : List Bytes}, (∀ m ∈ q, Sendable m) → ∀ m ∈ q ++ l, Sendable m := by
    intro q hq m hm
    rcases List.mem_append.1 hm with hm | hm
    · exact hq m hm
    · exact hl m hm
  cases ph with
  | idle q0 =>
    cases hq
    obtain ⟨h1, h2, h3, h4⟩ := hp
    refine ⟨.idle (q ++ l), rfl, h1, h2, hall h3, ?_⟩
    rw [hx]
    exact hA _ _ h4
  | opened m q0 =>
    cases hq
    obtain ⟨h1, h2, h3, h4, h5⟩ := hp
    refine ⟨.opened m (q0 ++ l), rfl, h1, h2, h3, hall h4, ?_⟩
    rw [hx, ← List.append_assoc]
    exact hA _ _ h5
  | ended q0 => cases hq

/-- Something happens at the receiving end of the socket. -/
theorem Attending.incoming {A' : List SockArrival → Bytes → Prop} {ph : Phase (List Bytes) Bytes} {p : Process}
    {s : List SockArrival} (hp : Attending A closed id ph p) (hA : ∀ bs, A (p.handles id).incoming bs → A' s bs) :
    Attending A' closed id ph (p.withIncoming id (p.handles id).probed s) := by
  cases ph with
  | idle q =>
    obtain ⟨h1, h2, h3, h4⟩ := hp
    refine ⟨h1.withIncoming _ _, ?_, h3, ?_⟩ <;> rw [Process.withIncoming_handles]
    · exact h2
    · exact hA _ h4
  | opened m q =>
    obtain ⟨h1, h2, h3, h4, h5⟩ := hp
    refine ⟨h1.withIncoming _ _, ?_, h3, h4, ?_⟩ <;> rw [Process.withIncoming_handles]
    · exact h2
    · exact hA _ h5
  | ended q =>
    obtain ⟨h1, h2⟩ := hp
    refine ⟨h1, ?_⟩
    rw [Process.withIncoming_handles]
    exact h2

/-- A handle that nobody owns and that is open for writing can be read. -/
theorem attached_readable (A : List SockArrival → Bytes → Prop) (closed : Bool) (id : Nat) :
    Readable (fun p => p.Attached id) (Attending A closed id (.ended [])) id where
  live h := h.live
  closedRd h := h.closedRd
  withIncoming h := h.withIncoming
  close := by
    intro p h hp
    obtain ⟨p', hclose, halloc, hdel, hrd, hprobed, hwr, hcount⟩ := h.live.close_reading (Or.inr h.closedWr)
    exact ⟨p', hclose, halloc ▸ h.live.allocated, hdel, hprobed.trans hp, hrd, hwr.trans h.closedWr,
      hcount.trans h.counter⟩
  done h := ⟨h.1, h.2.1, h.2.2.1, h.2.2.2.1⟩

/-- A TCP handle nobody owns, on which the bytes of a list of messages are to come, brings these messages. -/
theorem tcp_hears (hA : Supplies closed A mayWait) (id : Nat) :
    Hears (tcpHandle id) (queue closed) (Attending A closed id) fun ph => Stuck (queue closed) ph ∨ mayWait := by
  have hsame : Attending A closed id =
      Streaming (fun p => p.Attached id) (Attending A closed id (.ended [])) A closed id := by
    funext ph
    cases ph <;> rfl
  rw [hsame]
  exact tcp_hears_of hA (attached_readable A closed id)

/-- On a handle whose write side is open and that nobody owns, closing that side at the end deletes it. -/
theorem Attending.gone {q : List Bytes} {p : Process} (h : Attending A closed id (.ended q) p) :
    (tcpHandle id).close true false p = .ok (p.closeHandle id true false) ∧
      ((p.closeHandle id true false).handles id).deleted = true := by
  obtain ⟨hid, hdel, -, hrd, hwr, hcount⟩ := h
  have hd : p.deref id = .ok (p.handles id) := Process.deref_eq_ok.2 ⟨hid, hdel, rfl⟩
  refine ⟨?_, p.closeHandle_deletes hcount (Bool.or_true _) ((Bool.or_false _).trans hrd)⟩
  change (p.deref id >>= _) = _
  rw [hd]
  rfl

/-- What is sent on the handle does not concern what is read from it. -/
theorem Attending.send {q : List Bytes} {p : Process} (h : Attending A closed id (.idle q) p) (m : Bytes) :
    ∃ r p', (tcpHandle id).send m p = .ok (r, p') ∧ Attending A closed id (.idle q) p' := by
  obtain ⟨hatt, hprobed, hq, hA⟩ := h
  obtain ⟨sent, answers, hsend⟩ := (p.handles id).send_wire m
  refine ⟨((p.handles id).send m).1,
    p.put id { p.handles id with wire := (p.handles id).wire ++ sent, answers := answers }, ?_, ?_, ?_, hq, ?_⟩
  · change (p.deref id >>= fun h => .ok ((h.send m).1, p.put id (h.send m).2)) = _
    rw [hatt.live.deref, bind_ok, hsend]
  · refine ⟨hatt.live.put rfl rfl, ?_, ?_, ?_⟩ <;> rw [Process.put_handles_self]
    · exact hatt.closedRd
    · exact hatt.closedWr
    · exact hatt.counter
  · rw [Process.put_handles_self]
    exact hprobed
  · rw [Process.put_handles_self]
    exact hA

end

/-- TCP handles nobody owns, on which the bytes of lists of messages arrive, are participants. -/
theorem tcp_participants (closed : Nat → Bool) :
    Participants tcpHandle (fun id => queue (closed id)) fun id => Attending (Arrives (closed id)) (closed id) id where
  reads id := (tcp_hears (arrives_supplies (closed id)) id).reads fun h => h.resolve_right fun hwait => hwait
  apart := by
    intro id j hj ph
    refine Process.tcpHandle_keeps fun {p p'} hp hstep => ?_
    have honly := Process.only_handleStep hstep
    exact hp.congr (honly.others j hj) honly.allocated
  gone := by
    intro id q p h
    obtain ⟨hclose, hdel⟩ := h.gone
    refine ⟨_, hclose, ?_⟩
    change ((p.closeHandle id true false).deref id >>= _) = _
    rw [Process.deref, if_pos (Or.inr hdel)]
    rfl

end Mtcl
