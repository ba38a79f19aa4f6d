import Mathlib.Algebra.Order.Ring.Nat
import Mathlib.Data.List.Basic

/-!
# Sources of messages and their readers

A source hands out messages one by one until it is finished; `queue` is the source that hands out a list in order, and
`merge` the one over several queues any of which may be next.  A reader of a source may ask for the size of the next
message as often as it likes, and takes a message away only with room enough for it (`Step`).

`Run.path` says what a run of the reader has received, and `merge_path` what the messages of a merge are: each of them
can be given the queue it came from so that each queue is handed out in its order, once.
-/

namespace Sources

variable {σ μ ι : Type}

/-- A source of messages: which one it may hand out next, and when there are no more. -/
structure Source (σ μ : Type) where
  next : σ → μ → σ → Prop
  finished : σ → Prop

/-- The messages of a list in order; a source that has not been closed never finishes. -/
def queue (closed : Bool) : Source (List μ) μ where
  next q m q' := q = m :: q'
  finished q := q = [] ∧ closed = true

/-- Several queues, any of which may be next. -/
def merge : Source (ι → List μ) μ where
  next qs m qs' := ∃ i, qs i = m :: qs' i ∧ ∀ j, j ≠ i → qs' j = qs j
  finished qs := ∀ i, qs i = []

/-! ### The reader -/

/-- Where the reader of a source stands: before the next message, at a message of which it knows the size, or at
the end. -/
inductive Phase (σ μ : Type)
  | idle (s : σ)
  | opened (m : μ) (s : σ)
  | ended (s : σ)

/-- What the reader asks for: the size of the next message, or the message if there is room for it. -/
inductive Request
  | probe
  | receive (cap : Nat)
  deriving DecidableEq, Repr

/-- What it gets. -/
inductive Answer (μ : Type)
  | size (n : Nat)
  | message (m : μ)
  | noRoom
  | finished
  deriving DecidableEq, Repr

namespace Phase

/-- What the source still has. -/
def state : Phase σ μ → σ
  | idle s => s
  | opened _ s => s
  | ended s => s

/-- The message the reader stands at. -/
def pending : Phase σ μ → List μ
  | opened m _ => [m]
  | _ => []

end Phase

/-- What a source answers to a request. -/
inductive Step (src : Source σ μ) (size : μ → Nat) : Request → Phase σ μ → Answer μ → Phase σ μ → Prop
  | probe {m : μ} {s : σ} : Step src size .probe (.opened m s) (.size (size m)) (.opened m s)
  | message {m : μ} {s : σ} {cap : Nat} (h : size m ≤ cap) :
      Step src size (.receive cap) (.opened m s) (.message m) (.idle s)
  | noRoom {m : μ} {s : σ} {cap : Nat} (h : cap < size m) :
      Step src size (.receive cap) (.opened m s) .noRoom (.opened m s)
  | next {r : Request} {m : μ} {s s' : σ} {a : Answer μ} {ph : Phase σ μ} (h : src.next s m s')
      (h' : Step src size r (.opened m s') a ph) : Step src size r (.idle s) a ph
  | finish {r : Request} {s : σ} (h : src.finished s) : Step src size r (.idle s) .finished (.ended s)
  | ended {r : Request} {s : σ} : Step src size r (.ended s) .finished (.ended s)

/-- The answers to a list of requests. -/
inductive Run (src : Source σ μ) (size : μ → Nat) :
    List Request → Phase σ μ → List (Answer μ) → Phase σ μ → Prop
  | nil {ph : Phase σ μ} : Run src size [] ph [] ph
  | cons {r : Request} {rs : List Request} {a : Answer μ} {as : List (Answer μ)} {ph ph1 ph2 : Phase σ μ}
      (h : Step src size r ph a ph1) (h' : Run src size rs ph1 as ph2) : Run src size (r :: rs) ph (a :: as) ph2

/-- The messages among the answers. -/
def received : List (Answer μ) → List μ
  | [] => []
  | .message m :: as => m :: received as
  | _ :: as => received as

/-- The source hands out these messages, one after the other. -/
inductive Path (src : Source σ μ) : σ → List μ → σ → Prop
  | nil {s : σ} : Path src s [] s
  | cons {s s1 s2 : σ} {m : μ} {ms : List μ} (h : src.next s m s1) (h' : Path src s1 ms s2) :
      Path src s (m :: ms) s2

/-! ### What a run has received -/

variable {src : Source σ μ} {size : μ → Nat}

/-- The reader will get these messages, and then the source is in this state. -/
private def Gets (src : Source σ μ) (ms : List μ) (s' : σ) : Phase σ μ → Prop
  | .idle s => Path src s ms s'
  | .opened m s => ∃ rest, ms = m :: rest ∧ Path src s rest s'
  | .ended s => ms = [] ∧ s' = s

private theorem Step.gets {r : Request} {a : Answer μ} {ph ph' : Phase σ μ} (h : Step src size r ph a ph')
    {ms : List μ} {s' : σ} (hg : Gets src ms s' ph') : Gets src (received [a] ++ ms) s' ph := by
  induction h with
  | probe => exact hg
  | message _ => exact ⟨ms, rfl, hg⟩
  | noRoom _ => exact hg
  | next h _ ih =>
    obtain ⟨rest, e, hp⟩ := ih hg
    rw [e]
    exact .cons h hp
  | finish _ =>
    obtain ⟨rfl, rfl⟩ := hg
    exact .nil
  | ended => exact hg

private theorem received_cons (a : Answer μ) (as : List (Answer μ)) : received (a :: as) = received
    [a] ++ received as := by
  cases a <;> rfl

private theorem Run.gets {rs : List Request} {as : List (Answer μ)} {ph ph' : Phase σ μ} (h : Run src size rs ph as ph')
    {ms : List μ} {s' : σ} (hg : Gets src ms s' ph') : Gets src (received as ++ ms) s' ph := by
  induction h with
  | nil => exact hg
  | cons h _ ih =>
    rw [received_cons, List.append_assoc]
    exact h.gets (ih hg)

/-- A run has received what the source has handed out, but for the message it stands at. -/
theorem Run.path {rs : List Request} {as : List (Answer μ)} {s : σ} {ph : Phase σ μ}
    (h : Run src size rs (.idle s) as ph) : Path src s (received as ++ ph.pending) ph.state := by
  have hg : Gets src ph.pending ph.state ph := by
    cases ph with
    | idle s => exact Path.nil
    | opened m s => exact ⟨[], rfl, .nil⟩
    | ended s => exact ⟨rfl, rfl⟩
  exact h.gets hg

private theorem Run.ended {rs : List Request} {as : List (Answer μ)} {s : σ} {ph : Phase σ μ}
    (h : Run src size rs (.ended s) as ph) : ph = .ended s := by
  induction rs generalizing as with
  | nil =>
    cases h
    rfl
  | cons r rs ih =>
    cases h with
    | cons h h' =>
      cases h
      exact ih h'

/-- The end is answered exactly where the reader gets to the end, and there the source is finished. -/
private theorem Step.finished {r : Request} {a : Answer μ} {ph ph' : Phase σ μ} (h : Step src size r ph a ph')
    (hph : ∀ s, ph = .ended s → src.finished s) :
    (∀ s, ph' = .ended s → src.finished s) ∧ (a = .finished → ∃ s, ph' = .ended s) := by
  induction h with
  | probe => exact ⟨nofun, nofun⟩
  | message _ => exact ⟨nofun, nofun⟩
  | noRoom _ => exact ⟨nofun, nofun⟩
  | next _ _ ih => exact ih nofun
  | finish hfin =>
    refine ⟨fun s e => ?_, fun _ => ⟨_, rfl⟩⟩
    cases e
    exact hfin
  | ended => exact ⟨hph, fun _ => ⟨_, rfl⟩⟩

/-- When the end has been answered, the reader is at the end of a source that is finished. -/
theorem Run.finished {rs : List Request} {as : List (Answer μ)} {ph ph' : Phase σ μ} (h : Run src size rs ph as ph')
    (hph : ∀ s, ph = .ended s → src.finished s) (hm : Answer.finished ∈ as) :
    ∃ s, ph' = .ended s ∧ src.finished s := by
  induction h with
  | nil => exact absurd hm List.not_mem_nil
  | @cons r rs a as ph ph1 ph2 h h' ih =>
    obtain ⟨h1, h2⟩ := h.finished hph
    by_cases hm' : Answer.finished ∈ as
    · exact ih h1 hm'
    · obtain ⟨s, e⟩ := h2 ((List.mem_cons.1 hm).resolve_right hm').symm
      subst e
      exact ⟨s, h'.ended, h1 s rfl⟩

/-- What a queue hands out is the front of its list. -/
theorem queue_path {closed : Bool} {q ms q' : List μ} (h : Path (queue closed) q ms q') : q = ms ++ q' := by
  induction h with
  | nil => rfl
  | cons h _ ih =>
    rw [show _ = _ :: _ from h, ih]
    rfl

/-! ### The queue as a function -/

/-- What a queue answers: the flag says that the end has been answered.  A queue that is not closed has no
answer when it is empty. -/
def queueAnswer (closed : Bool) (size : μ → Nat) :
    Request → List μ × Bool → Option (Answer μ × (List μ × Bool))
  | _, (q, true) => some (.finished, (q, true))
  | _, ([], false) => if closed then some (.finished, ([], true)) else none
  | .probe, (m :: q, false) => some (.size (size m), (m :: q, false))
  | .receive cap, (m :: q, false) =>
    if cap < size m then some (.noRoom, (m :: q, false)) else some (.message m, (q, false))

/-- The state of the queue at a phase of the reader. -/
def Phase.queue : Phase (List μ) μ → List μ × Bool
  | idle q => (q, false)
  | opened m q => (m :: q, false)
  | ended q => (q, true)

/-- What the reader of a list of messages is answered is what the queue answers. -/
theorem Step.queueAnswer {closed : Bool} {r : Request} {ph ph' : Phase (List μ) μ} {a : Answer μ}
    (h : Step (queue closed) size r ph a ph') : queueAnswer closed size r ph.queue = some (a, ph'.queue) := by
  induction h with
  | probe => rfl
  | message h => exact if_neg (Nat.not_lt.2 h)
  | noRoom h => exact if_pos h
  | next h _ ih =>
    rw [← ih, show _ = _ :: _ from h]
    rfl
  | @finish r s h =>
    obtain ⟨rfl, rfl⟩ := h
    cases r <;> rfl
  | @ended r s =>
    cases r <;> rfl

/-- The messages of a list of tagged messages that carry the tag. -/
def ofTag [DecidableEq ι] (i : ι) (l : List (ι × μ)) : List μ :=
  l.filterMap fun e => if e.1 = i then some e.2 else none

/-- What a merge hands out, each message with the queue it came from: every queue is handed out in its order. -/
theorem merge_path [DecidableEq ι] {qs qs' : ι → List μ} {ms : List μ} (h : Path merge qs ms qs') :
    ∃ l : List (ι × μ), l.map Prod.snd = ms ∧ ∀ i, qs i = ofTag i l ++ qs' i := by
  induction h with
  | nil => exact ⟨[], rfl, fun _ => rfl⟩
  | @cons s s1 s2 m ms h _ ih =>
    obtain ⟨l, hl, hq⟩ := ih
    obtain ⟨i, hi, hother⟩ := h
    refine ⟨(i, m) :: l, by rw [List.map_cons, hl], fun j => ?_⟩
    by_cases hj : j = i
    · subst hj
      rw [hi, hq j]
      simp [ofTag]
    · rw [← hother j hj, hq j]
      have hne : i ≠ j := fun e => hj e.symm
      simp [ofTag, hne]

end Sources
