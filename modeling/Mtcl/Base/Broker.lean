import Mathlib.Data.List.Basic
import Mathlib.Logic.Function.Basic

/-!
# Brokers

Clients subscribe to topics at a broker, which hands every message that is published on a topic to each client
that has subscribed to it.  The broker and its clients are a parameter: an `Exchange` says what the operations
of the clients do to a state of which nothing else is known.

`Broker` is such a state with its history: `log` is everything that has been published, `taken` what a client
has consumed, and `since` when it has subscribed.  `Exchange.Reliable` is what brokers promise about the states
that operations lead to (`Traced`), and `Serves` what follows: a client gets exactly what has been published on
its topics since it has subscribed to them, topic by topic in order, and nothing else.  `Exchange.memory` keeps
the promises.
-/

/-- The operations of clients at a broker.  `connect` asks for a clean session or not, and says whether a
session is present; `queue` is what the broker has for a client, on the way to it included, and `consume` takes
the first of it. -/
structure Exchange (β κ τ μ : Type) where
  fresh : β → Prop
  connect : κ → Bool → β → Bool × β
  subscribe : κ → τ → β → β
  publish : τ → μ → β → β
  queue : κ → β → List (τ × μ)
  consume : κ → β → β

/-- A broker with its history.  `since c t` is the length of `log` when the client `c` has subscribed to `t`. -/
structure Broker {β κ τ μ : Type} (X : Exchange β κ τ μ) where
  state : β
  session : κ → Bool := fun _ => false
  since : κ → τ → Option Nat := fun _ _ => none
  taken : κ → List (τ × μ) := fun _ => []
  log : List (τ × μ) := []

namespace Broker

variable {β κ τ μ : Type} {X : Exchange β κ τ μ}

def queue (b : Broker X) (c : κ) : List (τ × μ) := X.queue c b.state

/-- A client connects: whether its session is present, and the broker.  A session that is not present begins anew. -/
def connect [DecidableEq κ] (b : Broker X) (c : κ) (clean : Bool) : Bool × Broker X :=
  let (present, state) := X.connect c clean b.state
  if present then (true, { b with state := state, session := Function.update b.session c true })
  else
    (false, { b with
      state := state
      session := Function.update b.session c true
      since := Function.update b.since c fun _ => none
      taken := Function.update b.taken c [] })

/-- A subscription to a topic that has been subscribed to already does not begin anew. -/
def subscribe [DecidableEq κ] [DecidableEq τ] (b : Broker X) (c : κ) (t : τ) : Broker X :=
  { b with
    state := X.subscribe c t b.state
    since := Function.update b.since c (Function.update (b.since c) t (some ((b.since c t).getD b.log.length))) }

def publish (b : Broker X) (t : τ) (m : μ) : Broker X :=
  { b with state := X.publish t m b.state, log := b.log ++ [(t, m)] }

def publishAll (b : Broker X) (t : τ) (ms : List μ) : Broker X := ms.foldl (fun b m => b.publish t m) b

/-- A client consumes the first message of its queue. -/
def consume [DecidableEq κ] (b : Broker X) (c : κ) : Broker X :=
  { b with
    state := X.consume c b.state
    taken := Function.update b.taken c (b.taken c ++ (b.queue c).take 1) }

/-- A client consumes the first `n` messages of its queue. -/
def take [DecidableEq κ] (b : Broker X) (c : κ) : Nat → Broker X
  | 0 => b
  | n + 1 => (b.consume c).take c n

/-- What the client has got, or will get of what has been published. -/
def got (b : Broker X) (c : κ) : List (τ × μ) := b.taken c ++ b.queue c

/-- The messages on a topic, in order. -/
def on [DecidableEq τ] (t : τ) (l : List (τ × μ)) : List (τ × μ) := l.filter fun e => e.1 = t

/-- The client has subscribed to the topic before anything has been published on it. -/
def Hears [DecidableEq τ] (b : Broker X) (c : κ) (t : τ) : Prop := ∃ n, b.since c t = some n ∧ on t (b.log.take n) = []

/-- The clients get what they have subscribed to. -/
structure Serves [DecidableEq τ] (b : Broker X) : Prop where
  got : ∀ c t n, b.since c t = some n → on t (b.got c) = on t (b.log.drop n)
  only : ∀ c e, e ∈ b.got c → (b.since c e.1).isSome
  past : ∀ c t n, b.since c t = some n → n ≤ b.log.length

/-- A state with its history, from a fresh broker on. -/
inductive Traced [DecidableEq κ] [DecidableEq τ] : Broker X → Prop
  | fresh {state : β} (h : X.fresh state) : Traced { state := state }
  | connect {b : Broker X} (h : Traced b) (c : κ) (clean : Bool) : Traced (b.connect c clean).2
  | subscribe {b : Broker X} (h : Traced b) (c : κ) (t : τ) : Traced (b.subscribe c t)
  | publish {b : Broker X} (h : Traced b) (t : τ) (m : μ) : Traced (b.publish t m)
  | consume {b : Broker X} (h : Traced b) (c : κ) : Traced (b.consume c)

end Broker

/-- What brokers promise: a clean session, or that of a client that has not been there before, is not present;
what a client has got on a topic, or will get, is what has been published on it since it has subscribed to it,
in order; it gets nothing on other topics. -/
structure Exchange.Reliable {β κ τ μ : Type} [DecidableEq κ] [DecidableEq τ] (X : Exchange β κ τ μ) : Prop where
  present : ∀ (b : Broker X) (c : κ) (clean : Bool), b.Traced → (clean = true ∨ b.session c = false) →
    (X.connect c clean b.state).1 = false
  delivers : ∀ (b : Broker X) (c : κ) (t : τ) (n : Nat), b.Traced → b.since c t = some n →
    Broker.on t (b.taken c ++ X.queue c b.state) = Broker.on t (b.log.drop n)
  only : ∀ (b : Broker X) (c : κ), b.Traced → ∀ e ∈ X.queue c b.state, (b.since c e.1).isSome

namespace Broker

variable {β κ τ μ : Type} {X : Exchange β κ τ μ} {b : Broker X} {c c' : κ} {t t' : τ} {m : μ} {n : Nat}

theorem on_append [DecidableEq τ] (t : τ) (l l' : List (τ × μ)) : on t (l ++ l') = on t l ++ on t l' :=
  List.filter_append ..

theorem on_single [DecidableEq τ] (t t' : τ) (m : μ) : on t [(t', m)] = if t' = t then [(t', m)] else [] := by
  unfold on
  rw [List.filter_singleton]
  by_cases h : t' = t
  · simp [h]
  · simp [h]

theorem on_map [DecidableEq τ] (t t' : τ) (ms : List μ) :
    on t (ms.map (t', ·)) = if t' = t then ms.map (t', ·) else [] := by
  unfold on
  by_cases h : t' = t
  · rw [if_pos h, List.filter_eq_self]
    intro e he
    obtain ⟨m, -, rfl⟩ := List.mem_map.1 he
    exact decide_eq_true h
  · rw [if_neg h, List.filter_eq_nil_iff]
    intro e he
    obtain ⟨m, -, rfl⟩ := List.mem_map.1 he
    simpa using h

theorem mem_on [DecidableEq τ] {e : τ × μ} {l : List (τ × μ)} : e ∈ on t l ↔ e ∈ l ∧ e.1 = t := by
  unfold on
  rw [List.mem_filter, decide_eq_true_iff]

/-! ### What the operations change -/

theorem subscribe_since [DecidableEq κ] [DecidableEq τ] (b : Broker X) (c c' : κ) (t t' : τ) :
    (b.subscribe c t).since c' t' =
      if c' = c ∧ t' = t then some ((b.since c t).getD b.log.length) else b.since c' t' := by
  show Function.update b.since c _ c' t' = _
  by_cases hc : c' = c
  · subst hc
    rw [Function.update_self]
    by_cases ht : t' = t
    · subst ht
      rw [Function.update_self, if_pos ⟨rfl, rfl⟩]
    · rw [Function.update_of_ne ht, if_neg fun h => ht h.2]
  · rw [Function.update_of_ne hc, if_neg fun h => hc h.1]

theorem publishAll_log (b : Broker X) (t : τ) (ms : List μ) : (b.publishAll t ms).log = b.log ++ ms.map (t, ·) := by
  induction ms generalizing b with
  | nil => exact (List.append_nil _).symm
  | cons m ms ih => exact (ih (b.publish t m)).trans (List.append_assoc ..)

/-- Publications change nothing else. -/
theorem publishAll_frame (b : Broker X) (t : τ) (ms : List μ) :
    (b.publishAll t ms).since = b.since ∧ (b.publishAll t ms).session = b.session ∧
      (b.publishAll t ms).taken = b.taken := by
  induction ms generalizing b with
  | nil => exact ⟨rfl, rfl, rfl⟩
  | cons m ms ih => exact ih (b.publish t m)

theorem consume_taken [DecidableEq κ] (b : Broker X) (c c' : κ) :
    (b.consume c).taken c' = if c' = c then b.taken c ++ (b.queue c).take 1 else b.taken c' :=
  Function.update_apply ..

/-- What a client has consumed comes behind what it has consumed before. -/
theorem take_taken [DecidableEq κ] (b : Broker X) (c c' : κ) (n : Nat) :
    b.taken c' <+: (b.take c n).taken c' ∧ (c' ≠ c → (b.take c n).taken c' = b.taken c') := by
  induction n generalizing b with
  | zero => exact ⟨List.prefix_refl _, fun _ => rfl⟩
  | succ n ih =>
    obtain ⟨h1, h2⟩ := ih (b.consume c)
    have htaken := consume_taken b c c'
    refine ⟨List.IsPrefix.trans ?_ h1, fun hne => (h2 hne).trans (htaken.trans (if_neg hne))⟩
    rw [htaken]
    split
    · rename_i he
      rw [he]
      exact List.prefix_append _ _
    · exact List.prefix_refl _

/-- It changes nothing else. -/
theorem take_frame [DecidableEq κ] (b : Broker X) (c : κ) (n : Nat) :
    (b.take c n).since = b.since ∧ (b.take c n).session = b.session ∧ (b.take c n).log = b.log := by
  induction n generalizing b with
  | zero => exact ⟨rfl, rfl, rfl⟩
  | succ n ih => exact ih (b.consume c)

theorem connect_log [DecidableEq κ] (b : Broker X) (c : κ) (clean : Bool) : (b.connect c clean).2.log = b.log := by
  unfold connect
  dsimp only
  split
  · rfl
  · rfl

theorem connect_session [DecidableEq κ] (b : Broker X) (c c' : κ) (clean : Bool) :
    (b.connect c clean).2.session c' = if c' = c then true else b.session c' := by
  have happly : Function.update b.session c true c' = if c' = c then true else b.session c' := Function.update_apply ..
  rw [← happly]
  unfold connect
  dsimp only
  split
  · rfl
  · rfl

/-- A session goes on, or begins anew. -/
theorem connect_cases [DecidableEq κ] (b : Broker X) (c : κ) (clean : Bool) :
    ((b.connect c clean).2.since = b.since ∧ (b.connect c clean).2.taken = b.taken) ∨
      (b.connect c clean).2.since = Function.update b.since c (fun _ => none) ∧
        (b.connect c clean).2.taken = Function.update b.taken c [] := by
  unfold connect
  dsimp only
  split
  · exact Or.inl ⟨rfl, rfl⟩
  · exact Or.inr ⟨rfl, rfl⟩

theorem connect_since [DecidableEq κ] (b : Broker X) (c : κ) (clean : Bool) (hne : c' ≠ c) :
    (b.connect c clean).2.since c' = b.since c' := by
  rcases connect_cases b c clean with ⟨h, -⟩ | ⟨h, -⟩
  · rw [h]
  · rw [h, Function.update_of_ne hne]

theorem connect_taken [DecidableEq κ] (b : Broker X) (c : κ) (clean : Bool) (hne : c' ≠ c) :
    (b.connect c clean).2.taken c' = b.taken c' := by
  rcases connect_cases b c clean with ⟨-, h⟩ | ⟨-, h⟩
  · rw [h]
  · rw [h, Function.update_of_ne hne]

theorem Traced.publishAll [DecidableEq κ] [DecidableEq τ] (h : b.Traced) (t : τ) (ms : List μ) :
    (b.publishAll t ms).Traced := by
  induction ms generalizing b with
  | nil => exact h
  | cons m ms ih => exact ih (h.publish t m)

theorem Traced.take [DecidableEq κ] [DecidableEq τ] (h : b.Traced) (c : κ) (n : Nat) : (b.take c n).Traced := by
  induction n generalizing b with
  | zero => exact h
  | succ n ih => exact ih (h.consume c)

/-- The position of a subscription lies in the past. -/
theorem Traced.past [DecidableEq κ] [DecidableEq τ] (h : b.Traced) {c : κ} {t : τ} {n : Nat}
    (hn : b.since c t = some n) : n ≤ b.log.length := by
  induction h generalizing c t n with
  | fresh => cases hn
  | @connect b _ c' clean ih =>
    rw [connect_log]
    rcases connect_cases b c' clean with ⟨h, -⟩ | ⟨h, -⟩
    · rw [h] at hn
      exact ih hn
    · rw [h, Function.update_apply] at hn
      split at hn
      · cases hn
      · exact ih hn
  | @subscribe b _ c' t' ih =>
    rw [subscribe_since] at hn
    split at hn
    · cases hs : b.since c' t' with
      | none =>
        rw [hs] at hn
        cases hn
        exact Nat.le_refl _
      | some k =>
        rw [hs] at hn
        cases hn
        exact ih hs
    · exact ih hn
  | @publish b _ t' m ih =>
    show n ≤ (b.log ++ [(t', m)]).length
    rw [List.length_append]
    exact Nat.le_trans (ih hn) (Nat.le_add_right ..)
  | consume _ c' ih => exact ih hn

/-! ### What every broker promises -/

section

variable [DecidableEq κ] [DecidableEq τ] (hX : X.Reliable)

include hX

/-- A session that is new. -/
theorem connect_new (hb : b.Traced) {clean : Bool} (h : clean = true ∨ b.session c = false) :
    (b.connect c clean).1 = false ∧ (b.connect c clean).2.since c = (fun _ => none) ∧
      (b.connect c clean).2.taken c = [] := by
  have hnew := hX.present b c clean hb h
  unfold connect
  dsimp only
  rw [hnew, if_neg Bool.false_ne_true]
  exact ⟨rfl, Function.update_self .., Function.update_self ..⟩

/-- A new session whose client subscribes to one topic. -/
theorem since_new (hb : b.Traced) {clean : Bool} (h : clean = true ∨ b.session c = false) (c' : κ) (t t' : τ) :
    ((b.connect c clean).2.subscribe c t).since c' t' =
      if c' = c then (if t' = t then some b.log.length else none) else b.since c' t' := by
  rw [subscribe_since, (connect_new hX hb h).2.1, connect_log]
  by_cases hc : c' = c
  · subst hc
    rw [if_pos rfl, (connect_new hX hb h).2.1]
    by_cases ht : t' = t
    · rw [if_pos ⟨rfl, ht⟩, if_pos ht]
      rfl
    · rw [if_neg fun he => ht he.2, if_neg ht]
  · rw [if_neg fun he => hc he.1, if_neg hc, connect_since b c clean hc]

private theorem taken_only (hb : b.Traced) {c : κ} : ∀ e ∈ b.taken c, (b.since c e.1).isSome := by
  induction hb generalizing c with
  | fresh => exact nofun
  | @connect b hb c' clean ih =>
    intro e he
    by_cases hc : c = c'
    · subst hc
      rcases connect_cases b c clean with ⟨hs, ht⟩ | ⟨-, ht⟩
      · rw [hs]
        rw [ht] at he
        exact ih e he
      · rw [ht, Function.update_self] at he
        cases he
    · rw [connect_since _ _ _ hc]
      rw [connect_taken _ _ _ hc] at he
      exact ih e he
  | @subscribe b hb c' t' ih =>
    intro e he
    rw [subscribe_since]
    split
    · rfl
    · exact ih e he
  | publish _ _ _ ih => exact ih
  | @consume b hb c' ih =>
    intro e he
    change (b.since c e.1).isSome = true
    rw [consume_taken] at he
    split at he
    · rename_i hc
      rw [hc]
      rcases List.mem_append.1 he with he | he
      · exact ih e he
      · exact hX.only b c' hb e (List.mem_of_mem_take he)
    · exact ih e he

/-- What follows for every state that is reached. -/
theorem Traced.serves (hb : b.Traced) : b.Serves where
  got c t n hn := hX.delivers b c t n hb hn
  only c e he := (List.mem_append.1 he).elim (taken_only hX hb e) (hX.only b c hb e)
  past _ _ _ hn := hb.past hn

/-- A new session whose client subscribes to a topic on which nothing has been published. -/
theorem hears_new (hb : b.Traced) {clean : Bool} (h : clean = true ∨ b.session c = false) (hnone : on t b.log = []) :
    ((b.connect c clean).2.subscribe c t).Hears c t := by
  refine ⟨b.log.length, ?_, ?_⟩
  · rw [since_new hX hb h, if_pos rfl, if_pos rfl]
  · show on t ((b.connect c clean).2.log.take b.log.length) = []
    rw [connect_log, List.take_length]
    exact hnone

end

namespace Serves

variable [DecidableEq τ]

/-- A client that has subscribed to a topic in time has got everything on it. -/
theorem hears (h : b.Serves) (hc : b.Hears c t) : on t (b.got c) = on t b.log := by
  obtain ⟨n, hn, hnone⟩ := hc
  have hlog : on t b.log = on t (b.log.take n) ++ on t (b.log.drop n) := by rw [← on_append, List.take_append_drop]
  rw [h.got c t n hn, hlog, hnone, List.nil_append]

/-- And if it has subscribed to nothing else, this is all that it has got. -/
theorem hears_only (h : b.Serves) (hc : b.Hears c t) (honly : ∀ t', (b.since c t').isSome → t' = t) :
    b.got c = on t b.log := by
  rw [← h.hears hc]
  exact (List.filter_eq_self.2 fun e he => decide_eq_true (honly _ (h.only c e he))).symm

/-- What a client has got has been published, and not less often. -/
theorem on_sublist (h : b.Serves) (c : κ) (t : τ) : (on t (b.got c)).Sublist (on t b.log) := by
  cases hs : b.since c t with
  | none =>
    have hnil : on t (b.got c) = [] := by
      refine List.eq_nil_iff_forall_not_mem.2 fun e he => ?_
      obtain ⟨hm, rfl⟩ := mem_on.1 he
      have hsome := h.only c e hm
      rw [hs] at hsome
      cases hsome
    rw [hnil]
    exact List.nil_sublist _
  | some n =>
    rw [h.got c t n hs]
    exact (List.drop_sublist n b.log).filter _

end Serves

/-! ### Subscriptions in time -/

section

variable [DecidableEq κ] [DecidableEq τ]

theorem Hears.publish (hb : b.Traced) (h : b.Hears c t) (t' : τ) (m : μ) : (b.publish t' m).Hears c t := by
  obtain ⟨n, hn, hnone⟩ := h
  refine ⟨n, hn, ?_⟩
  show on t ((b.log ++ [(t', m)]).take n) = []
  rw [List.take_append_of_le_length (hb.past hn)]
  exact hnone

theorem Hears.publishAll (hb : b.Traced) (h : b.Hears c t) (t' : τ) (ms : List μ) : (b.publishAll t' ms).Hears c t := by
  induction ms generalizing b with
  | nil => exact h
  | cons m ms ih => exact ih (hb.publish t' m) (h.publish hb t' m)

theorem Hears.subscribe (h : b.Hears c t) (c' : κ) (t' : τ) : (b.subscribe c' t').Hears c t := by
  obtain ⟨n, hn, hnone⟩ := h
  refine ⟨n, ?_, hnone⟩
  rw [subscribe_since]
  split
  · rename_i he
    obtain ⟨rfl, rfl⟩ := he
    rw [hn]
    rfl
  · exact hn

theorem Hears.connect (h : b.Hears c t) {clean : Bool} (hne : c ≠ c') : (b.connect c' clean).2.Hears c t := by
  obtain ⟨n, hn, hnone⟩ := h
  refine ⟨n, ?_, ?_⟩
  · rw [connect_since b c' clean hne]
    exact hn
  · rw [connect_log]
    exact hnone

theorem Hears.take (h : b.Hears c t) (c' : κ) (n : Nat) : (b.take c' n).Hears c t := by
  obtain ⟨hsince, -, hlog⟩ := take_frame b c' n
  unfold Hears
  rw [hsince, hlog]
  exact h

end

end Broker

/-! ### A broker in memory -/

/-- Sessions, subscriptions and queues. -/
structure Memory (κ τ μ : Type) where
  session : κ → Bool := fun _ => false
  subscribed : κ → τ → Bool := fun _ _ => false
  queue : κ → List (τ × μ) := fun _ => []

/-- A broker that hands everything on at once. -/
def Exchange.memory (κ τ μ : Type) [DecidableEq κ] [DecidableEq τ] : Exchange (Memory κ τ μ) κ τ μ where
  fresh b := b = {}
  connect c clean b :=
    if b.session c && !clean then (true, b)
    else
      (false, {
        session := Function.update b.session c true
        subscribed := Function.update b.subscribed c fun _ => false
        queue := Function.update b.queue c [] })
  subscribe c t b := { b with subscribed := Function.update b.subscribed c (Function.update (b.subscribed c) t true) }
  publish t m b := { b with queue := fun c => if b.subscribed c t then b.queue c ++ [(t, m)] else b.queue c }
  queue c b := b.queue c
  consume c b := { b with queue := Function.update b.queue c ((b.queue c).drop 1) }

namespace Broker

variable {κ τ μ : Type} [DecidableEq κ] [DecidableEq τ]

/-- The history agrees with the memory. -/
private structure Remembers (b : Broker (Exchange.memory κ τ μ)) : Prop where
  session : b.state.session = b.session
  subscribed : ∀ c t, b.state.subscribed c t = (b.since c t).isSome
  got : ∀ c t n, b.since c t = some n → on t (b.taken c ++ b.state.queue c) = on t (b.log.drop n)
  only : ∀ c, ∀ e ∈ b.taken c ++ b.state.queue c, (b.since c e.1).isSome

variable {b : Broker (Exchange.memory κ τ μ)}

private theorem Remembers.connect (h : b.Remembers) (c : κ) (clean : Bool) : (b.connect c clean).2.Remembers := by
  by_cases hpresent : (b.state.session c && !clean) = true
  · have hstate : (Exchange.memory κ τ μ).connect c clean b.state = (true, b.state) := if_pos hpresent
    unfold Broker.connect
    rw [hstate]
    refine ⟨?_, h.subscribed, h.got, h.only⟩
    show b.state.session = Function.update b.session c true
    rw [← h.session]
    exact (Function.update_eq_self_iff.2 (Bool.and_eq_true_iff.1 hpresent).1.symm).symm
  · have hstate : (Exchange.memory κ τ μ).connect c clean b.state = (false, {
        session := Function.update b.state.session c true
        subscribed := Function.update b.state.subscribed c fun _ => false
        queue := Function.update b.state.queue c [] }) := if_neg hpresent
    unfold Broker.connect
    rw [hstate]
    constructor
    · show Function.update b.state.session c true = Function.update b.session c true
      rw [h.session]
    · intro c' t
      show Function.update b.state.subscribed c (fun _ => false) c' t =
          (Function.update b.since c (fun _ => none) c' t).isSome
      by_cases hc : c' = c
      · rw [hc, Function.update_self, Function.update_self]
        rfl
      · rw [Function.update_of_ne hc, Function.update_of_ne hc]
        exact h.subscribed c' t
    · intro c' t n hn
      change Function.update b.since c (fun _ => none) c' t = some n at hn
      show on t (Function.update b.taken c [] c' ++ Function.update b.state.queue c [] c') = _
      by_cases hc : c' = c
      · rw [hc, Function.update_self] at hn
        cases hn
      · rw [Function.update_of_ne hc] at hn
        rw [Function.update_of_ne hc, Function.update_of_ne hc]
        exact h.got c' t n hn
    · intro c' e he
      change e ∈ Function.update b.taken c [] c' ++ Function.update b.state.queue c [] c' at he
      show (Function.update b.since c (fun _ => none) c' e.1).isSome
      by_cases hc : c' = c
      · rw [hc, Function.update_self, Function.update_self] at he
        cases he
      · rw [Function.update_of_ne hc, Function.update_of_ne hc] at he
        rw [Function.update_of_ne hc]
        exact h.only c' e he

private theorem Remembers.subscribe (h : b.Remembers) (c : κ) (t : τ) : (b.subscribe c t).Remembers := by
  -- a topic that the client has not subscribed to before
  have hnew : b.since c t = none → on t (b.taken c ++ b.state.queue c) = [] := by
    intro hnone
    refine List.eq_nil_iff_forall_not_mem.2 fun e he => ?_
    obtain ⟨hm, rfl⟩ := mem_on.1 he
    have hsome := h.only c e hm
    rw [hnone] at hsome
    cases hsome
  constructor
  · exact h.session
  · intro c' t'
    rw [subscribe_since]
    show Function.update b.state.subscribed c (Function.update (b.state.subscribed c) t true) c' t' = _
    by_cases hc : c' = c
    · subst hc
      rw [Function.update_self]
      by_cases ht : t' = t
      · rw [ht, Function.update_self, if_pos ⟨rfl, rfl⟩]
        rfl
      · rw [Function.update_of_ne ht, if_neg fun he => ht he.2]
        exact h.subscribed c' t'
    · rw [Function.update_of_ne hc, if_neg fun he => hc he.1]
      exact h.subscribed c' t'
  · intro c' t' n hn
    rw [subscribe_since] at hn
    show on t' (b.taken c' ++ b.state.queue c') = on t' (b.log.drop n)
    split at hn
    · rename_i he
      obtain ⟨rfl, rfl⟩ := he
      cases hs : b.since c' t' with
      | none =>
        rw [hs] at hn
        cases hn
        rw [hnew hs, Option.getD_none, List.drop_length]
        rfl
      | some k =>
        rw [hs] at hn
        cases hn
        exact h.got c' t' _ hs
    · exact h.got c' t' n hn
  · intro c' e he
    rw [subscribe_since]
    split
    · rfl
    · exact h.only c' e he

private theorem Remembers.publish (h : b.Remembers) (hb : b.Traced) (t : τ) (m : μ) : (b.publish t m).Remembers := by
  have hgot : ∀ c, b.taken c ++ (b.publish t m).state.queue c =
      if (b.since c t).isSome then (b.taken c ++ b.state.queue c) ++ [(t, m)] else b.taken c ++ b.state.queue c := by
    intro c
    show b.taken c ++ (if b.state.subscribed c t then b.state.queue c ++ [(t, m)] else b.state.queue c) = _
    rw [h.subscribed]
    split
    · exact (List.append_assoc ..).symm
    · rfl
  constructor
  · exact h.session
  · exact h.subscribed
  · intro c t' n hn
    change b.since c t' = some n at hn
    show on t' (b.taken c ++ (b.publish t m).state.queue c) = on t' ((b.log ++ [(t, m)]).drop n)
    rw [hgot, List.drop_append_of_le_length (hb.past hn), on_append, on_single, ← h.got c t' n hn]
    by_cases ht : t = t'
    · subst ht
      rw [if_pos rfl, hn, if_pos Option.isSome_some, on_append, on_single, if_pos rfl]
    · rw [if_neg ht, List.append_nil]
      split
      · rw [on_append, on_single, if_neg ht, List.append_nil]
      · rfl
  · intro c e he
    change e ∈ b.taken c ++ (b.publish t m).state.queue c at he
    show (b.since c e.1).isSome
    rw [hgot] at he
    split at he
    · rename_i hs
      rcases List.mem_append.1 he with he | he
      · exact h.only c e he
      · rw [List.mem_singleton.1 he]
        exact hs
    · exact h.only c e he

private theorem Remembers.consume (h : b.Remembers) (c : κ) : (b.consume c).Remembers := by
  have hgot : ∀ c', (b.consume c).taken c' ++ (b.consume c).state.queue c' = b.taken c' ++ b.state.queue c' := by
    intro c'
    rw [consume_taken]
    show _ ++ Function.update b.state.queue c ((b.state.queue c).drop 1) c' = _
    by_cases hc : c' = c
    · subst hc
      rw [if_pos rfl, Function.update_self, List.append_assoc]
      exact congrArg (b.taken c' ++ ·) (List.take_append_drop 1 (b.state.queue c'))
    · rw [if_neg hc, Function.update_of_ne hc]
  refine ⟨h.session, h.subscribed, fun c' t n hn => ?_, fun c' e he => ?_⟩
  · rw [hgot]
    exact h.got c' t n hn
  · rw [hgot] at he
    exact h.only c' e he

private theorem Traced.remembers (hb : b.Traced) : b.Remembers := by
  induction hb with
  | fresh h =>
    cases h
    exact ⟨rfl, fun _ _ => rfl, nofun, nofun⟩
  | connect _ c clean ih => exact ih.connect c clean
  | subscribe _ c t ih => exact ih.subscribe c t
  | publish hb t m ih => exact ih.publish hb t m
  | consume _ c ih => exact ih.consume c

theorem memory_reliable : (Exchange.memory κ τ μ).Reliable where
  present b c clean hb h := by
    refine congrArg Prod.fst (if_neg (c := (b.state.session c && !clean) = true) ?_)
    rw [hb.remembers.session]
    rcases h with h | h
    · simp [h]
    · simp [h]
  delivers b c t n hb hn := hb.remembers.got c t n hn
  only b c hb e he := hb.remembers.only c e (List.mem_append_right _ he)

end Broker
