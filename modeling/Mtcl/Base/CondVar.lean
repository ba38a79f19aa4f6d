import Mathlib.Data.Fintype.Card
import Mathlib.Logic.Function.Basic
import Mtcl.Base.Runs

/-!
# Threads on a condition variable

Threads share a state under a mutex and wait on one condition variable, each with a predicate of its own.  A
thread that changes the state wakes one of those that are blocked, any one; it looks at its predicate again when
it has the mutex, and blocks again when that is false.

`due k s` says that what a thread with the predicate `k` waits for is there.  A state is `Stuck` when a blocked
thread is due and nobody has been woken.  `Heard` is a condition on single steps: `not_stuck_of_heard` says that
no run in which it holds of every step comes to a stuck state, and `stuck_of_not_heard` that behind the first
step of which it does not hold the threads that have been woken have only to look again.
-/

namespace CondVar

open Runs

variable {σ κ ω ι : Type}

/-- Where a thread is: elsewhere, among the waiters with its predicate, or woken, but not yet with the mutex. -/
inductive Thread (κ : Type)
  | away
  | blocked (k : κ)
  | woken (k : κ)
  deriving DecidableEq, Repr

/-- What the threads do under the mutex.  A thread that `admits` lets in enters its predicate; `take` is what it
does when the predicate is true, and `change` what others do before they wake a waiter. -/
structure Monitor (σ κ ω : Type) where
  admits : κ → σ → Prop
  enter : κ → σ → σ
  ready : κ → σ → Bool
  take : κ → σ → σ
  change : ω → σ → σ

structure State (σ κ ι : Type) where
  shared : σ
  threads : ι → Thread κ

/-- The steps; `woken` is the thread that `notify_one` wakes. -/
inductive Move (κ ω ι : Type)
  | enter (i : ι) (k : κ)
  | look (i : ι)
  | change (o : ω) (woken : Option ι)
  deriving DecidableEq, Repr

/-- The thread has been woken. -/
def Thread.isWoken : Thread κ → Bool
  | woken _ => true
  | _ => false

/-- The thread waits with this predicate. -/
def Thread.Waits (t : Thread κ) (k : κ) : Prop := t = .blocked k ∨ t = .woken k

section

variable [DecidableEq ι] (P : Monitor σ κ ω)

/-- A thread looks at its predicate, and goes on or blocks. -/
def Monitor.look (i : ι) (k : κ) (s : State σ κ ι) : State σ κ ι :=
  if P.ready k s.shared then { shared := P.take k s.shared, threads := Function.update s.threads i .away }
  else { s with threads := Function.update s.threads i (.blocked k) }

/-- One step. -/
inductive Monitor.Step : Move κ ω ι → State σ κ ι → State σ κ ι → Prop
  | enter {i : ι} {k : κ} {s : State σ κ ι} (h : s.threads i = .away) (ha : P.admits k s.shared) :
      Step (.enter i k) s (P.look i k { s with shared := P.enter k s.shared })
  | look {i : ι} {k : κ} {s : State σ κ ι} (h : s.threads i = .woken k) : Step (.look i) s (P.look i k s)
  | wake {o : ω} {j : ι} {k : κ} {s : State σ κ ι} (h : s.threads j = .blocked k) :
      Step (.change o (some j)) s { shared := P.change o s.shared, threads := Function.update s.threads j (.woken k) }
  | unheard {o : ω} {s : State σ κ ι} (h : ∀ j k, s.threads j ≠ .blocked k) :
      Step (.change o none) s { s with shared := P.change o s.shared }

end

/-- Nobody has been woken, and a thread is blocked although what it waits for is there. -/
def Stuck (due : κ → σ → Prop) (s : State σ κ ι) : Prop :=
  (∀ i k, s.threads i ≠ .woken k) ∧ ∃ i k, s.threads i = .blocked k ∧ due k s.shared

/-- What a step has to do for those that wait: a thread does not block when it is due; a change that makes a
blocked thread due wakes this thread, and lets every woken thread that is due find its predicate true. -/
def Heard (P : Monitor σ κ ω) (due : κ → σ → Prop) : Move κ ω ι → State σ κ ι → Prop
  | .enter _ k, s => due k (P.enter k s.shared) → P.ready k (P.enter k s.shared) = true
  | .look _, _ => True
  | .change o w, s => ∀ i k, due k (P.change o s.shared) →
      (s.threads i = .blocked k → w = some i ∧ P.ready k (P.change o s.shared) = true) ∧
      (s.threads i = .woken k → P.ready k (P.change o s.shared) = true)

/-- No blocked thread is due, and a woken one that is due finds its predicate true. -/
def Timely (P : Monitor σ κ ω) (due : κ → σ → Prop) (s : State σ κ ι) : Prop :=
  ∀ i k, (s.threads i = .blocked k → ¬ due k s.shared) ∧
    (s.threads i = .woken k → due k s.shared → P.ready k s.shared = true)

/-- A thread is due, and will not find out when the woken threads look again. -/
def Lost (P : Monitor σ κ ω) (due : κ → σ → Prop) (s : State σ κ ι) : Prop :=
  ∃ i k, due k s.shared ∧ (s.threads i = .blocked k ∨ s.threads i = .woken k ∧ P.ready k s.shared = false)

/-- What the threads do concerns those that wait for the same only: a thread is let in when nobody has entered
that is not `Apart`, and what one takes makes no difference to those that are. -/
structure Monitor.Lawful (P : Monitor σ κ ω) (entered : κ → σ → Prop) (Apart : κ → κ → Prop)
    (due : κ → σ → Prop) : Prop where
  apart : ∀ {k k' s}, P.admits k s → entered k' s → Apart k k' ∧ Apart k' k
  entered_self : ∀ {k s}, entered k (P.enter k s)
  entered_enter : ∀ {k k' s}, entered k' s → entered k' (P.enter k s)
  entered_take : ∀ {k k' s}, entered k' s → entered k' (P.take k s)
  entered_change : ∀ {o k s}, entered k s → entered k (P.change o s)
  due_enter : ∀ {k k' s}, due k' (P.enter k s) ↔ due k' s
  ready_enter : ∀ {k k' s}, P.ready k' (P.enter k s) = P.ready k' s
  due_take : ∀ {k k' s}, Apart k k' → (due k' (P.take k s) ↔ due k' s)
  ready_take : ∀ {k k' s}, Apart k k' → P.ready k' (P.take k s) = P.ready k' s

/-- The threads that wait have entered, and wait for different things. -/
structure Separate (entered : κ → σ → Prop) (Apart : κ → κ → Prop) (s : State σ κ ι) : Prop where
  entered : ∀ {i k}, (s.threads i).Waits k → entered k s.shared
  apart : ∀ {i j k k'}, i ≠ j → (s.threads i).Waits k → (s.threads j).Waits k' → Apart k k'

section

variable [DecidableEq ι] {P : Monitor σ κ ω} {entered : κ → σ → Prop} {Apart : κ → κ → Prop} {due : κ → σ → Prop}
  {m : Move κ ω ι} {s s' : State σ κ ι} {i j : ι} {k k' : κ}

private theorem waits_update {f : ι → Thread κ} {t : Thread κ} (h : (Function.update f i t j).Waits k) :
    j = i ∧ t.Waits k ∨ j ≠ i ∧ (f j).Waits k := by
  by_cases hj : j = i
  · rw [hj, Function.update_self] at h
    exact Or.inl ⟨hj, h⟩
  · rw [Function.update_of_ne hj] at h
    exact Or.inr ⟨hj, h⟩

/-- Replacing the entry of a thread that waits for the same, or for nothing, keeps the threads separate. -/
private theorem Separate.update (h : Separate entered Apart s) {x : σ} (hx : ∀ k, entered k s.shared → entered k x)
    {t : Thread κ} (ht : ∀ k, t.Waits k → (s.threads i).Waits k) :
    Separate entered Apart { shared := x, threads := Function.update s.threads i t } := by
  have hwaits : ∀ {j k}, (Function.update s.threads i t j).Waits k → (s.threads j).Waits k := by
    intro j k hj
    rcases waits_update hj with ⟨rfl, hk⟩ | ⟨-, hk⟩
    · exact ht k hk
    · exact hk
  constructor
  · intro j k hj
    exact hx k (h.entered (hwaits hj))
  · intro j l k k' hne hj hl
    exact h.apart hne (hwaits hj) (hwaits hl)

private theorem not_waits_away : ¬ (Thread.away : Thread κ).Waits k := by
  intro h
  rcases h with h | h <;> cases h

private theorem Separate.look (hP : P.Lawful entered Apart due) (h : Separate entered Apart s)
    (hi : (s.threads i).Waits k) : Separate entered Apart (P.look i k s) := by
  unfold Monitor.look
  by_cases hready : P.ready k s.shared = true
  · rw [if_pos hready]
    exact h.update (fun k' hk' => hP.entered_take hk') fun k' hk' => absurd hk' not_waits_away
  · rw [if_neg hready]
    refine h.update (fun k' hk' => hk') fun k' hk' => ?_
    rcases hk' with hk' | hk'
    · cases hk'
      exact hi
    · cases hk'

private theorem Separate.step (hP : P.Lawful entered Apart due) (h : Separate entered Apart s) (hs : P.Step m s s') :
    Separate entered Apart s' := by
  cases hs with
  | @enter i k s hi ha =>
    -- as if the thread had been woken before it looks for the first time
    have hwoken : Separate entered Apart
        { shared := P.enter k s.shared, threads := Function.update s.threads i (.woken k) } := by
      constructor
      · intro j k' hj
        rcases waits_update hj with ⟨-, hk | hk⟩ | ⟨-, hk⟩
        · cases hk
        · cases hk
          exact hP.entered_self
        · exact hP.entered_enter (h.entered hk)
      · intro j l k1 k2 hne hj hl
        rcases waits_update hj with ⟨rfl, hk1 | hk1⟩ | ⟨hji, hk1⟩
        · cases hk1
        · cases hk1
          rcases waits_update hl with ⟨hlj, -⟩ | ⟨-, hk2⟩
          · exact absurd hlj.symm hne
          · exact (hP.apart ha (h.entered hk2)).1
        · rcases waits_update hl with ⟨rfl, hk2 | hk2⟩ | ⟨-, hk2⟩
          · cases hk2
          · cases hk2
            exact (hP.apart ha (h.entered hk1)).2
          · exact h.apart hne hk1 hk2
    have hi' : (Function.update s.threads i (.woken k) i).Waits k := by
      rw [Function.update_self]
      exact Or.inr rfl
    have hlook := hwoken.look hP hi'
    unfold Monitor.look at hlook ⊢
    dsimp only at hlook ⊢
    rw [Function.update_idem, Function.update_idem] at hlook
    exact hlook
  | look hi => exact h.look hP (Or.inr hi)
  | wake hj =>
    refine h.update (fun k' hk' => hP.entered_change hk') fun k' hk' => ?_
    rcases hk' with hk' | hk'
    · cases hk'
    · cases hk'
      exact Or.inl hj
  | unheard _ => exact ⟨fun hj => hP.entered_change (h.entered hj), h.apart⟩

/-! ### Steps that are heard -/

/-- When a thread looks whose predicate is true if it is due, the threads stay timely. -/
private theorem Timely.look (hP : P.Lawful entered Apart due)
    (hother : ∀ j k', j ≠ i → (s.threads j).Waits k' → Apart k k')
    (h : ∀ j k', j ≠ i → (s.threads j = .blocked k' → ¬ due k' s.shared) ∧
      (s.threads j = .woken k' → due k' s.shared → P.ready k' s.shared = true))
    (hi : due k s.shared → P.ready k s.shared = true) : Timely P due (P.look i k s) := by
  unfold Monitor.look
  by_cases hready : P.ready k s.shared = true
  · rw [if_pos hready]
    intro j k'
    dsimp only
    by_cases hj : j = i
    · rw [hj, Function.update_self]
      constructor
      · intro hb
        cases hb
      · intro hw
        cases hw
    · rw [Function.update_of_ne hj]
      obtain ⟨h1, h2⟩ := h j k' hj
      constructor
      · intro hb
        rw [hP.due_take (hother j k' hj (Or.inl hb))]
        exact h1 hb
      · intro hw
        rw [hP.due_take (hother j k' hj (Or.inr hw)), hP.ready_take (hother j k' hj (Or.inr hw))]
        exact h2 hw
  · rw [if_neg hready]
    intro j k'
    dsimp only
    by_cases hj : j = i
    · rw [hj, Function.update_self]
      constructor
      · intro hb hdue
        cases hb
        exact hready (hi hdue)
      · intro hw
        cases hw
    · rw [Function.update_of_ne hj]
      exact h j k' hj

private theorem Timely.step (hP : P.Lawful entered Apart due) (hsep : Separate entered Apart s) (h : Timely P due s)
    (hm : Heard P due m s) (hs : P.Step m s s') : Timely P due s' := by
  cases hs with
  | @enter i k s hi ha =>
    refine Timely.look hP (fun j k' _ hj => (hP.apart ha (hsep.entered hj)).1) (fun j k' _ => ?_) hm
    obtain ⟨h1, h2⟩ := h j k'
    dsimp only
    rw [hP.due_enter, hP.ready_enter]
    exact ⟨h1, h2⟩
  | @look i k s hi =>
    exact Timely.look hP (fun j k' hj hw => hsep.apart (Ne.symm hj) (Or.inr hi) hw)
      (fun j k' _ => h j k') ((h i k).2 hi)
  | @wake o j k s hj =>
    intro i k'
    dsimp only
    by_cases hij : i = j
    · rw [hij, Function.update_self]
      constructor
      · intro hb
        cases hb
      · intro hw hdue
        cases hw
        exact ((hm j k hdue).1 hj).2
    · rw [Function.update_of_ne hij]
      constructor
      · intro hb hdue
        exact hij (Option.some.inj ((hm i k' hdue).1 hb).1).symm
      · exact fun hw hdue => (hm i k' hdue).2 hw
  | unheard hno => exact fun i k' => ⟨fun hb => absurd hb (hno i k'), fun hw hdue => (hm i k' hdue).2 hw⟩

omit [DecidableEq ι] in
private theorem Timely.not_stuck (h : Timely P due s) : ¬ Stuck due s := by
  rintro ⟨-, i, k, hb, hdue⟩
  exact (h i k).1 hb hdue

private theorem heard_of_not_lost (hno : ¬ Lost P due s') (hs : P.Step m s s') : Heard P due m s := by
  cases hs with
  | @enter i k s hi ha =>
    intro hdue
    by_contra hready
    unfold Monitor.look at hno
    rw [if_neg hready] at hno
    exact hno ⟨i, k, hdue, Or.inl (Function.update_self ..)⟩
  | look hi => exact trivial
  | @wake o j kj s hj =>
    intro i k hdue
    constructor
    · intro hb
      by_cases hij : i = j
      · subst hij
        rw [hj] at hb
        cases hb
        refine ⟨rfl, ?_⟩
        by_contra hready
        exact hno ⟨i, _, hdue, Or.inr ⟨Function.update_self .., Bool.eq_false_iff.2 hready⟩⟩
      · have hstill : Function.update s.threads j (.woken kj) i = .blocked k := by rw [Function.update_of_ne hij, hb]
        exact absurd ⟨i, k, hdue, Or.inl hstill⟩ hno
    · intro hw
      have hij : i ≠ j := by
        intro hij
        rw [hij, hj] at hw
        cases hw
      have hstill : Function.update s.threads j (.woken kj) i = .woken k := by rw [Function.update_of_ne hij, hw]
      by_contra hready
      exact hno ⟨i, k, hdue, Or.inr ⟨hstill, Bool.eq_false_iff.2 hready⟩⟩
  | unheard hnone =>
    intro i k hdue
    constructor
    · intro hb
      exact absurd hb (hnone i k)
    · intro hw
      by_contra hready
      exact hno ⟨i, k, hdue, Or.inr ⟨hw, Bool.eq_false_iff.2 hready⟩⟩

/-! ### Threads that are lost -/

/-- A woken thread that looks does not help one that is lost. -/
private theorem Lost.look (hP : P.Lawful entered Apart due) (hsep : Separate entered Apart s) (h : Lost P due s)
    (hi : s.threads i = .woken k) : Lost P due (P.look i k s) := by
  obtain ⟨j, kj, hdue, hj⟩ := h
  by_cases hij : j = i
  · -- it is the lost thread itself, which blocks again
    rw [hij, hi] at hj
    rcases hj with hj | ⟨hj, hready⟩
    · cases hj
    · cases hj
      unfold Monitor.look
      rw [if_neg (by simp [hready])]
      exact ⟨i, k, hdue, Or.inl (Function.update_self ..)⟩
  · have hwaits : (s.threads j).Waits kj := by
      rcases hj with hj | ⟨hj, -⟩
      · exact Or.inl hj
      · exact Or.inr hj
    have hapart : Apart k kj := hsep.apart (Ne.symm hij) (Or.inr hi) hwaits
    unfold Monitor.look
    by_cases hready : P.ready k s.shared = true
    · rw [if_pos hready]
      refine ⟨j, kj, (hP.due_take hapart).2 hdue, ?_⟩
      dsimp only
      rw [Function.update_of_ne hij, hP.ready_take hapart]
      exact hj
    · rw [if_neg hready]
      refine ⟨j, kj, hdue, ?_⟩
      dsimp only
      rw [Function.update_of_ne hij]
      exact hj

variable [Fintype ι]

/-- The number of the threads that have been woken. -/
private def wokenCount (s : State σ κ ι) : Nat := (Finset.univ.filter fun i => (s.threads i).isWoken = true).card

private theorem wokenCount_look (hi : s.threads i = .woken k) : wokenCount (P.look i k s) < wokenCount s := by
  obtain ⟨t, ht, hthreads⟩ : ∃ t : Thread κ, t.isWoken = false ∧
      (P.look i k s).threads = Function.update s.threads i t := by
    unfold Monitor.look
    by_cases hready : P.ready k s.shared = true
    · rw [if_pos hready]
      exact ⟨.away, rfl, rfl⟩
    · rw [if_neg hready]
      exact ⟨.blocked k, rfl, rfl⟩
  unfold wokenCount
  rw [hthreads]
  refine Finset.card_lt_card ?_
  rw [Finset.ssubset_iff_of_subset]
  · refine ⟨i, Finset.mem_filter.2 ⟨Finset.mem_univ i, by rw [hi]; rfl⟩, fun hmem => ?_⟩
    obtain ⟨-, hw⟩ := Finset.mem_filter.1 hmem
    rw [Function.update_self, ht] at hw
    cases hw
  · intro j hj
    obtain ⟨-, hw⟩ := Finset.mem_filter.1 hj
    refine Finset.mem_filter.2 ⟨Finset.mem_univ j, ?_⟩
    by_cases hij : j = i
    · rw [hij, hi]
      rfl
    · rw [Function.update_of_ne hij] at hw
      exact hw

/-- The steps of woken threads alone. -/
def Monitor.Looks (P : Monitor σ κ ω) (m : Move κ ω ι) (s s' : State σ κ ι) : Prop := (∃ i, m = .look i) ∧ P.Step m s s'

/-- When the threads that have been woken have all looked, one that is lost is stuck. -/
private theorem stuck_of_lost (hP : P.Lawful entered Apart due) (hsep : Separate entered Apart s) (h : Lost P due s) :
    ∃ s', Reach (· = s) P.Looks s' ∧ Stuck due s' := by
  induction hn : wokenCount s using Nat.strong_induction_on generalizing s with
  | _ n ih =>
    by_cases hwoken : ∃ i k, s.threads i = .woken k
    · obtain ⟨i, k, hi⟩ := hwoken
      have hlt : wokenCount (P.look i k s) < n := hn ▸ wokenCount_look hi
      obtain ⟨s', hreach, hstuck⟩ := ih _ hlt (hsep.look hP (Or.inr hi)) (h.look hP hsep hi) rfl
      have hfirst : Reach (· = s) P.Looks (P.look i k s) := .next (.look i) (.start rfl) ⟨⟨i, rfl⟩, .look hi⟩
      exact ⟨s', hfirst.trans hreach, hstuck⟩
    · have hnone : ∀ i k, s.threads i ≠ .woken k := fun i k hi => hwoken ⟨i, k, hi⟩
      obtain ⟨i, k, hdue, hb | ⟨hw, -⟩⟩ := h
      · exact ⟨s, .start rfl, hnone, i, k, hb, hdue⟩
      · exact absurd hw (hnone i k)

/-! ### Runs -/

variable {init : State σ κ ι → Prop}

omit [Fintype ι] in
private theorem run_timely (hP : P.Lawful entered Apart due) (h0 : ∀ s, init s → ∀ i, s.threads i = .away)
    (h : Reach init (fun m s s' => Heard P due m s ∧ P.Step m s s') s) : Separate entered Apart s ∧ Timely P due s := by
  refine h.invariant (fun s => Separate entered Apart s ∧ Timely P due s) (fun s hs => ?_) ?_
  · have haway := h0 s hs
    refine ⟨⟨fun {i k} hi => ?_, fun {i j k k'} _ hi _ => ?_⟩, fun i k => ⟨fun hi => ?_, fun hi => ?_⟩⟩
    · rw [haway i] at hi
      exact absurd hi not_waits_away
    · rw [haway i] at hi
      exact absurd hi not_waits_away
    · rw [haway i] at hi
      cases hi
    · rw [haway i] at hi
      cases hi
  · rintro m s s' ⟨hsep, ht⟩ ⟨hm, hs⟩
    exact ⟨hsep.step hP hs, ht.step hP hsep hm hs⟩

omit [Fintype ι] in
/-- In a run of which every step is heard nobody gets stuck, and the threads are timely. -/
theorem not_stuck_of_heard (hP : P.Lawful entered Apart due) (h0 : ∀ s, init s → ∀ i, s.threads i = .away)
    (h : Reach init (fun m s s' => Heard P due m s ∧ P.Step m s s') s) : Timely P due s ∧ ¬ Stuck due s :=
  ⟨(run_timely hP h0 h).2, (run_timely hP h0 h).2.not_stuck⟩

/-- Behind the first step that is not heard, the woken threads have only to look again, and somebody is stuck. -/
theorem stuck_of_not_heard (hP : P.Lawful entered Apart due) (h0 : ∀ s, init s → ∀ i, s.threads i = .away)
    (h : Reach init (fun m s s' => Heard P due m s ∧ P.Step m s s') s) (hs : P.Step m s s') (hm : ¬ Heard P due m s) :
    ∃ s'', Reach (· = s') P.Looks s'' ∧ Stuck due s'' := by
  have hsep : Separate entered Apart s' := (run_timely hP h0 h).1.step hP hs
  refine stuck_of_lost hP hsep ?_
  by_contra hno
  exact hm (heard_of_not_lost hno hs)

end

end CondVar
