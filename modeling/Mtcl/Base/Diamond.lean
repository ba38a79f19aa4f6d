import Mtcl.Base.Runs

/-!
# Systems whose steps commute

In a system in which the steps of different components commute, and each component has at most one step, all
runs that end have the same length and the same end.  `Steps.strip` is the induction; if one run ends, no other
one gets stuck elsewhere or goes on for ever.
-/

namespace Runs

variable {σ ι : Type}

/-- A run of some number of steps. -/
inductive Steps (step : ι → σ → σ → Prop) : Nat → σ → σ → Prop
  | refl {s : σ} : Steps step 0 s s
  | cons {n : Nat} {s s' s'' : σ} (i : ι) (h : step i s s') (hs : Steps step n s' s'') : Steps step (n + 1) s s''

/-- A component has one step, and steps of two components can be done in either order. -/
def Commutes (step : ι → σ → σ → Prop) : Prop :=
  ∀ i j s a b, step i s a → step j s b → i = j ∧ a = b ∨ ∃ c, step j a c ∧ step i b c

/-- No component has a step. -/
def Final (step : ι → σ → σ → Prop) (s : σ) : Prop := ∀ i a, ¬ step i s a

variable {step : ι → σ → σ → Prop} {n m : Nat} {s t f : σ}

theorem Steps.trans (h : Steps step n s t) (h' : Steps step m t f) : Steps step (n + m) s f := by
  induction h with
  | refl =>
    rw [Nat.zero_add]
    exact h'
  | cons i hs _ ih =>
    rw [Nat.add_right_comm]
    exact .cons i hs (ih h')

theorem Steps.one (i : ι) (h : step i s t) : Steps step 1 s t := .cons i h .refl

/-- Whatever step is done first, the end of a run that ends is still ahead, one step nearer. -/
theorem Steps.strip (hc : Commutes step) (hf : Final step f) (h : Steps step n s f) {i : ι} {a : σ} (ha : step i s a) :
    ∃ m, n = m + 1 ∧ Steps step m a f := by
  induction h generalizing i a with
  | refl => exact absurd ha (hf i a)
  | @cons n s b f j hb hs ih =>
    refine ⟨n, rfl, ?_⟩
    rcases hc i j s a b ha hb with ⟨-, rfl⟩ | ⟨c, hac, hbc⟩
    · exact hs
    · obtain ⟨m, rfl, hm⟩ := ih hf hbc
      exact .cons j hac hm

/-- If a run from every first state ends, every state reached leads to such an end. -/
theorem Reach.leads {init : σ → Prop} (hc : Commutes step) {P : σ → Prop} (hP : ∀ f, P f → Final step f)
    (hinit : ∀ s, init s → ∃ n f, Steps step n s f ∧ P f) (h : Reach init step s) : ∃ n f, Steps step n s f ∧ P f := by
  induction h with
  | start hs => exact hinit _ hs
  | next i _ hs ih =>
    obtain ⟨n, f, hn, hf⟩ := ih
    obtain ⟨m, -, hm⟩ := hn.strip hc (hP f hf) hs
    exact ⟨m, f, hm, hf⟩

/-- A state that leads to an end is that end, or some component has a step. -/
theorem Steps.progress (h : Steps step n s f) : s = f ∨ ∃ i a, step i s a := by
  cases h with
  | refl => exact Or.inl rfl
  | cons i hs _ => exact Or.inr ⟨i, _, hs⟩

end Runs
