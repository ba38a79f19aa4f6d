import Mathlib.Logic.Function.Basic

/-!
# Runs of transition systems

`Reach init step s` says that `s` is reached from a state of `init` by steps, and `Reach.invariant` is the
induction over a run.  `run step` executes a list of operations with an executable step that yields an output or
fails, and `run_simulates` carries a simulation of single steps by a specification over to whole runs.
`each step` is the system of several components that work side by side, in which every run is a run of each of
them (`run_each`).  `Always step P os s` says that every operation of a run has a property in the state in which
it is made.
-/

namespace Runs

variable {σ τ ω β ε : Type}

/-- The states reached from `init` by steps, each labelled with an operation. -/
inductive Reach (init : σ → Prop) (step : ω → σ → σ → Prop) : σ → Prop
  | start {s : σ} (h : init s) : Reach init step s
  | next {s s' : σ} (o : ω) (h : Reach init step s) (hs : step o s s') : Reach init step s'

/-- What holds at the start and is kept by every step holds in every state reached. -/
theorem Reach.invariant {init : σ → Prop} {step : ω → σ → σ → Prop} (I : σ → Prop) (h0 : ∀ s, init s → I s)
    (hs : ∀ o s s', I s → step o s s' → I s') {s : σ} (h : Reach init step s) : I s := by
  induction h with
  | start h => exact h0 _ h
  | next o _ h ih => exact hs o _ _ ih h

/-- More steps reach more states. -/
theorem Reach.mono {init : σ → Prop} {step step' : ω → σ → σ → Prop} (hs : ∀ o s s', step o s s' → step' o s s') {s : σ}
    (h : Reach init step s) : Reach init step' s := by
  induction h with
  | start h => exact .start h
  | next o _ h ih => exact .next o ih (hs _ _ _ h)

/-- A run can be continued by a run from the state it reaches. -/
theorem Reach.trans {init : σ → Prop} {step : ω → σ → σ → Prop} {s s' : σ} (h : Reach init step s)
    (h' : Reach (· = s) step s') : Reach init step s' := by
  induction h' with
  | start he => exact he ▸ h
  | next o _ hs ih => exact .next o ih hs

/-- The outputs of a list of operations and the state after them. -/
def run (step : ω → σ → Except ε (β × σ)) : List ω → σ → Except ε (List β × σ)
  | [], s => .ok ([], s)
  | o :: os, s => do
    let (b, s) ← step o s
    let (bs, s) ← run step os s
    return (b :: bs, s)

/-- The same for a specification, which says of every operation whether it may be called and what it answers. -/
def specRun (spec : ω → τ → Option (β × τ)) : List ω → τ → Option (List β × τ)
  | [], q => some ([], q)
  | o :: os, q => do
    let (b, q) ← spec o q
    let (bs, q) ← specRun spec os q
    return (b :: bs, q)

theorem specRun_append (spec : ω → τ → Option (β × τ)) (os os' : List ω) (q : τ) :
    specRun spec (os ++ os') q = (specRun spec os q).bind fun x =>
      (specRun spec os' x.2).map fun y => (x.1 ++ y.1, y.2) := by
  induction os generalizing q with
  | nil =>
    change specRun spec os' q = (specRun spec os' q).map fun y => ([] ++ y.1, y.2)
    cases specRun spec os' q <;> rfl
  | cons o os ih =>
    rw [List.cons_append, specRun, specRun]
    rcases spec o q with _ | ⟨b, q1⟩
    · rfl
    · change (specRun spec (os ++ os') q1 >>= fun x => some (b :: x.1, x.2)) = _
      rw [ih]
      rcases hos : specRun spec os q1 with _ | ⟨bs, q2⟩
      · simp [hos]
      · simp only [hos, Option.bind_some, Option.bind_eq_bind, Option.pure_def]
        cases specRun spec os' q2 <;> rfl

/-- A run that returns has done its first step and then the rest. -/
theorem run_cons_eq_ok {step : ω → σ → Except ε (β × σ)} {o : ω} {os : List ω} {s s' : σ} {bs : List β}
    (h : run step (o :: os) s = .ok (bs, s')) :
    ∃ b s1 bs', step o s = .ok (b, s1) ∧ run step os s1 = .ok (bs', s') ∧ bs = b :: bs' := by
  unfold run at h
  rcases h1 : step o s with e | ⟨b, s1⟩
  · rw [h1] at h
    cases h
  · rw [h1] at h
    change (run step os s1 >>= fun x => .ok (b :: x.1, x.2)) = _ at h
    rcases h2 : run step os s1 with e | ⟨bs', s2⟩
    · rw [h2] at h
      cases h
    · rw [h2] at h
      cases h
      exact ⟨b, s1, bs', rfl, h2, rfl⟩

theorem run_cons {step : ω → σ → Except ε (β × σ)} {o : ω} {os : List ω} {s s1 s' : σ} {b : β} {bs : List β}
    (h : step o s = .ok (b, s1)) (h' : run step os s1 = .ok (bs, s')) : run step (o :: os) s = .ok (b :: bs, s') := by
  unfold run
  rw [h]
  change (run step os s1 >>= fun x => .ok (b :: x.1, x.2)) = _
  rw [h']
  rfl

theorem run_cons_error {step : ω → σ → Except ε (β × σ)} {o : ω} {os : List ω} {s s1 : σ} {b : β} {e : ε}
    (h : step o s = .ok (b, s1)) (h' : run step os s1 = .error e) : run step (o :: os) s = .error e := by
  unfold run
  rw [h]
  change (run step os s1 >>= fun x => .ok (b :: x.1, x.2)) = _
  rw [h']
  rfl

/-- What holds of the output of every step holds of every output of a run. -/
theorem run_outputs {step : ω → σ → Except ε (β × σ)} {P : β → Prop}
    (hstep : ∀ {o s b s'}, step o s = .ok (b, s') → P b) {os : List ω} {s s' : σ} {bs : List β}
    (h : run step os s = .ok (bs, s')) : ∀ b ∈ bs, P b := by
  induction os generalizing s bs with
  | nil =>
    cases h
    exact nofun
  | cons o os ih =>
    obtain ⟨b, s1, bs', h1, h2, rfl⟩ := run_cons_eq_ok h
    intro c hc
    rcases List.mem_cons.1 hc with rfl | hc
    · exact hstep h1
    · exact ih h2 c hc

/-- What every step keeps, a run keeps. -/
theorem run_invariant {step : ω → σ → Except ε (β × σ)} (I : σ → Prop)
    (hstep : ∀ {o s b s'}, I s → step o s = .ok (b, s') → I s') {os : List ω} {s s' : σ} {bs : List β} (hI : I s)
    (h : run step os s = .ok (bs, s')) : I s' := by
  induction os generalizing s bs with
  | nil =>
    cases h
    exact hI
  | cons o os ih =>
    obtain ⟨b, s1, bs', h1, h2, rfl⟩ := run_cons_eq_ok h
    exact ih (hstep hI h1) h2

/-- The last step of a run whose other steps are known. -/
theorem run_concat_eq_ok {step : ω → σ → Except ε (β × σ)} {os : List ω} {o : ω} {s s1 s2 : σ} {bs bs' : List β}
    (h : run step os s = .ok (bs, s1)) (h' : run step (os ++ [o]) s = .ok (bs', s2)) :
    ∃ b, step o s1 = .ok (b, s2) ∧ bs' = bs ++ [b] := by
  induction os generalizing s bs bs' with
  | nil =>
    cases h
    obtain ⟨b, t, bs', h1, h2, rfl⟩ := run_cons_eq_ok h'
    cases h2
    exact ⟨b, h1, rfl⟩
  | cons o' os ih =>
    obtain ⟨b, t, cs, h1, h2, rfl⟩ := run_cons_eq_ok h
    obtain ⟨b', t', cs', h1', h2', rfl⟩ := run_cons_eq_ok h'
    rw [h1] at h1'
    cases h1'
    obtain ⟨c, hc, rfl⟩ := ih h2 h2'
    exact ⟨c, hc, rfl⟩

/-- If every operation the specification allows returns as it says, so does every run of such operations. -/
theorem run_simulates {step : ω → σ → Except ε (β × σ)} {spec : ω → τ → Option (β × τ)} {R : σ → τ → Prop}
    (hstep : ∀ o s q b q', R s q → spec o q = some (b, q') → ∃ s', step o s = .ok (b, s') ∧ R s' q')
    {os : List ω} {s : σ} {q q' : τ} {bs : List β} (hR : R s q) (h : specRun spec os q = some (bs, q')) :
    ∃ s', run step os s = .ok (bs, s') ∧ R s' q' := by
  induction os generalizing s q bs with
  | nil =>
    cases h
    exact ⟨s, rfl, hR⟩
  | cons o os ih =>
    unfold specRun at h
    rcases h1 : spec o q with _ | ⟨b, q1⟩
    · rw [h1] at h
      cases h
    · rw [h1] at h
      change (specRun spec os q1 >>= fun x => some (b :: x.1, x.2)) = _ at h
      rcases h2 : specRun spec os q1 with _ | ⟨bs2, q2⟩
      · rw [h2] at h
        cases h
      · rw [h2] at h
        cases h
        obtain ⟨s1, e1, hR1⟩ := hstep o s q b q1 hR h1
        obtain ⟨s2, e2, hR2⟩ := ih hR1 h2
        refine ⟨s2, ?_, hR2⟩
        unfold run
        rw [e1]
        change (run step os s1 >>= fun x => .ok (b :: x.1, x.2)) = _
        rw [e2]
        rfl

/-- Every operation of the list has the property in the state in which it is made; where one fails, the run ends. -/
def Always (step : ω → σ → Except ε (β × σ)) (P : σ → ω → Prop) : List ω → σ → Prop
  | [], _ => True
  | o :: os, s => P s o ∧ ∀ b s', step o s = .ok (b, s') → Always step P os s'

instance decidableAlways (step : ω → σ → Except ε (β × σ)) (P : σ → ω → Prop) [∀ s o, Decidable (P s o)] :
    ∀ os s, Decidable (Always step P os s)
  | [], _ => isTrue trivial
  | o :: os, s =>
    match h : step o s with
    | .error _ => decidable_of_iff (P s o) ⟨fun hP => ⟨hP, fun _ _ hs => nomatch h.symm.trans hs⟩, And.left⟩
    | .ok (_, s1) =>
      have : Decidable (Always step P os s1) := decidableAlways step P os s1
      decidable_of_iff (P s o ∧ Always step P os s1)
        ⟨fun ⟨hP, hnext⟩ => ⟨hP, fun _ _ hs => by cases h.symm.trans hs; exact hnext⟩,
          fun ⟨hP, hnext⟩ => ⟨hP, hnext _ _ h⟩⟩

/-- In the states of an invariant one property of the operations entails another, and the invariant is kept. -/
theorem Always.imp {step : ω → σ → Except ε (β × σ)} {P Q : σ → ω → Prop} (I : σ → Prop)
    (hI : ∀ {s o}, I s → P s o → Q s o ∧ ∀ b s', step o s = .ok (b, s') → I s') {os : List ω} {s : σ} (hs : I s)
    (h : Always step P os s) : Always step Q os s := by
  induction os generalizing s with
  | nil => trivial
  | cons o os ih =>
    obtain ⟨hP, hnext⟩ := h
    obtain ⟨hQ, hkeep⟩ := hI hs hP
    exact ⟨hQ, fun b s' hstep => ih (hkeep b s' hstep) (hnext b s' hstep)⟩

/-- Properties that agree in every state. -/
theorem Always.congr {step : ω → σ → Except ε (β × σ)} {P Q : σ → ω → Prop} (h : ∀ s o, P s o ↔ Q s o)
    {os : List ω} {s : σ} : Always step P os s ↔ Always step Q os s :=
  ⟨Always.imp (fun _ => True) (fun _ hP => ⟨(h _ _).1 hP, fun _ _ _ => trivial⟩) trivial,
    Always.imp (fun _ => True) (fun _ hQ => ⟨(h _ _).2 hQ, fun _ _ _ => trivial⟩) trivial⟩

/-! ### Several components -/

section

variable {ι : Type} [DecidableEq ι]

/-- The entries of a list that belong to a component. -/
def partOf (i : ι) (l : List (ι × ω)) : List ω := l.filterMap fun e => if e.1 = i then some e.2 else none

theorem partOf_cons_self (i : ι) (o : ω) (l : List (ι × ω)) : partOf i ((i, o) :: l) = o :: partOf i l := by
  simp [partOf]

theorem partOf_cons_of_ne {i j : ι} (h : j ≠ i) (o : ω) (l : List (ι × ω)) : partOf i ((j, o) :: l) = partOf i l := by
  simp [partOf, h]

theorem mem_partOf {i : ι} {o : ω} {l : List (ι × ω)} : o ∈ partOf i l ↔ (i, o) ∈ l := by
  unfold partOf
  rw [List.mem_filterMap]
  constructor
  · rintro ⟨⟨j, o'⟩, hm, h⟩
    dsimp only at h
    by_cases hj : j = i
    · rw [if_pos hj] at h
      cases h
      rwa [hj] at hm
    · rw [if_neg hj] at h
      cases h
  · exact fun hm => ⟨_, hm, if_pos rfl⟩

/-- The same step in one of several components. -/
def each (step : ω → σ → Except ε (β × σ)) (o : ι × ω) (s : ι → σ) : Except ε ((ι × β) × (ι → σ)) := do
  let (b, s') ← step o.2 (s o.1)
  return ((o.1, b), Function.update s o.1 s')

/-- If a step is possible exactly under a condition, and then leads to a state of the component again, an
interleaving of steps is possible exactly when each of its steps meets the condition, and what it does to a
component is a run of that component. -/
theorem run_each {step : ω → σ → Except ε (β × σ)} {I : ι → σ → Prop} {P : σ → ω → Prop} {e : ε} {os : List (ι × ω)}
    (hstep : ∀ i o s, (i, o) ∈ os → I i s →
      (P s o ∧ ∃ b s', step o s = .ok (b, s') ∧ I i s') ∨ ¬ P s o ∧ step o s = .error e)
    {s : ι → σ} (hs : ∀ i, I i (s i)) :
    (Always (each step) (fun s o => P (s o.1) o.2) os s ∧ ∃ bs s', run (each step) os s = .ok (bs, s') ∧
        ∀ i, run step (partOf i os) (s i) = .ok (partOf i bs, s' i)) ∨
      ¬ Always (each step) (fun s o => P (s o.1) o.2) os s ∧ run (each step) os s = .error e := by
  induction os generalizing s with
  | nil => exact Or.inl ⟨trivial, [], s, rfl, fun i => rfl⟩
  | cons o os ih =>
    obtain ⟨j, o⟩ := o
    rcases hstep j o (s j) (List.mem_cons_self ..) (hs j) with ⟨hP, b, t, h1, ht⟩ | ⟨hP, h1⟩
    · have he : each step (j, o) s = .ok ((j, b), Function.update s j t) := by
        unfold each
        dsimp only
        rw [h1]
        rfl
      have hupd : ∀ i, I i (Function.update s j t i) := by
        intro i
        by_cases hij : i = j
        · subst hij
          rw [Function.update_self]
          exact ht
        · rw [Function.update_of_ne hij]
          exact hs i
      rcases ih (fun i o s hm => hstep i o s (List.mem_cons_of_mem _ hm)) hupd with ⟨halways, bs, s', h2, h3⟩ |
        ⟨hnot, h2⟩
      · left
        refine ⟨⟨hP, fun b' s'' h => ?_⟩, (j, b) :: bs, s', run_cons he h2, fun i => ?_⟩
        · rw [he] at h
          cases h
          exact halways
        · have h3 := h3 i
          by_cases hij : j = i
          · subst hij
            rw [Function.update_self] at h3
            rw [partOf_cons_self, partOf_cons_self]
            exact run_cons h1 h3
          · rw [Function.update_of_ne (Ne.symm hij)] at h3
            rw [partOf_cons_of_ne hij, partOf_cons_of_ne hij]
            exact h3
      · right
        refine ⟨fun halways => hnot (halways.2 _ _ he), ?_⟩
        exact run_cons_error he h2
    · right
      refine ⟨fun halways => hP halways.1, ?_⟩
      have he : each step (j, o) s = .error e := by
        unfold each
        dsimp only
        rw [h1]
        rfl
      rw [run, he]
      rfl

end

/-! ### States that cannot be told apart -/

/-- No list of operations tells the two states apart by what it puts out, or by where it fails. -/
def Alike (step : ω → σ → Except ε (β × σ)) (s s' : σ) : Prop :=
  ∀ os, (run step os s).map Prod.fst = (run step os s').map Prod.fst

section

variable {step : ω → σ → Except ε (β × σ)} {s s' : σ}

private theorem outputs_cons (o : ω) (os : List ω) (s : σ) :
    (run step (o :: os) s).map Prod.fst =
      (step o s >>= fun x => ((run step os x.2).map Prod.fst).map (x.1 :: ·)) := by
  have hrun : run step (o :: os) s = (step o s >>= fun x => run step os x.2 >>= fun y => .ok (x.1 :: y.1, y.2)) := rfl
  rw [hrun]
  cases step o s with
  | error e => rfl
  | ok x =>
    show (run step os x.2 >>= fun y => .ok (x.1 :: y.1, y.2)).map Prod.fst =
        ((run step os x.2).map Prod.fst).map (x.1 :: ·)
    cases run step os x.2 <;> rfl

/-- The next operation puts out the same, and then the states are alike again. -/
theorem Alike.next (h : Alike step s s') {o : ω} {b : β} {t : σ} (hs : step o s = .ok (b, t)) :
    ∃ t', step o s' = .ok (b, t') ∧ Alike step t t' := by
  have hcons : ∀ os, (((run step os t).map Prod.fst).map (b :: ·)) =
      (step o s' >>= fun x => ((run step os x.2).map Prod.fst).map (x.1 :: ·)) := by
    intro os
    have := h (o :: os)
    rw [outputs_cons, outputs_cons, hs] at this
    exact this
  cases hs' : step o s' with
  | error e =>
    have := hcons []
    rw [hs'] at this
    cases this
  | ok x =>
    obtain ⟨b', t'⟩ := x
    have hb := hcons []
    rw [hs'] at hb
    have hbb : b = b' := (List.cons.inj (Except.ok.inj hb)).1
    refine ⟨t', by rw [hbb], fun os => ?_⟩
    have hos := hcons os
    rw [hs', hbb] at hos
    change ((run step os t).map Prod.fst).map (b' :: ·) = ((run step os t').map Prod.fst).map (b' :: ·) at hos
    cases h1 : (run step os t).map Prod.fst with
    | error e =>
      cases h2 : (run step os t').map Prod.fst with
      | error e' =>
        rw [h1, h2] at hos
        exact congrArg _ (Except.error.inj hos)
      | ok bs' =>
        rw [h1, h2] at hos
        cases hos
    | ok bs =>
      cases h2 : (run step os t').map Prod.fst with
      | error e' =>
        rw [h1, h2] at hos
        cases hos
      | ok bs' =>
        rw [h1, h2] at hos
        exact congrArg _ (List.cons.inj (Except.ok.inj hos)).2

/-- States from which every operation does the same are alike. -/
theorem alike_of_step (h : ∀ o, step o s = step o s') : Alike step s s' := by
  intro os
  cases os with
  | nil => rfl
  | cons o os => rw [outputs_cons, outputs_cons, h]

/-- States in a relation in which every operation puts out the same, and which it keeps, are alike. -/
theorem alike_of_keeps {R : σ → σ → Prop}
    (hR : ∀ {s s'} o, R s s' → ∃ b t t', step o s = .ok (b, t) ∧ step o s' = .ok (b, t') ∧ R t t') (h : R s s') :
    Alike step s s' := by
  intro os
  induction os generalizing s s' with
  | nil => rfl
  | cons o os ih =>
    obtain ⟨b, t, t', h1, h2, ht⟩ := hR o h
    rw [outputs_cons, outputs_cons, h1, h2]
    exact congrArg (Except.map (b :: ·)) (ih ht)

end

end Runs
