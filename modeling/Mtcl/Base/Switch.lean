import Mathlib.Data.List.Basic
import Mtcl.Base.Runs

/-!
# Switches

A switch reads messages from its ports, one at a time and in any order, and puts what it makes of each on
another port:  `onward i m` says where what has been read from the port `i` goes, `none` standing for the end of
a port.  What is put on a port after its end is lost.

Nothing gets lost or changes its order on the way: a port that is fed from one other port only has on it what has been
read from that one (`Run.fed`), and a port that several feed has on it an interleaving, of which what came from one of
them is the part that is recognised as such (`Run.carried`).
-/

namespace Switch

variable {κ μ ν : Type}

/-- A message goes out, or the end; behind the end nothing goes out. -/
def putOut : Option μ → List μ × Bool → List μ × Bool
  | _, (ms, true) => (ms, true)
  | some m, (ms, false) => (ms ++ [m], false)
  | none, (ms, false) => (ms, true)

/-- A port: what has been read from it, what is still to come, whether its end has been read, and what has been
put on it, with whether its end has. -/
structure Port (μ : Type) where
  got : List μ := []
  unread : List μ := []
  ended : Bool := false
  out : List μ × Bool := ([], false)

namespace Port

/-- What has been read from the port, its end included. -/
def items (p : Port μ) : List (Option μ) := p.got.map some ++ if p.ended then [none] else []

/-- Both ends of the port have been passed. -/
def Done (p : Port μ) : Prop := p.ended = true ∧ p.out.2 = true

/-- The next item is read. -/
def read (closes : Bool) (p : Port μ) : Option (Option μ × Port μ) :=
  match p.unread with
  | m :: q => some (some m, { p with got := p.got ++ [m], unread := q })
  | [] => if closes && !p.ended then some (none, { p with ended := true }) else none

/-- An item is put on the port. -/
def put (m : Option μ) (p : Port μ) : Port μ := { p with out := putOut m p.out }

end Port

section

variable [DecidableEq κ]

/-- An item goes to a port, if it goes anywhere. -/
def deliver : Option (κ × Option μ) → (κ → Port μ) → κ → Port μ
  | none, x => x
  | some (k, m), x => Function.update x k ((x k).put m)

theorem deliver_some (k : κ) (m : Option μ) (x : κ → Port μ) :
    deliver (some (k, m)) x = Function.update x k ((x k).put m) := rfl

/-- The next item of the port `i` is read and passed on. -/
def step (onward : κ → Option μ → Option (κ × Option μ)) (closes : κ → Bool) (i : κ) (x : κ → Port μ) :
    Option (κ → Port μ) :=
  ((x i).read (closes i)).map fun r => deliver (onward i r.1) (Function.update x i r.2)

/-- The ports before anything has been read: the messages `Q i` are to come from the port `i`. -/
def start (Q : κ → List μ) (i : κ) : Port μ := { unread := Q i }

/-- The states that a switch comes to, whatever port it reads from next. -/
abbrev Run (onward : κ → Option μ → Option (κ × Option μ)) (closes : κ → Bool) (Q : κ → List μ) : (κ → Port μ) → Prop :=
  Runs.Reach (· = start Q) fun i x x' => step onward closes i x = some x'

/-! ### A step -/

variable {onward : κ → Option μ → Option (κ × Option μ)} {closes : κ → Bool} {x x' : κ → Port μ} {i j : κ}
  {Q : κ → List μ}

/-- What is read is the next message, or the end behind the last one. -/
theorem read_cases {closes : Bool} {p p' : Port μ} {m : Option μ} (h : p.read closes = some (m, p')) :
    (∃ a q, m = some a ∧ p.unread = a :: q ∧ p' = { p with got := p.got ++ [a], unread := q }) ∨
      m = none ∧ p.unread = [] ∧ closes = true ∧ p.ended = false ∧ p' = { p with ended := true } := by
  unfold Port.read at h
  split at h
  · rename_i a q hq
    cases h
    exact .inl ⟨a, q, rfl, hq, rfl⟩
  · rename_i hq
    split at h
    · rename_i hc
      obtain ⟨hcloses, hended⟩ := Bool.and_eq_true_iff.1 hc
      cases h
      exact .inr ⟨rfl, hq, hcloses, by simpa using hended, rfl⟩
    · cases h

theorem step_eq_some : step onward closes i x = some x' ↔
    ∃ m p, (x i).read (closes i) = some (m, p) ∧ x' = deliver (onward i m) (Function.update x i p) := by
  unfold step
  rw [Option.map_eq_some_iff]
  constructor
  · rintro ⟨⟨m, p⟩, hr, rfl⟩
    exact ⟨m, p, hr, rfl⟩
  · rintro ⟨m, p, hr, rfl⟩
    exact ⟨(m, p), hr, rfl⟩

/-- Reading changes what is on no port. -/
theorem read_out {closes : Bool} {p p' : Port μ} {m : Option μ} (h : p.read closes = some (m, p')) :
    p'.out = p.out := by
  rcases read_cases h with ⟨a, q, -, -, rfl⟩ | ⟨-, -, -, -, rfl⟩ <;> rfl

/-- Before its end nothing but messages has been read from a port. -/
theorem read_items {closes : Bool} {p p' : Port μ} {m : Option μ} (h : p.read closes = some (m, p'))
    (hended : p.ended = true → p.unread = []) : p'.items = p.items ++ [m] := by
  rcases read_cases h with ⟨a, q, rfl, hq, rfl⟩ | ⟨rfl, -, -, hopen, rfl⟩
  · have hopen : p.ended = false := by
      cases he : p.ended with
      | false => rfl
      | true =>
        rw [hended he] at hq
        cases hq
    simp [Port.items, hopen]
  · simp [Port.items, hopen]

/-- What is passed on changes nothing but what is on its port. -/
theorem deliver_port (r : Option (κ × Option μ)) (x : κ → Port μ) (k : κ) :
    (deliver r x k).got = (x k).got ∧ (deliver r x k).unread = (x k).unread ∧ (deliver r x k).ended = (x k).ended := by
  cases r with
  | none => exact ⟨rfl, rfl, rfl⟩
  | some r =>
    obtain ⟨j, m⟩ := r
    change (Function.update x j ((x j).put m) k).got = _ ∧ _
    by_cases hk : k = j
    · subst hk
      rw [deliver, Function.update_self]
      exact ⟨rfl, rfl, rfl⟩
    · rw [deliver, Function.update_of_ne hk]
      exact ⟨rfl, rfl, rfl⟩

theorem deliver_items (r : Option (κ × Option μ)) (x : κ → Port μ) (k : κ) : (deliver r x k).items = (x k).items := by
  obtain ⟨h1, -, h3⟩ := deliver_port r x k
  unfold Port.items
  rw [h1, h3]

/-- What goes to the port `j`. -/
def toward (j : κ) : Option (κ × Option μ) → Option (Option μ)
  | none => none
  | some (k, m) => if k = j then some m else none

/-- What an item leaves on a port. -/
theorem deliver_out (r : Option (κ × Option μ)) (x : κ → Port μ) (j : κ) :
    (deliver r x j).out = (toward j r).elim (x j).out fun m => putOut m (x j).out := by
  cases r with
  | none => rfl
  | some r =>
    obtain ⟨k, m⟩ := r
    rw [deliver, toward]
    by_cases hk : j = k
    · subst hk
      rw [Function.update_self, if_pos rfl]
      rfl
    · rw [Function.update_of_ne hk, if_neg (Ne.symm hk)]
      rfl

/-! ### Runs -/

/-- From a port come its messages, in order, and then its end if it closes. -/
theorem Run.read (h : Run onward closes Q x) (i : κ) :
    (x i).got ++ (x i).unread = Q i ∧ ((x i).ended = true → (x i).unread = [] ∧ closes i = true) := by
  refine h.invariant (fun x => (x i).got ++ (x i).unread = Q i ∧
    ((x i).ended = true → (x i).unread = [] ∧ closes i = true)) ?_ ?_
  · rintro x rfl
    exact ⟨rfl, nofun⟩
  · rintro k x x' ⟨hall, hend⟩ hs
    obtain ⟨m, p, hr, rfl⟩ := step_eq_some.1 hs
    obtain ⟨h1, h2, h3⟩ := deliver_port (onward k m) (Function.update x k p) i
    rw [h1, h2, h3]
    by_cases hk : i = k
    · subst hk
      rw [Function.update_self]
      rcases read_cases hr with ⟨a, q, -, hq, rfl⟩ | ⟨-, hq, hcloses, -, rfl⟩
      · refine ⟨by rw [← hall, hq]; simp, fun he => ?_⟩
        rw [(hend he).1] at hq
        cases hq
      · exact ⟨hall, fun _ => ⟨hq, hcloses⟩⟩
    · rw [Function.update_of_ne hk]
      exact ⟨hall, hend⟩

private theorem step_items (h : Run onward closes Q x) {m : Option μ} {p : Port μ}
    (hr : (x i).read (closes i) = some (m, p)) (k : κ) :
    (deliver (onward i m) (Function.update x i p) k).items = (x k).items ++ if k = i then [m] else [] := by
  rw [deliver_items]
  by_cases hk : k = i
  · subst hk
    rw [Function.update_self, if_pos rfl]
    exact read_items hr fun he => ((Run.read h k).2 he).1
  · rw [Function.update_of_ne hk, if_neg hk, List.append_nil]

private theorem step_out {m : Option μ} {p : Port μ} (hr : (x i).read (closes i) = some (m, p)) (k : κ) :
    (deliver (onward i m) (Function.update x i p) k).out =
      (toward k (onward i m)).elim (x k).out fun m => putOut m (x k).out := by
  have hsame : (Function.update x i p k).out = (x k).out := by
    by_cases hk : k = i
    · subst hk
      rw [Function.update_self, read_out hr]
    · rw [Function.update_of_ne hk]
  rw [deliver_out, hsame]

/-- What is read from a port was to come from it. -/
theorem Run.mem (h : Run onward closes Q x) {m : μ} {p : Port μ}
    (hr : (x i).read (closes i) = some (some m, p)) : m ∈ Q i := by
  rcases read_cases hr with ⟨a, q, ha, hq, -⟩ | ⟨hm, -⟩
  · cases ha
    rw [← (Run.read h i).1, hq]
    exact List.mem_append_right _ (List.mem_cons_self ..)
  · cases hm

/-- A port that is fed from one other port has on it what has been read from that one, in order. -/
theorem Run.fed (h : Run onward closes Q x)
    (honly : ∀ k m, k ≠ i → (∀ a, m = some a → a ∈ Q k) → toward j (onward k m) = none) :
    (x j).out = ((x i).items.filterMap fun m => toward j (onward i m)).foldl (fun o m => putOut m o) ([], false) := by
  induction h with
  | start h =>
    subst h
    rfl
  | @next x x' k h hs ih =>
    obtain ⟨m, p, hr, rfl⟩ := step_eq_some.1 hs
    rw [step_items h hr i, step_out hr j, ih]
    by_cases hk : i = k
    · subst hk
      rw [if_pos rfl, List.filterMap_append, List.foldl_append]
      rw [List.filterMap_cons]
      cases toward j (onward i m) <;> rfl
    · have hmem : ∀ a, m = some a → a ∈ Q k := by
        rintro a rfl
        exact Run.mem h hr
      rw [if_neg hk, List.append_nil, honly k m (Ne.symm hk) hmem]
      rfl

/-- On a port that nobody closes is what comes from each port that feeds it; `f` recognises what comes from the
port `i`. -/
theorem Run.carried (h : Run onward closes Q x) {f : μ → Option (Option μ)}
    (hopen : ∀ k m, toward j (onward k m) ≠ some none)
    (hall : ∀ m, ∃ a, toward j (onward i m) = some (some a) ∧ f a = some m)
    (hothers : ∀ k m a, k ≠ i → toward j (onward k m) = some (some a) → f a = none) :
    (x j).out.2 = false ∧ (x j).out.1.filterMap f = (x i).items := by
  induction h with
  | start h =>
    subst h
    exact ⟨rfl, rfl⟩
  | @next x x' k h hs ih =>
    obtain ⟨m, p, hr, rfl⟩ := step_eq_some.1 hs
    obtain ⟨hout, hitems⟩ := ih
    rw [step_items h hr i, step_out hr j]
    have hput : ∀ a, putOut (some a) (x j).out = ((x j).out.1 ++ [a], false) := by
      intro a
      have hpair : (x j).out = ((x j).out.1, false) := Prod.ext rfl hout
      rw [hpair]
      rfl
    by_cases hk : i = k
    · subst hk
      obtain ⟨a, ha, hf⟩ := hall m
      rw [ha, if_pos rfl, Option.elim_some, hput]
      refine ⟨rfl, ?_⟩
      rw [List.filterMap_append, hitems, List.filterMap_cons_some hf]
      rfl
    · rw [if_neg hk, List.append_nil]
      cases ht : toward j (onward k m) with
      | none => exact ⟨hout, hitems⟩
      | some r =>
        cases r with
        | none => exact absurd ht (hopen k m)
        | some a =>
          rw [Option.elim_some, hput]
          refine ⟨rfl, ?_⟩
          rw [List.filterMap_append, List.filterMap_cons_none (hothers k m a (Ne.symm hk) ht), hitems]
          exact List.append_nil _

end

/-! ### Messages and their end -/

theorem foldl_putOut_map (ms l : List μ) :
    (ms.map some).foldl (fun o m => putOut m o) (l, false) = (l ++ ms, false) := by
  induction ms generalizing l with
  | nil => simp
  | cons m ms ih =>
    rw [List.map_cons, List.foldl_cons]
    change (ms.map some).foldl _ (l ++ [m], false) = _
    rw [ih, List.append_assoc]
    rfl

/-- What is read from a port and put on another as it is. -/
theorem foldl_items (p : Port μ) : p.items.foldl (fun o m => putOut m o) ([], false) = (p.got, p.ended) := by
  unfold Port.items
  rw [List.foldl_append, foldl_putOut_map]
  cases p.ended <;> rfl

/-- When only the first items of a port have come through, so have only its first messages; behind the end all have. -/
theorem foldl_prefix {p : Port μ} {l : List (Option μ)} (h : l <+: p.items) :
    (l.foldl (fun o m => putOut m o) ([], false)).1 <+: p.got ∧
      ((l.foldl (fun o m => putOut m o) ([], false)).2 = true →
        (l.foldl (fun o m => putOut m o) ([], false)).1 = p.got ∧ p.ended = true) := by
  unfold Port.items at h
  rcases List.prefix_or_prefix_of_prefix h (List.prefix_append (p.got.map some) _) with hl | ⟨t, rfl⟩
  · obtain ⟨ms, hms, rfl⟩ := List.prefix_map_iff.1 hl
    rw [foldl_putOut_map]
    exact ⟨hms, nofun⟩
  · rw [List.prefix_append_right_inj] at h
    rw [List.foldl_append, foldl_putOut_map]
    cases t with
    | nil => exact ⟨List.prefix_refl _, nofun⟩
    | cons a t =>
      cases hended : p.ended with
      | false =>
        rw [hended] at h
        exact absurd (List.prefix_nil.1 h) (List.cons_ne_nil _ _)
      | true =>
        rw [hended] at h
        obtain ⟨rfl, ht⟩ := List.cons_prefix_cons.1 h
        rw [List.prefix_nil.1 ht]
        exact ⟨List.prefix_refl _, fun _ => ⟨rfl, rfl⟩⟩

end Switch
