import Mathlib.Algebra.Order.BigOperators.Group.List
import Mathlib.Algebra.Order.Group.Nat
import Mtcl.Base.Runs
import Mtcl.Ownership

/-!
# Concurrent release

Several threads hold a `HandleUser` each that refers to one `Handle` or `CollectiveContext`, both sides of which
are closed, and release it.  The count and the flags are atomic, but a release decrements the count in one step
and looks at it in another.  A thread is at a `Point` of the functions it runs, and `Point.next` is the next
access to the object.

`released_once` says that `delete this` is executed at most once in every run in which no thread takes the count to zero
while another one has still to look at it, and that every step of the other kind can be followed by two deletions.
-/

namespace Mtcl.Release

/-- The atomic members of the object, and how often `delete this` has been executed. -/
structure Shared where
  counter : Int
  closedRd : Bool
  closedWr : Bool
  deletes : Nat
  deriving DecidableEq, Repr

/-- Where a thread is: between the calls that it makes through its `HandleUser`, in `Handle::close(true, false)`, in
`~HandleUser`, or behind it. -/
inductive Point
  | holding
  | closeWrite | sendEOS | setClosedWr | notifyClose | closeCounter | closeReadRd | closeReadWr | closeDelete
  | yield | decrement | readCounter | readWr | readRd | delete
  | released
  deriving DecidableEq, Repr

/-- The next access to the object.  What the object tells its connector in `yield` and in `notify_close` changes nothing
here. -/
def Point.next : Shared × Point → Shared × Point
  | (o, .holding) => (o, .holding)
  | (o, .closeWrite) => (o, if o.closedWr then .notifyClose else .sendEOS)
  | (o, .sendEOS) => (o, .setClosedWr)
  | (o, .setClosedWr) => ({ o with closedWr := true }, .notifyClose)
  | (o, .notifyClose) => (o, .closeCounter)
  | (o, .closeCounter) => (o, if o.counter = 0 then .closeReadRd else .holding)
  | (o, .closeReadRd) => (o, if o.closedRd then .closeReadWr else .holding)
  | (o, .closeReadWr) => (o, if o.closedWr then .closeDelete else .holding)
  | (o, .closeDelete) => ({ o with deletes := o.deletes + 1 }, .holding)
  | (o, .yield) => (o, .decrement)
  | (o, .decrement) => ({ o with counter := o.counter - 1 }, .readCounter)
  | (o, .readCounter) => (o, if o.counter = 0 then .readWr else .released)
  | (o, .readWr) => (o, if o.closedWr then .readRd else .released)
  | (o, .readRd) => (o, if o.closedRd then .delete else .released)
  | (o, .delete) => ({ o with deletes := o.deletes + 1 }, .released)
  | (o, .released) => (o, .released)

/-- What the object is. -/
inductive Kind
  | handle
  | context
  deriving DecidableEq, Repr

/-- The count that the constructor leaves. -/
def Kind.counter : Kind → Nat
  | .handle => 0
  | .context => 1

/-- The object and the threads. -/
structure State where
  object : Shared
  threads : List Point
  deriving DecidableEq, Repr

/-- A thread begins a call, or goes on with one.  `close` of a context does not delete it and is left out. -/
inductive Step (k : Kind) (i : Nat) (s : State) : State → Prop
  | close (h : s.threads[i]? = some .holding) (hk : k = .handle) :
    Step k i s { s with threads := s.threads.set i .closeWrite }
  | destroy (h : s.threads[i]? = some .holding) : Step k i s { s with threads := s.threads.set i .decrement }
  | destroyReadable (h : s.threads[i]? = some .holding) : Step k i s { s with threads := s.threads.set i .yield }
  | access {p : Point} (h : s.threads[i]? = some p) :
    Step k i s { object := (Point.next (s.object, p)).1, threads := s.threads.set i (Point.next (s.object, p)).2 }

/-- Every thread holds a user of an object whose sides are closed; there may be other users. -/
structure Starts (k : Kind) (s : State) : Prop where
  closedRd : s.object.closedRd = true
  closedWr : s.object.closedWr = true
  deletes : s.object.deletes = 0
  threads : ∀ p ∈ s.threads, p = .holding
  counter : ∃ others : Nat, s.object.counter = k.counter + s.threads.length + others

/-- The thread takes the count to zero while another one has still to look at it. -/
def Overlaps (i : Nat) (s : State) : Prop :=
  s.threads[i]? = some .decrement ∧ s.object.counter = 1 ∧ Point.readCounter ∈ s.threads

instance (i : Nat) (s : State) : Decidable (Overlaps i s) :=
  inferInstanceAs (Decidable (_ ∧ _ ∧ _))

/-! ### One thread alone -/

/-- The object that a handle of `Objects` is. -/
def view {T : Type} (o : Objects T) (id : Nat) : Shared where
  counter := (o.base id).counter
  closedRd := (o.base id).closedRd
  closedWr := (o.base id).closedWr
  deletes := if o.deleted id then 1 else 0

/-- When nobody interferes, the accesses of a release are `decrementReferenceCounter`. -/
theorem decrement_alone {T : Type} {o o' : Objects T} {id : Nat} (h : o.decrement id = .ok o') :
    Point.next^[5] (view o id, .decrement) = (view o' id, .released) := by
  unfold Objects.decrement at h
  obtain ⟨b, hb, h⟩ := bind_eq_ok.1 h
  obtain ⟨-, hdel, rfl⟩ := Objects.deref_eq_ok.1 hb
  cases h
  unfold Objects.deleteUnused view
  rw [Objects.put_base_self]
  by_cases hc : (o.base id).counter - 1 = 0
  · by_cases hw : (o.base id).closedWr = true
    · by_cases hr : (o.base id).closedRd = true
      · simp [Point.next, hc, hw, hr, hdel, Objects.put]
      · simp [Point.next, hc, hw, hr, hdel, Objects.put]
    · simp [Point.next, hc, hw, hdel, Objects.put]
  · simp [Point.next, hc, hdel, Objects.put]

/-! ### The invariant -/

/-- One for a thread whose `HandleUser` is still counted. -/
def Point.owns : Point → Nat
  | .readCounter | .readWr | .readRd | .delete | .released => 0
  | _ => 1

/-- One for a thread that has decremented the count and not looked at it yet. -/
def Point.looks : Point → Nat
  | .readCounter => 1
  | _ => 0

/-- One for a thread that has found the count at zero and not deleted the object yet. -/
def Point.deletes : Point → Nat
  | .closeReadRd | .closeReadWr | .closeDelete | .readWr | .readRd | .delete => 1
  | _ => 0

/-- A weight, summed over the threads. -/
def State.sum (s : State) (g : Point → Nat) : Nat := (s.threads.map g).sum

/-- The count is at least the number of users, and when it is zero at most one thread has still to delete the
object or has deleted it. -/
structure State.Inv (s : State) : Prop where
  closedRd : s.object.closedRd = true
  closedWr : s.object.closedWr = true
  owners : (s.sum Point.owns : Int) ≤ s.object.counter
  once : (0 < s.object.counter ∧ s.object.deletes + s.sum Point.deletes = 0) ∨
    (s.object.counter = 0 ∧ s.object.deletes + s.sum Point.deletes + s.sum Point.looks ≤ 1)

theorem sum_set {l : List Point} {i : Nat} {p : Point} (h : l[i]? = some p) (q : Point) (g : Point → Nat) :
    ((l.set i q).map g).sum + g p = (l.map g).sum + g q := by
  induction l generalizing i with
  | nil => simp at h
  | cons a l ih =>
    cases i with
    | zero =>
      have ha : a = p := by simpa using h
      subst ha
      simp only [List.set_cons_zero, List.map_cons, List.sum_cons]
      omega
    | succ i =>
      have hrest := ih (by simpa using h)
      simp only [List.set_cons_succ, List.map_cons, List.sum_cons]
      omega

theorem le_sum {l : List Point} {p : Point} (h : p ∈ l) (g : Point → Nat) : g p ≤ (l.map g).sum :=
  List.single_le_sum (fun _ _ => Nat.zero_le _) _ (List.mem_map_of_mem h)

theorem sum_looks {l : List Point} (h : Point.readCounter ∉ l) : (l.map Point.looks).sum = 0 := by
  rw [List.sum_eq_zero_iff]
  intro n hn
  obtain ⟨p, hp, rfl⟩ := List.mem_map.1 hn
  cases p with
  | readCounter => exact absurd hp h
  | _ => rfl

variable {k : Kind} {i : Nat} {s s' : State}

theorem Starts.inv (h : Starts k s) : s.Inv := by
  have hsum : ∀ g : Point → Nat, s.sum g = s.threads.length * g .holding := by
    intro g
    unfold State.sum
    have hmap : s.threads.map g = s.threads.map fun _ => g .holding :=
      List.map_congr_left fun p hp => congrArg g (h.threads p hp)
    rw [hmap, List.map_const', List.sum_replicate_nat]
  have howns := hsum Point.owns
  have hlooks := hsum Point.looks
  have hdeletes := hsum Point.deletes
  simp only [Point.owns, Point.looks, Point.deletes] at howns hlooks hdeletes
  obtain ⟨n, hn⟩ := h.counter
  have hzero := h.deletes
  constructor
  · exact h.closedRd
  · exact h.closedWr
  · omega
  · omega

/-- A thread that moves from one point to another changes the sums by the weights of the two. -/
theorem sum_move {p : Point} (h : s.threads[i]? = some p) (q : Point) (o : Shared) (g : Point → Nat) :
    State.sum { object := o, threads := s.threads.set i q } g + g p = s.sum g + g q :=
  sum_set h q g

/-- A move that leaves the count alone keeps the invariant if it makes no new deletion. -/
theorem State.Inv.move {p q : Point} {o : Shared} (hi : s.Inv) (h : s.threads[i]? = some p) (hrd : o.closedRd = true)
    (hwr : o.closedWr = true) (hc : o.counter = s.object.counter) (howns : q.owns = p.owns)
    (hle : o.deletes + q.deletes + q.looks ≤ s.object.deletes + p.deletes + p.looks)
    (heq : 0 < s.object.counter → o.deletes + q.deletes = s.object.deletes + p.deletes) :
    ({ object := o, threads := s.threads.set i q } : State).Inv := by
  have h1 := sum_move h q o Point.owns
  have h2 := sum_move h q o Point.looks
  have h3 := sum_move h q o Point.deletes
  have hown := hi.owners
  constructor
  · exact hrd
  · exact hwr
  · dsimp only
    omega
  · dsimp only
    rcases hi.once with ⟨hpos, hnone⟩ | ⟨hzero, honce⟩
    · left
      have := heq hpos
      omega
    · right
      omega

/-- The decrement keeps the invariant unless it takes the count to zero under the eyes of another thread. -/
theorem State.Inv.decrement (hi : s.Inv) (h : s.threads[i]? = some .decrement) (hd : ¬ Overlaps i s) :
    ({ object := { s.object with counter := s.object.counter - 1 }, threads := s.threads.set i .readCounter } :
      State).Inv := by
  have hsum := sum_move h .readCounter { s.object with counter := s.object.counter - 1 }
  have h1 := hsum Point.owns
  have h2 := hsum Point.looks
  have h3 := hsum Point.deletes
  have hown := hi.owners
  have hpos : Point.decrement.owns ≤ s.sum Point.owns := le_sum (List.mem_of_getElem? h) Point.owns
  have hlast : s.object.counter = 1 → s.sum Point.looks = 0 := fun hc => sum_looks fun hl => hd ⟨h, hc, hl⟩
  simp only [Point.owns, Point.looks, Point.deletes] at h1 h2 h3 hpos
  constructor
  · exact hi.closedRd
  · exact hi.closedWr
  · dsimp only
    omega
  · dsimp only
    have := hi.once
    omega

/-- An access to the object keeps the invariant unless it overlaps with another one. -/
theorem State.Inv.access {p : Point} (hi : s.Inv) (h : s.threads[i]? = some p) (hd : ¬ Overlaps i s) :
    ({ object := (Point.next (s.object, p)).1, threads := s.threads.set i (Point.next (s.object, p)).2 } :
      State).Inv := by
  have hrd := hi.closedRd
  have hwr := hi.closedWr
  cases p with
  | decrement => exact hi.decrement h hd
  | closeCounter =>
    -- a thread that closes has a user, so the count is not zero
    have hpos : Point.closeCounter.owns ≤ s.sum Point.owns := le_sum (List.mem_of_getElem? h) Point.owns
    have hc : s.object.counter ≠ 0 := by
      have := hi.owners
      simp only [Point.owns] at hpos
      omega
    rw [Point.next, if_neg hc]
    exact hi.move h hrd hwr rfl rfl (Nat.le_refl _) fun _ => rfl
  | readCounter =>
    by_cases hc : s.object.counter = 0
    · rw [Point.next, if_pos hc]
      exact hi.move h hrd hwr rfl rfl (Nat.le_refl _) fun hpos => absurd hc (ne_of_gt hpos)
    · rw [Point.next, if_neg hc]
      exact hi.move h hrd hwr rfl rfl (Nat.le_succ _) fun _ => rfl
  | closeWrite | closeReadWr | readWr =>
    rw [Point.next, if_pos hwr]
    exact hi.move h hrd hwr rfl rfl (Nat.le_refl _) fun _ => rfl
  | closeReadRd | readRd =>
    rw [Point.next, if_pos hrd]
    exact hi.move h hrd hwr rfl rfl (Nat.le_refl _) fun _ => rfl
  | setClosedWr => exact hi.move h hrd rfl rfl rfl (Nat.le_refl _) fun _ => rfl
  | holding | sendEOS | notifyClose | closeDelete | yield | delete | released =>
    exact hi.move h hrd hwr rfl rfl (Nat.le_refl _) fun _ => rfl

theorem State.Inv.step (hi : s.Inv) (hd : ¬ Overlaps i s) (h : Step k i s s') : s'.Inv := by
  cases h with
  | close h | destroy h | destroyReadable h =>
    exact hi.move h hi.closedRd hi.closedWr rfl rfl (Nat.le_refl _) fun _ => rfl
  | access h => exact hi.access h hd

theorem State.Inv.deletes_le (hi : s.Inv) : s.object.deletes ≤ 1 := by
  have := hi.once
  omega

/-! ### Overlapping releases -/

/-- The states that are reached from a state. -/
def Leads (k : Kind) (s : State) : State → Prop := Runs.Reach (· = s) (Step k)

/-- A thread that has to look at a count of zero can go on until it has deleted the object. -/
theorem leads_delete (hrd : s.object.closedRd = true) (hwr : s.object.closedWr = true) (hc : s.object.counter = 0)
    (h : s.threads[i]? = some .readCounter) {s0 : State} (h0 : Leads k s0 s) :
    Leads k s0
      { object := { s.object with deletes := s.object.deletes + 1 }, threads := s.threads.set i .released } := by
  obtain ⟨hi, -⟩ := List.getElem?_eq_some_iff.1 h
  have hset : ∀ p : Point, (s.threads.set i p)[i]? = some p := fun p => List.getElem?_set_self hi
  have h1 : Step k i s { s with threads := s.threads.set i .readWr } := by
    have := Step.access (k := k) h
    rwa [Point.next, if_pos hc] at this
  have h2 : Step k i { s with threads := s.threads.set i .readWr } { s with threads := s.threads.set i .readRd } := by
    have := Step.access (k := k) (s := { s with threads := s.threads.set i .readWr }) (hset .readWr)
    simp only [Point.next, hwr, if_true, List.set_set] at this
    exact this
  have h3 : Step k i { s with threads := s.threads.set i .readRd } { s with threads := s.threads.set i .delete } := by
    have := Step.access (k := k) (s := { s with threads := s.threads.set i .readRd }) (hset .readRd)
    simp only [Point.next, hrd, if_true, List.set_set] at this
    exact this
  have h4 : Step k i { s with threads := s.threads.set i .delete }
      { object := { s.object with deletes := s.object.deletes + 1 }, threads := s.threads.set i .released } := by
    have := Step.access (k := k) (s := { s with threads := s.threads.set i .delete }) (hset .delete)
    simp only [Point.next, List.set_set] at this
    exact this
  exact .next i (.next i (.next i (.next i h0 h1) h2) h3) h4

/-- Two threads that overlap can both delete the object. -/
theorem overlaps_twice (hi : s.Inv) (ho : Overlaps i s) (h : Step k i s s') :
    ∃ s'', Leads k s' s'' ∧ s''.object.deletes = 2 := by
  obtain ⟨hdec, hc, hmem⟩ := ho
  obtain ⟨j, hj⟩ := List.mem_iff_getElem?.1 hmem
  have hne : i ≠ j := by
    rintro rfl
    rw [hdec] at hj
    cases hj
  have hnone : s.object.deletes = 0 := by
    have := hi.once
    omega
  cases h with
  | close h | destroy h | destroyReadable h =>
    rw [hdec] at h
    cases h
  | @access p h =>
    obtain rfl : Point.decrement = p := Option.some.inj (hdec.symm.trans h)
    obtain ⟨hlt, -⟩ := List.getElem?_eq_some_iff.1 h
    have hzero : s.object.counter - 1 = 0 := by omega
    -- both of them have now to look at a count of zero
    let s1 : State :=
      { object := { s.object with counter := s.object.counter - 1 }, threads := s.threads.set i .readCounter }
    let s2 : State :=
      { object := { s1.object with deletes := s1.object.deletes + 1 }, threads := s1.threads.set i .released }
    have h1 : Leads k s1 s2 :=
      @leads_delete k i s1 hi.closedRd hi.closedWr hzero (List.getElem?_set_self hlt) s1 (.start rfl)
    have hj2 : s2.threads[j]? = some .readCounter := by
      show ((s.threads.set i .readCounter).set i .released)[j]? = _
      rw [List.getElem?_set_ne hne, List.getElem?_set_ne hne]
      exact hj
    have h2 := @leads_delete k j s2 hi.closedRd hi.closedWr hzero hj2 s1 h1
    refine ⟨_, h2, ?_⟩
    show s.object.deletes + 1 + 1 = 2
    omega

/-! ### At most one deletion -/

/-- In every run in which no thread takes the count to zero while another one has still to look at it, the
object is deleted at most once, and a step of the other kind can be followed by two deletions. -/
theorem released_once (h : Runs.Reach (Starts k) (fun i s s' => ¬ Overlaps i s ∧ Step k i s s') s) :
    s.object.deletes ≤ 1 ∧
      ∀ i s', Overlaps i s → Step k i s s' → ∃ s'', Leads k s' s'' ∧ s''.object.deletes = 2 := by
  have hi : s.Inv := h.invariant State.Inv (fun _ => Starts.inv) fun _ _ _ hi hs => hi.step hs.1 hs.2
  exact ⟨hi.deletes_le, fun i s' => overlaps_twice hi⟩

/-- Two users of a handle that is closed. -/
private def twoUsers : State where
  object := { counter := 2, closedRd := true, closedWr := true, deletes := 0 }
  threads := [.holding, .holding]

private theorem twoUsers_starts : Starts .handle twoUsers := ⟨rfl, rfl, rfl, by decide, 0, rfl⟩

/-- Two threads release their users, the second one between the accesses of the first, which has looked at the
count before the second takes it to zero.  The handle is deleted once. -/
theorem released_once_run : ∃ s : State, s.threads = [.released, .released] ∧ s.object.counter = 0 ∧
    s.object.deletes = 1 ∧ s.object.deletes ≤ 1 := by
  let Reached := Runs.Reach (Starts .handle) fun i s s' => ¬ Overlaps i s ∧ Step .handle i s s'
  have access : ∀ {s : State} (i : Nat) (p : Point), s.threads[i]? = some p → ¬ Overlaps i s → Reached s →
      Reached { object := (Point.next (s.object, p)).1, threads := s.threads.set i (Point.next (s.object, p)).2 } :=
    fun i p hp ho h => h.next i ⟨ho, .access hp⟩
  have h0 : Reached twoUsers := .start twoUsers_starts
  have h1 : Reached { twoUsers with threads := [.yield, .holding] } := h0.next 0 ⟨by decide, .destroyReadable rfl⟩
  have h2 : Reached { twoUsers with threads := [.yield, .decrement] } := h1.next 1 ⟨by decide, .destroy rfl⟩
  have h3 := access 0 .yield rfl (by decide) h2
  have h4 := access 0 .decrement rfl (by decide) h3
  have h5 := access 0 .readCounter rfl (by decide) h4
  have h6 := access 1 .decrement rfl (by decide) h5
  have h7 := access 1 .readCounter rfl (by decide) h6
  have h8 := access 1 .readWr rfl (by decide) h7
  have h9 := access 1 .readRd rfl (by decide) h8
  have h10 := access 1 .delete rfl (by decide) h9
  exact ⟨_, rfl, rfl, rfl, (released_once h10).1⟩

/-- Two threads that decrement the count before either of them looks at it delete the handle twice. -/
theorem deleted_twice : ∃ s, Runs.Reach (Starts .handle) (Step .handle) s ∧ s.object.deletes = 2 := by
  let s1 : State := { twoUsers with threads := [.decrement, .holding] }
  let s2 : State := { twoUsers with threads := [.decrement, .decrement] }
  let s3 : State := { object := { twoUsers.object with counter := 1 }, threads := [.readCounter, .decrement] }
  have h1 : Step .handle 0 twoUsers s1 := .destroy rfl
  have h2 : Step .handle 1 s1 s2 := .destroy rfl
  have h3 : Step .handle 0 s2 s3 := @Step.access _ _ s2 .decrement rfl
  have hi : s3.Inv := ((twoUsers_starts.inv.step (by decide) h1).step (by decide) h2).step (by decide) h3
  have hreach : Runs.Reach (Starts .handle) (Step .handle) s3 :=
    .next 0 (.next 1 (.next 0 (.start twoUsers_starts) h1) h2) h3
  have h4 := @Step.access .handle 1 s3 .decrement rfl
  obtain ⟨s, hs, htwo⟩ := overlaps_twice hi (by decide) h4
  exact ⟨s, (hreach.next 1 h4).trans hs, htwo⟩

end Mtcl.Release
