import Mathlib.Data.Finset.Insert
import Mtcl.Base.CondVar
import Mtcl.Collective.TeamID

/-!
# Assembling a team

In the build with a thread for the I/O the root of a team waits in `createTeam` until the connections of the
other members have come, which `addinQ` registers under the identifier of the team.  The roots of all the teams
wait on one condition variable, `group_cond`; `addinQ` wakes one of them, and a root compares the number of its
connections for equality.

`assembly_unstuck` says that no root waits for ever beside a group that is complete as long as every step is
`InTime`: the registration that completes the group of a blocked root wakes this root, and no connection comes
for a group that is complete.  Behind the first step that is not, the roots that have been woken have only to
look again.
-/

namespace Mtcl

open CondVar Runs

variable {H ι : Type}

/-- The members of `Manager` that the roots share; `createdTeams` holds the teams of all the calls so far. -/
structure Groups (H : Type) where
  groupsReady : Bytes → Option (List H)
  createdTeams : Finset Bytes

/-- The root of a team in `createTeam`; `size` counts the participants, in an `int`. -/
structure TeamRoot where
  teamID : Bytes
  size : Nat
  pos : 0 < size
  fits : size < 2 ^ 31

namespace Groups

/-- The number of the handles that are registered for a team. -/
def count (g : Groups H) (teamID : Bytes) : Nat := ((g.groupsReady teamID).getD []).length

/-- `Manager::addinQ` of a connection for a team, up to `notify_one`. -/
def addinQ (g : Groups H) (teamID : Bytes) (h : H) : Groups H :=
  { g with groupsReady := Function.update g.groupsReady teamID (some ((g.groupsReady teamID).getD [] ++ [h])) }

/-- The predicate of the wait.  The number of the handles is passed as an `int`; one that is negative then is
not that of the other members either. -/
def complete (k : TeamRoot) (g : Groups H) : Bool :=
  match g.groupsReady k.teamID with
  | none => false
  | some handles => update k.size (handles.length % 2 ^ 32)

/-- `groupsReady.erase(teamID)`, when the handles have been copied. -/
def erase (k : TeamRoot) (g : Groups H) : Groups H :=
  { g with groupsReady := Function.update g.groupsReady k.teamID none }

/-- The beginning of `createTeam` for a team that has not been created. -/
def enter (k : TeamRoot) (g : Groups H) : Groups H := { g with createdTeams := insert k.teamID g.createdTeams }

/-- All the other members have connected. -/
def Assembled (k : TeamRoot) (g : Groups H) : Prop := k.size - 1 ≤ g.count k.teamID

end Groups

/-- The roots, with `group_mutex` and `group_cond`. -/
def groupMonitor (H : Type) : Monitor (Groups H) TeamRoot (Bytes × H) where
  admits k g := k.teamID ∉ g.createdTeams
  enter := Groups.enter
  ready := Groups.complete
  take := Groups.erase
  change o g := g.addinQ o.1 o.2

/-- Nobody has connected yet, and no thread is in `createTeam`. -/
def NoRoots (s : State (Groups H) TeamRoot ι) : Prop := s.shared.groupsReady = (fun _ => none) ∧
    ∀ i, s.threads i = .away

/-- The step comes in time for the roots: a root that enters finds its group complete, or members missing; a
registration that completes the group of a blocked root wakes it, and there is none for a group that is complete
while its root has been woken and has not looked. -/
def InTime : Move TeamRoot (Bytes × H) ι → State (Groups H) TeamRoot ι → Prop
  | .enter _ k, s => s.shared.complete k = true ∨ s.shared.count k.teamID < k.size - 1
  | .look _, _ => True
  | .change (teamID, _) woken, s => ∀ i k, k.teamID = teamID →
      (s.threads i = .blocked k → s.shared.count teamID + 1 = k.size - 1 → woken = some i) ∧
      (s.threads i = .woken k → s.shared.complete k = false)

namespace Groups

variable {g : Groups H} {k : TeamRoot} {teamID : Bytes} {h : H}

theorem count_addinQ_self : (g.addinQ teamID h).count teamID = g.count teamID + 1 := by
  unfold count addinQ
  dsimp only
  rw [Function.update_self, Option.getD_some, List.length_append]
  rfl

theorem groupsReady_addinQ_of_ne {t : Bytes} (hne : t ≠ teamID) : (g.addinQ teamID h).groupsReady t = g.groupsReady t :=
  Function.update_of_ne hne ..

theorem count_addinQ_of_ne {t : Bytes} (hne : t ≠ teamID) : (g.addinQ teamID h).count t = g.count t := by
  unfold count
  rw [groupsReady_addinQ_of_ne hne]

theorem complete_addinQ_of_ne (hne : k.teamID ≠ teamID) : complete k (g.addinQ teamID h) = complete k g := by
  unfold complete
  rw [groupsReady_addinQ_of_ne hne]

theorem count_erase_of_ne {t : Bytes} (hne : t ≠ k.teamID) : (erase k g).count t = g.count t := by
  unfold count erase
  dsimp only
  rw [Function.update_of_ne hne]

theorem complete_erase_of_ne {k' : TeamRoot} (hne : k'.teamID ≠ k.teamID) :
    complete k' (erase k g) = complete k' g := by
  unfold complete erase
  dsimp only
  rw [Function.update_of_ne hne]

/-- The predicate is true when there is a group, and its size, as an `int`, is that of the other members. -/
theorem complete_iff : complete k g = true ↔ g.groupsReady k.teamID ≠ none ∧
    g.count k.teamID % 2 ^ 32 = k.size - 1 := by
  have hpos := k.pos
  unfold complete count
  cases hg : g.groupsReady k.teamID with
  | none => simp
  | some handles =>
    unfold update
    simp only [beq_iff_eq, ne_eq, reduceCtorEq, not_false_eq_true, true_and, Option.getD_some]
    omega

/-- A group that is complete is so no more when another connection comes. -/
theorem complete_addinQ_of_complete (hc : complete k g = true) : complete k (g.addinQ k.teamID h) = false := by
  have hfits := k.fits
  rw [complete_iff] at hc
  rw [Bool.eq_false_iff, Ne, complete_iff, count_addinQ_self]
  omega

/-- The registration of the last member completes the group. -/
theorem complete_addinQ_of_count (hc : g.count k.teamID + 1 = k.size - 1) :
    complete k (g.addinQ k.teamID h) = true := by
  have hfits := k.fits
  rw [complete_iff, count_addinQ_self]
  constructor
  · unfold addinQ
    dsimp only
    rw [Function.update_self]
    exact Option.some_ne_none _
  · omega

theorem assembled_of_complete (hc : complete k g = true) : Assembled k g := by
  obtain ⟨-, hcount⟩ := complete_iff.1 hc
  unfold Assembled
  rw [← hcount]
  exact Nat.mod_le ..

end Groups

theorem groupMonitor_lawful (H : Type) :
    (groupMonitor H).Lawful (fun k g => k.teamID ∈ g.createdTeams)
    (fun k k' => k.teamID ≠ k'.teamID) Groups.Assembled where
  apart := by
    intro k k' g ha he
    have hne : k.teamID ≠ k'.teamID := fun h => ha (h ▸ he)
    exact ⟨hne, hne.symm⟩
  entered_self := Finset.mem_insert_self ..
  entered_enter he := Finset.mem_insert_of_mem he
  entered_take he := he
  entered_change he := he
  due_enter := Iff.rfl
  ready_enter := rfl
  due_take := by
    intro k k' g hne
    show k'.size - 1 ≤ (Groups.erase k g).count k'.teamID ↔ _
    rw [Groups.count_erase_of_ne hne.symm]
    rfl
  ready_take hne := Groups.complete_erase_of_ne hne.symm

section

variable [DecidableEq ι] {s s' : State (Groups H) TeamRoot ι} {m : Move TeamRoot (Bytes × H) ι}

omit [DecidableEq ι] in
/-- While the roots are timely, a step is heard just when it is in time. -/
private theorem inTime_iff (ht : Timely (groupMonitor H) Groups.Assembled s) :
    InTime m s ↔ Heard (groupMonitor H) Groups.Assembled m s := by
  cases m with
  | look i => exact Iff.rfl
  | enter i k =>
    show _ ∨ _ ↔ (k.size - 1 ≤ s.shared.count k.teamID → s.shared.complete k = true)
    rw [← Nat.not_lt, ← or_iff_not_imp_left, or_comm]
  | change o w =>
    obtain ⟨teamID, h⟩ := o
    constructor
    · intro hm i k hdue
      change k.size - 1 ≤ (s.shared.addinQ teamID h).count k.teamID at hdue
      show (_ → _ ∧ Groups.complete k (s.shared.addinQ teamID h) = true) ∧
        (_ → Groups.complete k (s.shared.addinQ teamID h) = true)
      obtain ⟨hblocked, hwoken⟩ := ht i k
      by_cases hk : k.teamID = teamID
      · subst hk
        obtain ⟨hwakes, hnone⟩ := hm i k rfl
        rw [Groups.count_addinQ_self] at hdue
        constructor
        · intro hb
          have hmissing : ¬ k.size - 1 ≤ s.shared.count k.teamID := hblocked hb
          have hlast : s.shared.count k.teamID + 1 = k.size - 1 := by omega
          exact ⟨hwakes hb hlast, Groups.complete_addinQ_of_count hlast⟩
        · intro hw
          have hmissing : ¬ k.size - 1 ≤ s.shared.count k.teamID := by
            intro hall
            have hc : s.shared.complete k = true := hwoken hw hall
            rw [hnone hw] at hc
            cases hc
          exact Groups.complete_addinQ_of_count (by omega)
      · rw [Groups.count_addinQ_of_ne hk] at hdue
        rw [Groups.complete_addinQ_of_ne hk]
        exact ⟨fun hb => absurd hdue (hblocked hb), fun hw => hwoken hw hdue⟩
    · intro hm i k hk
      subst hk
      have hi : k.size - 1 ≤ s.shared.count k.teamID + 1 → (s.threads i = .blocked k → w = some i ∧
            Groups.complete k (s.shared.addinQ k.teamID h) = true) ∧
          (s.threads i = .woken k → Groups.complete k (s.shared.addinQ k.teamID h) = true) := by
        intro hle
        refine hm i k ?_
        show k.size - 1 ≤ (s.shared.addinQ k.teamID h).count k.teamID
        rw [Groups.count_addinQ_self]
        exact hle
      constructor
      · intro hb hlast
        exact ((hi (by omega)).1 hb).1
      · intro hw
        rw [Bool.eq_false_iff]
        intro hc
        have hall : k.size - 1 ≤ s.shared.count k.teamID := Groups.assembled_of_complete hc
        have hc' := (hi (by omega)).2 hw
        rw [Groups.complete_addinQ_of_complete hc] at hc'
        cases hc'

private theorem heard_of_inTime (h : Reach NoRoots (fun m s s' => InTime m s ∧ (groupMonitor H).Step m s s') s) :
    Reach NoRoots (fun m s s' => Heard (groupMonitor H) Groups.Assembled m s ∧ (groupMonitor H).Step m s s') s := by
  induction h with
  | start h => exact .start h
  | @next s s' m _ hs ih =>
    have ht : Timely (groupMonitor H) Groups.Assembled s :=
      (not_stuck_of_heard (groupMonitor_lawful H) (fun _ h0 => h0.2) ih).1
    exact .next m ih ⟨(inTime_iff ht).1 hs.1, hs.2⟩

variable [Fintype ι]

/-- Any number of roots, any connections: as long as every step is in time, there is no state in which all the
roots are blocked, nobody has been woken, and a root is waited for by a group with all the other members.
Behind the first step that is not in time, the roots that have been woken need only look again to come to such a
state. -/
theorem assembly_unstuck (h : Reach NoRoots (fun m s s' => InTime m s ∧ (groupMonitor H).Step m s s') s) :
    ¬ Stuck Groups.Assembled s ∧
      ∀ m s', (groupMonitor H).Step m s s' → ¬ InTime m s →
        ∃ s'', Reach (· = s') (groupMonitor H).Looks s'' ∧ Stuck Groups.Assembled s'' := by
  have hheard := heard_of_inTime h
  obtain ⟨ht, hnot⟩ := not_stuck_of_heard (groupMonitor_lawful H) (fun _ h0 => h0.2) hheard
  refine ⟨hnot, fun m s' hs hm => ?_⟩
  exact stuck_of_not_heard (groupMonitor_lawful H) (fun _ h0 => h0.2) hheard hs fun hh => hm ((inTime_iff ht).2 hh)

end

private theorem two_fits : 2 < 2 ^ 31 := by decide

/-- The broadcast of `A` and `B` with the root `A`, and the fan-in. -/
private def broadcastAB : TeamRoot := ⟨literal ['A', ':', 'B', 'A', '-', '0'], 2, Nat.two_pos, two_fits⟩

private def fanInAB : TeamRoot := ⟨literal ['A', ':', 'B', 'A', '-', '1'], 2, Nat.two_pos, two_fits⟩

/-- A root enters, its member connects and wakes it, and it takes its group.  In the state before, where it has
been woken, a second connection for the group is not in time. -/
theorem assembly_unstuck_run :
    ∃ s t : State (Groups Nat) TeamRoot Unit, s.threads () = .woken broadcastAB ∧ t.threads () = .away ∧
      ¬ Stuck Groups.Assembled t ∧ ∃ s'', Reach (· = { s with shared := s.shared.addinQ broadcastAB.teamID 8 })
        (groupMonitor Nat).Looks s'' ∧ Stuck Groups.Assembled s'' := by
  let P := groupMonitor Nat
  let s0 : State (Groups Nat) TeamRoot Unit := ⟨⟨fun _ => none, ∅⟩, fun _ => .away⟩
  let s1 := P.look () broadcastAB { s0 with shared := s0.shared.enter broadcastAB }
  let s2 : State (Groups Nat) TeamRoot Unit :=
    { shared := s1.shared.addinQ broadcastAB.teamID 7, threads := Function.update s1.threads () (.woken broadcastAB) }
  have hin1 : InTime (.enter () broadcastAB) s0 := Or.inr (by decide)
  have hin2 : InTime (.change (broadcastAB.teamID, 7) (some ())) s1 :=
    fun i k _ => ⟨fun _ _ => rfl, fun hw => by cases hw⟩
  have h0 : Reach NoRoots (fun m s s' => InTime m s ∧ P.Step m s s') s0 := .start ⟨rfl, fun _ => rfl⟩
  have h1 : Reach NoRoots (fun m s s' => InTime m s ∧ P.Step m s s') s1 :=
    .next (.enter () broadcastAB) h0 ⟨hin1, .enter rfl (Finset.notMem_empty _)⟩
  have h2 : Reach NoRoots (fun m s s' => InTime m s ∧ P.Step m s s') s2 :=
    .next (.change (broadcastAB.teamID, 7) (some ())) h1 ⟨hin2, .wake rfl⟩
  have h3 : Reach NoRoots (fun m s s' => InTime m s ∧ P.Step m s s') (P.look () broadcastAB s2) :=
    .next (.look ()) h2 ⟨trivial, .look rfl⟩
  refine ⟨s2, _, rfl, rfl, (assembly_unstuck h3).1, ?_⟩
  refine (assembly_unstuck h2).2 (.change (broadcastAB.teamID, 8) none) _
    (.unheard fun j k hb => by cases hb) fun hm => ?_
  have hc := (hm () broadcastAB rfl).2 rfl
  cases hc

/-- Two roots wait for a member each; the member of the one connects, and the other root is woken.  A root waits
for one member, of which two connections come before the root has looked. -/
theorem assembly_stuck :
    (∃ s : State (Groups Nat) TeamRoot Bool, Reach NoRoots (groupMonitor Nat).Step s ∧
      s.threads false = .blocked broadcastAB ∧ s.threads true = .blocked fanInAB ∧
      s.shared.count broadcastAB.teamID = 1 ∧ Stuck Groups.Assembled s) ∧
    ∃ s : State (Groups Nat) TeamRoot Unit, Reach NoRoots (groupMonitor Nat).Step s ∧
      s.threads () = .blocked broadcastAB ∧ s.shared.count broadcastAB.teamID = 2 ∧ Stuck Groups.Assembled s := by
  constructor
  · let s0 : State (Groups Nat) TeamRoot Bool := ⟨⟨fun _ => none, ∅⟩, fun _ => .away⟩
    have h0 : Reach NoRoots (groupMonitor Nat).Step s0 := .start ⟨rfl, fun _ => rfl⟩
    have h1 := Reach.next (.enter false broadcastAB) h0 (.enter rfl (Finset.notMem_empty _))
    have hother : fanInAB.teamID ∉ (insert broadcastAB.teamID ∅ : Finset Bytes) := by decide
    have h2 := Reach.next (.enter true fanInAB) h1 (.enter rfl hother)
    have h3 := Reach.next (.change (broadcastAB.teamID, 7) (some true)) h2 (.wake rfl)
    have h4 := Reach.next (.look true) h3 (.look rfl)
    refine ⟨_, h4, rfl, rfl, rfl, fun i k hw => ?_, false, broadcastAB, rfl, Nat.le_refl 1⟩
    cases i <;> cases hw
  · let s0 : State (Groups Nat) TeamRoot Unit := ⟨⟨fun _ => none, ∅⟩, fun _ => .away⟩
    have h0 : Reach NoRoots (groupMonitor Nat).Step s0 := .start ⟨rfl, fun _ => rfl⟩
    have h1 := Reach.next (.enter () broadcastAB) h0 (.enter rfl (Finset.notMem_empty _))
    have h2 := Reach.next (.change (broadcastAB.teamID, 7) (some ())) h1 (.wake rfl)
    have h3 := Reach.next (.change (broadcastAB.teamID, 8) none) h2 (.unheard fun j k hb => by cases hb)
    have h4 := Reach.next (.look ()) h3 (.look rfl)
    refine ⟨_, h4, rfl, rfl, fun i k hw => ?_, (), broadcastAB, rfl, Nat.le_succ 1⟩
    cases hw

end Mtcl
