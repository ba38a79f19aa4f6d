import Mathlib.Data.List.Nodup
import Mathlib.Data.List.Perm.Subperm
import Mtcl.Config

/-!
# Teams

`Manager::createTeam` goes through the string of the participants, in which it finds the size of the team and
the rank of the calling application, and chooses the implementation by the protocols that all of them have.

`planTeam_rank` says that the rank of a member is its place in the string, whatever implementation is chosen, and
`ranks_bijective_iff` for which processes the ranks are the numbers below the size.
-/

namespace Mtcl

inductive ImplementationType
  | GENERIC | MPI | UCC
  deriving DecidableEq, Repr

/-- The variables of the loop of `createTeam` over the participants. -/
structure TeamScan where
  size : Nat := 0
  rank : Nat := 0
  mpiImpl : Bool := true
  uccImpl : Bool := true
  rootOk : Bool := false
  deriving DecidableEq, Repr

/-- The implementation for the protocols that all participants have, if it is enabled. -/
def TeamScan.implementation (mpiEnabled uccEnabled : Bool) (st : TeamScan) : Option ImplementationType :=
  if st.mpiImpl then if mpiEnabled then some .MPI else none
  else if st.uccImpl then if uccEnabled then some .UCC else none
  else some .GENERIC

section

variable (components : Components) (appName root : Bytes)

/-- The loop of `createTeam` over the participants; `none` where one is missing in the configuration file. -/
def scanTeam : List Bytes → TeamScan → Option TeamScan
  | [], st => some st
  | line :: lines, st => do
    let c ← components line
    scanTeam lines
      { size := st.size + 1
        rank := if appName = line then st.size else st.rank
        mpiImpl := st.mpiImpl && c.protocols.contains (literal ['M', 'P', 'I'])
        uccImpl := st.uccImpl && c.protocols.contains (literal ['U', 'C', 'X'])
        rootOk := st.rootOk || root = line }

/-- The checks of `createTeam` behind the loop: the implementation, or `none` where it returns an invalid
object.  `MPI_ENABLED` and `UCC_ENABLED` are as the library has been compiled. -/
def TeamScan.check (mpiEnabled uccEnabled : Bool) (st : TeamScan) : Option ImplementationType :=
  -- `components[root]` makes an empty entry where there is none
  if ((components root).elim [] Component.listenStrs).length = 0 then none
  else if !st.rootOk then none
  else st.implementation mpiEnabled uccEnabled

/-- What `createTeam` finds out before it makes the context: the size, the rank and the implementation. -/
def planTeam (mpiEnabled uccEnabled : Bool) (participants : Bytes) : Option (TeamScan × ImplementationType) := do
  let st ← scanTeam components appName root (getlines 58 participants []) {}
  let impl ← st.check components root mpiEnabled uccEnabled
  return (st, impl)

/-- `CollectiveContext::update` of the root, with the number of the connections that have been received. -/
def update (size count : Nat) : Bool := (count : Int) == (size : Int) - 1

end

variable {components : Components} {appName root : Bytes}

private theorem scanTeam_spec {lines : List Bytes} {st st' : TeamScan}
    (h : scanTeam components appName root lines st = some st') :
    st'.size = st.size + lines.length ∧ (appName ∉ lines → st'.rank = st.rank) ∧
      (lines.Nodup → appName ∈ lines → st'.rank = st.size + lines.idxOf appName) := by
  induction lines generalizing st with
  | nil =>
    cases h
    exact ⟨rfl, fun _ => rfl, fun _ hm => absurd hm List.not_mem_nil⟩
  | cons line lines ih =>
    obtain ⟨c, -, h⟩ := Option.bind_eq_some_iff.1 h
    obtain ⟨h1, h2, h3⟩ := ih h
    dsimp only at h1 h2 h3
    refine ⟨?_, fun hm => ?_, fun hn hm => ?_⟩
    · rw [h1, List.length_cons]
      omega
    · obtain ⟨hne, hm⟩ := not_or.1 (List.mem_cons.not.1 hm)
      rw [h2 hm, if_neg hne]
    · obtain ⟨hline, hn⟩ := List.nodup_cons.1 hn
      by_cases he : appName = line
      · subst he
        rw [h2 hline, List.idxOf_cons_self, if_pos rfl]
        rfl
      · have hm := (List.mem_cons.1 hm).resolve_left he
        rw [h3 hn hm, List.idxOf_cons_ne _ (Ne.symm he)]
        omega

private theorem scanTeam_accepts {lines : List Bytes} {st st' : TeamScan}
    (h : scanTeam components appName root lines st = some st') (hroot : st'.rootOk = true) :
    (∀ line ∈ lines, (components line).isSome) ∧ (st.rootOk = true ∨ root ∈ lines) := by
  induction lines generalizing st with
  | nil =>
    cases h
    exact ⟨fun _ hm => absurd hm List.not_mem_nil, Or.inl hroot⟩
  | cons line lines ih =>
    obtain ⟨c, hc, h⟩ := Option.bind_eq_some_iff.1 h
    obtain ⟨hlines, hok⟩ := ih h
    constructor
    · intro l hl
      rcases List.mem_cons.1 hl with rfl | hl
      · rw [hc]
        rfl
      · exact hlines l hl
    · rcases hok with hok | hm
      · dsimp only at hok
        rw [Bool.or_eq_true] at hok
        rcases hok with hok | he
        · exact Or.inl hok
        · exact Or.inr (List.mem_cons.2 (Or.inl (of_decide_eq_true he)))
      · exact Or.inr (List.mem_cons_of_mem _ hm)

theorem TeamScan.check_eq_some {mpiEnabled uccEnabled : Bool} {st : TeamScan} {impl : ImplementationType} :
    st.check components root mpiEnabled uccEnabled = some impl ↔ (components root).elim [] Component.listenStrs ≠ [] ∧
      st.rootOk = true ∧ st.implementation mpiEnabled uccEnabled = some impl := by
  unfold check
  by_cases hlisten : (components root).elim [] Component.listenStrs = []
  · rw [if_pos (List.length_eq_zero_iff.2 hlisten)]
    exact iff_of_false nofun fun h => h.1 hlisten
  · rw [if_neg (mt List.length_eq_zero_iff.1 hlisten), and_iff_right hlisten]
    cases st.rootOk with
    | false => exact iff_of_false nofun fun h => absurd h.1 Bool.false_ne_true
    | true => exact (and_iff_right rfl).symm

/-- What `createTeam` has found out comes from the loop over the participants, in which the root has been met. -/
private theorem planTeam_scan {mpiEnabled uccEnabled : Bool} {participants : Bytes} {p : TeamScan × ImplementationType}
    (h : planTeam components appName root mpiEnabled uccEnabled participants = some p) :
    scanTeam components appName root (getlines 58 participants []) {} = some p.1 ∧ p.1.rootOk = true := by
  obtain ⟨st, hscan, h⟩ := Option.bind_eq_some_iff.1 h
  obtain ⟨impl, hcheck, h⟩ := Option.bind_eq_some_iff.1 h
  cases h
  exact ⟨hscan, (TeamScan.check_eq_some.1 hcheck).2.1⟩

/-- The rank that `createTeam` gives to a member is its place in the string of the participants. -/
theorem planTeam_rank {mpiEnabled uccEnabled : Bool} {participants : Bytes} {st : TeamScan} {impl : ImplementationType}
    (h : planTeam components appName root mpiEnabled uccEnabled participants = some (st, impl))
    (hn : (getlines 58 participants []).Nodup) (hm : appName ∈ getlines 58 participants []) :
    st.rank = (getlines 58 participants []).idxOf appName ∧ st.size = (getlines 58 participants []).length := by
  obtain ⟨h1, -, h3⟩ := scanTeam_spec (planTeam_scan h).1
  dsimp only at h1 h3
  rw [h1, h3 hn hm]
  exact ⟨Nat.zero_add _, Nat.zero_add _⟩

/-- `createTeam` checks that every participant is in the configuration file, and that the root is one of them. -/
theorem planTeam_accepts {mpiEnabled uccEnabled : Bool} {participants : Bytes} {p : TeamScan × ImplementationType}
    (h : planTeam components appName root mpiEnabled uccEnabled participants = some p) :
    (∀ line ∈ getlines 58 participants [], (components line).isSome) ∧ root ∈ getlines 58 participants [] := by
  obtain ⟨hscan, hroot⟩ := planTeam_scan h
  obtain ⟨hlines, hno | hm⟩ := scanTeam_accepts hscan hroot
  · cases hno
  · exact ⟨hlines, hm⟩

/-- The places of the members of a team are the numbers below its size. -/
theorem map_idxOf_perm {order names : List Bytes} (hn : names.Nodup) (h : order.Perm names) :
    (order.map fun a => names.idxOf a).Perm (List.range names.length) := by
  refine (h.map _).trans (List.Perm.of_eq ?_)
  refine List.ext_getElem (by rw [List.length_map, List.length_range]) fun i h1 h2 => ?_
  rw [List.getElem_map, List.getElem_range]
  exact hn.idxOf_getElem i _

/-! ### The ranks of a team -/

section

variable {participants : Bytes} {plan : Bytes → TeamScan × ImplementationType} {callers : List Bytes}

/-- Every process has computed as the size how many processes there are, and their ranks are the numbers below it. -/
def Ranked (plan : Bytes → TeamScan × ImplementationType) (callers : List Bytes) : Prop :=
  (∀ a ∈ callers, (plan a).1.size = callers.length) ∧
    (callers.map fun a => (plan a).1.rank).Perm (List.range callers.length)

private theorem ranked_of_perm {mpiEnabled uccEnabled : Bytes → Bool}
    (hplan : ∀ a ∈ callers, planTeam components a root (mpiEnabled a) (uccEnabled a) participants = some (plan a))
    (hn : (getlines 58 participants []).Nodup) (hp : callers.Perm (getlines 58 participants [])) :
    Ranked plan callers := by
  have hrank : ∀ a ∈ callers, (plan a).1.rank = (getlines 58 participants []).idxOf a ∧
      (plan a).1.size = (getlines 58 participants []).length :=
    fun a ha => planTeam_rank (hplan a ha) hn (hp.mem_iff.1 ha)
  constructor
  · intro a ha
    rw [(hrank a ha).2, hp.length_eq]
  · rw [List.map_congr_left fun a ha => (hrank a ha).1, hp.length_eq]
    exact map_idxOf_perm hn hp

/-- When `createTeam` returns a valid object in each of some processes, where the root waits until it has as
many connections as the size says and each of the others makes one, the processes are named in the string, once
each, with the numbers below the size as their ranks, exactly when the root is one of them, no name is repeated
in the string, and each of them is named in it. -/
theorem ranks_bijective_iff {mpiEnabled uccEnabled : Bytes → Bool} (hne : callers ≠ []) (hcallers : callers.Nodup)
    (hplan : ∀ a ∈ callers, planTeam components a root (mpiEnabled a) (uccEnabled a) participants = some (plan a))
    (hwait : root ∈ callers → ∃ count < callers.length, update (plan root).1.size count = true) :
    (Ranked plan callers ∧ (getlines 58 participants []).Nodup ∧ ∀ a ∈ callers, a ∈ getlines 58 participants []) ↔
      root ∈ callers ∧ (getlines 58 participants []).Nodup ∧ ∀ a ∈ callers, a ∈ getlines 58 participants [] := by
  have hsize : ∀ a ∈ callers, (plan a).1.size = (getlines 58 participants []).length := by
    intro a ha
    have h := (scanTeam_spec (planTeam_scan (hplan a ha)).1).1
    dsimp only at h
    rw [h, Nat.zero_add]
  -- named processes are all that are named as soon as there are enough of them
  have hperm : (getlines 58 participants []).length ≤ callers.length →
      (∀ a ∈ callers, a ∈ getlines 58 participants []) → callers.Perm (getlines 58 participants []) :=
    fun hle hmem => (List.subperm_of_subset hcallers hmem).perm_of_length_le hle
  constructor
  · rintro ⟨⟨hlen, -⟩, hn, hmem⟩
    obtain ⟨a, ha⟩ := List.exists_mem_of_ne_nil _ hne
    have hp := hperm (by rw [← hsize a ha, hlen a ha]) hmem
    exact ⟨hp.mem_iff.2 (planTeam_accepts (hplan a ha)).2, hn, hmem⟩
  · rintro ⟨hroot, hn, hmem⟩
    obtain ⟨count, hcount, hupdate⟩ := hwait hroot
    have hcomplete : (count : Int) = ((plan root).1.size : Int) - 1 := by
      unfold update at hupdate
      simpa using hupdate
    have hle : (getlines 58 participants []).length ≤ callers.length := by
      rw [← hsize root hroot]
      omega
    exact ⟨ranked_of_perm hplan hn (hperm hle hmem), hn, hmem⟩

end

/-- Three components that listen. -/
private def threeComponents : Components := fun name =>
  if name = literal ['a'] ∨ name = literal ['b'] ∨ name = literal ['c'] then
    some ⟨literal ['h'], [literal ['T', 'C', 'P']], [literal ['T', 'C', 'P', ':', 'h', ':', '9']]⟩
  else none

/-- What `createTeam("a:b", "a", type)` finds out in a process. -/
private def planOfTwo (a : Bytes) : TeamScan × ImplementationType :=
  (planTeam threeComponents a (literal ['a']) false false (literal ['a', ':', 'b'])).getD ({}, .GENERIC)

theorem ranks_bijective_run : Ranked planOfTwo [literal ['a'], literal ['b']] :=
  ((@ranks_bijective_iff threeComponents (literal ['a']) (literal ['a', ':', 'b']) planOfTwo
    [literal ['a'], literal ['b']] (fun _ => false) (fun _ => false) (by decide) (by decide) (by decide)
    (fun _ => ⟨1, by decide, by decide⟩)).2 (by decide)).1

/-- The process `c` becomes a member of the team `a:b`, and has the rank of the root. -/
theorem ranks_collide :
    ¬ ∀ {components : Components} {root participants : Bytes} {plan : Bytes → TeamScan × ImplementationType}
      {callers : List Bytes} {mpiEnabled uccEnabled : Bytes → Bool}, callers.Nodup →
      (∀ a ∈ callers, (components a).isSome) →
      (∀ a ∈ callers, planTeam components a root (mpiEnabled a) (uccEnabled a) participants = some (plan a)) →
      (root ∈ callers ∧ ∃ count < callers.length, update (plan root).1.size count = true) →
      Ranked plan callers ∧ (getlines 58 participants []).Nodup ∧ ∀ a ∈ callers, a ∈ getlines 58 participants [] := by
  intro h
  obtain ⟨⟨-, hranks⟩, -, -⟩ := @h threeComponents (literal ['a']) (literal ['a', ':', 'b']) planOfTwo
    [literal ['a'], literal ['c']] (fun _ => false) (fun _ => false) (by decide) (by decide) (by decide)
    ⟨by decide, 1, by decide, by decide⟩
  have hone : 1 ∈ [literal ['a'], literal ['c']].map fun a => (planOfTwo a).1.rank :=
    hranks.mem_iff.2 (by decide)
  exact absurd hone (by decide)

end Mtcl
