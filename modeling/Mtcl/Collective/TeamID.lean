import Mtcl.Collective.Context
import Mtcl.Collective.Team
import Mtcl.Connect

/-!
# The identifiers of teams

A team is known by the string of its participants, its root and the number of its type, one behind the other:
`createTeam` looks it up in `createdTeams`, and the root finds the connections of its members under it in
`groupsReady`.  There is nothing between the participants and the root, so the end of the last participant can
also be read as the beginning of the root (`Team.Overlaps`).

`teamID_distinct_iff` says that teams get different identifiers exactly when no two of them overlap so.
-/

namespace Mtcl

/-- The number of a type in the enumeration. -/
def HandleType.toInt : HandleType → Nat
  | .BROADCAST => 0
  | .FANIN => 1
  | .FANOUT => 2
  | .GATHER => 3
  | .P2P => 4
  | .INVALID_TYPE => 5

/-- The arguments of `createTeam`. -/
structure Team where
  participants : Bytes
  root : Bytes
  type : HandleType
  deriving DecidableEq, Repr

namespace Team

/-- The identifier of a team. -/
def teamID (t : Team) : Bytes :=
  t.participants ++ t.root ++ literal ['-'] ++ literal (Nat.toDigits 10 t.type.toInt)

/-- The checks of `createTeam` let the team pass, in some process. -/
def Accepted (components : Components) (t : Team) : Prop :=
  ∃ appName mpiEnabled uccEnabled, (planTeam components appName t.root mpiEnabled uccEnabled t.participants).isSome

/-- The participants of the first team are those of the second one with `x` behind the last name, and the root
of the second one is that of the first with `x` before it. -/
def Overlaps (a b : Team) : Prop :=
  a.type = b.type ∧ ∃ x, x ≠ [] ∧ colon ∉ x ∧ a.participants = b.participants ++ x ∧ b.root = x ++ a.root

end Team

/-- The beginning of `createTeam`, with `createdTeams`; `none` where the team is rejected. -/
def enterTeam (createdTeams : List Bytes) (t : Team) : Option (List Bytes) :=
  if createdTeams.count t.teamID ≠ 0 then none else some (t.teamID :: createdTeams)

/-- `groupsReady.at(teamID)`. -/
def groupOf (groupsReady : List (Bytes × Nat)) (teamID : Bytes) : List Nat :=
  (groupsReady.filter fun g => g.1 = teamID).map Prod.snd

/-- No line contains the delimiter. -/
private theorem notMem_getlines {delim : UInt8} {cs line l : Bytes} (hline : delim ∉ line)
    (h : l ∈ getlines delim cs line) : delim ∉ l := by
  induction cs generalizing line with
  | nil =>
    unfold getlines at h
    split at h
    · exact absurd h List.not_mem_nil
    · rw [List.mem_singleton.1 h]
      exact hline
  | cons c cs ih =>
    unfold getlines at h
    split at h
    · rcases List.mem_cons.1 h with rfl | h
      · exact hline
      · exact ih List.not_mem_nil h
    · rename_i hne
      refine ih ?_ h
      rw [List.mem_append, List.mem_singleton, not_or]
      exact ⟨hline, Ne.symm hne⟩

private theorem toDigits_toInt (type : HandleType) :
    (literal (Nat.toDigits 10 type.toInt)).length = 1 ∧
      ∀ type' : HandleType, literal (Nat.toDigits 10 type.toInt) = literal (Nat.toDigits 10 type'.toInt) →
        type = type' := by
  refine ⟨by cases type <;> rfl, fun type' => ?_⟩
  cases type <;> cases type' <;> decide

namespace Team

variable {components : Components} {a b : Team}

private theorem teamID_eq_iff_append :
    a.teamID = b.teamID ↔ a.type = b.type ∧ a.participants ++ a.root = b.participants ++ b.root := by
  unfold teamID
  constructor
  · intro h
    obtain ⟨h, hd⟩ := List.append_inj' h (by rw [(toDigits_toInt a.type).1, (toDigits_toInt b.type).1])
    exact ⟨(toDigits_toInt a.type).2 b.type hd, (List.append_inj' h rfl).1⟩
  · rintro ⟨ht, h⟩
    rw [h, ht]

private theorem overlaps_teamID (h : a.Overlaps b) : a.teamID = b.teamID := by
  obtain ⟨ht, x, -, -, hp, hr⟩ := h
  rw [teamID_eq_iff_append, hp, hr, List.append_assoc]
  exact ⟨ht, rfl⟩

private theorem not_overlaps_self : ¬ a.Overlaps a := by
  rintro ⟨-, x, hx, -, hp, -⟩
  exact hx (List.self_eq_append_right.1 hp)

/-- The root of an accepted team has a name without a colon. -/
theorem Accepted.notMem_root (h : a.Accepted components) : colon ∉ a.root := by
  obtain ⟨appName, mpiEnabled, uccEnabled, h⟩ := h
  obtain ⟨p, hp⟩ := Option.isSome_iff_exists.1 h
  exact notMem_getlines List.not_mem_nil (planTeam_accepts hp).2

/-- Two accepted teams have one identifier exactly when they are the same team or one overlaps the other. -/
theorem teamID_eq_iff (ha : a.Accepted components) (hb : b.Accepted components) :
    a.teamID = b.teamID ↔ a = b ∨ a.Overlaps b ∨ b.Overlaps a := by
  constructor
  · intro h
    obtain ⟨ht, h⟩ := teamID_eq_iff_append.1 h
    by_cases hp : a.participants = b.participants
    · rw [hp] at h
      have hr : a.root = b.root := List.append_cancel_left h
      exact Or.inl (by cases a; cases b; simp_all)
    · refine Or.inr ?_
      rcases List.append_eq_append_iff.1 h with ⟨x, hb', ha'⟩ | ⟨x, ha', hb'⟩
      · refine Or.inr ⟨ht.symm, x, ?_, ?_, hb', ha'⟩
        · rintro rfl
          exact hp (by rw [hb', List.append_nil])
        · intro hm
          exact ha.notMem_root (by rw [ha']; exact List.mem_append_left _ hm)
      · refine Or.inl ⟨ht, x, ?_, ?_, ha', hb'⟩
        · rintro rfl
          exact hp (by rw [ha', List.append_nil])
        · intro hm
          exact hb.notMem_root (by rw [hb']; exact List.mem_append_left _ hm)
  · rintro (rfl | h | h)
    · rfl
    · exact overlaps_teamID h
    · exact (overlaps_teamID h).symm

end Team

/-! ### What the identifiers are used for -/

/-- No team overlaps another one. -/
def Apart (ts : List Team) : Prop := ∀ a ∈ ts, ∀ b ∈ ts, ¬ a.Overlaps b

/-- `createTeam` is called for one team after the other, and rejects none. -/
def EnterAll (ts : List Team) : Prop := (ts.foldlM enterTeam []).isSome

/-- In whatever order connections are received for the teams, the root of each finds its own ones. -/
def CollectOwn (ts : List Team) : Prop :=
  ∀ received : List (Team × Nat), (∀ g ∈ received, g.1 ∈ ts) → ∀ t ∈ ts,
    groupOf (received.map fun g => (g.1.teamID, g.2)) t.teamID = (received.filter fun g => g.1 = t).map Prod.snd

variable {components : Components} {ts : List Team}

private theorem enterAll_iff {createdTeams : List Bytes} :
    (ts.foldlM enterTeam createdTeams).isSome ↔
      (ts.map Team.teamID).Nodup ∧ ∀ t ∈ ts, t.teamID ∉ createdTeams := by
  induction ts generalizing createdTeams with
  | nil => simp
  | cons t ts ih =>
    rw [List.foldlM_cons, List.map_cons, List.nodup_cons, List.forall_mem_cons]
    unfold enterTeam
    by_cases hm : t.teamID ∈ createdTeams
    · rw [if_pos (by rw [Ne, List.count_eq_zero]; exact not_not_intro hm)]
      constructor
      · intro h
        cases h
      · intro h
        exact absurd hm h.2.1
    · rw [if_neg (by rw [Ne, List.count_eq_zero]; exact not_not_intro hm)]
      show (ts.foldlM enterTeam (t.teamID :: createdTeams)).isSome ↔ _
      rw [ih]
      constructor
      · rintro ⟨hn, h⟩
        have hboth : ∀ t' ∈ ts, t'.teamID ≠ t.teamID ∧ t'.teamID ∉ createdTeams :=
          fun t' ht' => not_or.1 (List.mem_cons.not.1 (h t' ht'))
        refine ⟨⟨?_, hn⟩, hm, fun t' ht' => (hboth t' ht').2⟩
        intro he
        obtain ⟨t', ht', he⟩ := List.mem_map.1 he
        exact (hboth t' ht').1 he
      · rintro ⟨⟨ht, hn⟩, -, h⟩
        refine ⟨hn, fun t' ht' => List.mem_cons.not.2 (not_or.2 ⟨?_, h t' ht'⟩)⟩
        intro he
        exact ht (List.mem_map.2 ⟨t', ht', he⟩)

private theorem collectOwn_iff : CollectOwn ts ↔ ∀ a ∈ ts, ∀ b ∈ ts, a.teamID = b.teamID → a = b := by
  constructor
  · intro h a ha b hb he
    -- one connection for the first team, as the root of the second one sees it
    have hone := h [(a, 0)] (by simpa using ha) b hb
    by_contra hne
    simp [groupOf, he, hne] at hone
  · intro h received hreceived t ht
    unfold groupOf
    rw [List.filter_map, List.map_map]
    have hsame : received.filter ((fun g : Bytes × Nat => decide (g.1 = t.teamID)) ∘ fun g => (g.1.teamID, g.2)) =
        received.filter fun g => g.1 = t := by
      refine List.filter_congr fun g hg => decide_eq_decide.2 ⟨h g.1 (hreceived g hg) t ht, ?_⟩
      intro he
      exact congrArg Team.teamID he
    rw [hsame]
    rfl

/-- Accepted teams have different identifiers, `createTeam` rejects none of them as already created, and the
roots collect the connections of their own teams, each exactly when no team overlaps another one. -/
theorem teamID_distinct_iff (hts : ts.Nodup) (haccepted : ∀ t ∈ ts, t.Accepted components) :
    ((ts.map Team.teamID).Nodup ↔ Apart ts) ∧ (EnterAll ts ↔ Apart ts) ∧ (CollectOwn ts ↔ Apart ts) := by
  have hinj : (∀ a ∈ ts, ∀ b ∈ ts, a.teamID = b.teamID → a = b) ↔ Apart ts := by
    constructor
    · intro h a ha b hb ho
      have he := h a ha b hb (Team.overlaps_teamID ho)
      rw [he] at ho
      exact Team.not_overlaps_self ho
    · intro h a ha b hb he
      rcases (Team.teamID_eq_iff (haccepted a ha) (haccepted b hb)).1 he with he | ho | ho
      · exact he
      · exact absurd ho (h a ha b hb)
      · exact absurd ho (h b hb a ha)
  have hnodup : (ts.map Team.teamID).Nodup ↔ Apart ts := (List.nodup_map_iff_inj_on hts).trans hinj
  refine ⟨hnodup, ?_, collectOwn_iff.trans hinj⟩
  unfold EnterAll
  rw [enterAll_iff, hnodup]
  exact and_iff_left fun _ _ => List.not_mem_nil

/-- Three components that listen, with the names `b`, `ab` and `aba`. -/
private def nestedNames : Components := fun name =>
  if name = literal ['b'] ∨ name = literal ['a', 'b'] ∨ name = literal ['a', 'b', 'a'] then
    some ⟨literal ['h'], [literal ['T', 'C', 'P']], [literal ['T', 'C', 'P', ':', 'h', ':', '9']]⟩
  else none

/-- The team of `b` and `aba` with the root `b`. -/
private def teamOfB : Team := ⟨literal ['b', ':', 'a', 'b', 'a'], literal ['b'], .FANIN⟩

/-- The team of `b` and `ab` with the root `ab`. -/
private def teamOfAB : Team := ⟨literal ['b', ':', 'a', 'b'], literal ['a', 'b'], .FANIN⟩

/-- The team of `b` and `ab` with the root `b`. -/
private def teamOfBoth : Team := ⟨literal ['b', ':', 'a', 'b'], literal ['b'], .FANIN⟩

private theorem nested_accepted {t : Team} (h : t ∈ [teamOfB, teamOfAB, teamOfBoth]) : t.Accepted nestedNames := by
  refine ⟨[], false, false, ?_⟩
  revert t
  decide

theorem teamID_distinct_run : ([teamOfAB, teamOfBoth].map Team.teamID).Nodup := by
  have hapart : Apart [teamOfAB, teamOfBoth] := by
    intro a ha b hb ho
    have hinj : ∀ a ∈ [teamOfAB, teamOfBoth], ∀ b ∈ [teamOfAB, teamOfBoth], a.teamID = b.teamID → a = b := by decide
    have hsame : a = b := hinj a ha b hb (Team.overlaps_teamID ho)
    rw [hsame] at ho
    exact Team.not_overlaps_self ho
  refine (@teamID_distinct_iff nestedNames [teamOfAB, teamOfBoth] (by decide) ?_).1.2 hapart
  intro t ht
  exact nested_accepted (List.mem_cons_of_mem _ ht)

/-- The identifier of both teams is `b:abab-1`. -/
theorem teamID_collides :
    ¬ ∀ {components : Components} {a b : Team}, a.Accepted components → b.Accepted components →
      a.teamID = b.teamID → a = b := by
  intro h
  have hsame : teamOfB = teamOfAB :=
    h (nested_accepted (by decide)) (nested_accepted (by decide)) (by decide)
  exact absurd hsame (by decide)

end Mtcl
