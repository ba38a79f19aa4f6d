import Mathlib.Data.Finset.Insert
import Mtcl.Collective.TeamID

/-!
# Creating a team

`Manager::createTeam` from its first line to the object it returns, with the two members of `Manager` it changes
on the way:  it enters the identifier into `createdTeams` before it checks anything, and `components[root]`
makes an entry for a root that has none.

`createTeam_traceless_iff` says when a call that returns an invalid object leaves no trace and no null context
is used: when the team was there before, or when the call does not fail.
-/

namespace Mtcl

/-- What `createTeam` uses of `Manager`; `MPI_ENABLED` and `UCC_ENABLED` are as the library has been compiled. -/
structure TeamManager (H W : Type) extends Manager H W where
  appName : Bytes
  mpiEnabled : Bool
  uccEnabled : Bool
  createdTeams : Finset Bytes

/-- The context of a team whose implementation is set. -/
structure NewTeam (H : Type) where
  ctx : CollectiveContext Unit
  impl : ImplementationType
  size : Nat
  rank : Nat
  handles : List H

/-- `components[root]`, which makes an empty entry where there is none. -/
def Components.touch (components : Components) (root : Bytes) : Components :=
  Function.update components root (some ((components root).getD ⟨[], [], []⟩))

/-- `CollectiveContext::setImplementation`: whether there is an implementation for the type. -/
def setImplementation (mpiEnabled uccEnabled : Bool) : HandleType → ImplementationType → Bool
  | .BROADCAST, .GENERIC => true
  | .BROADCAST, .MPI => mpiEnabled
  | .BROADCAST, .UCC => uccEnabled
  | .FANIN, _ => true
  | .FANOUT, _ => true
  | .GATHER, .GENERIC => true
  | .GATHER, .MPI => mpiEnabled
  | .GATHER, .UCC => uccEnabled
  | .P2P, _ => false
  | .INVALID_TYPE, _ => false

namespace TeamManager

variable {H W : Type}

/-- The wait of the root for its group: what is registered under the identifier when it looks for the last time;
it waits on until the number fits. -/
def awaitGroup (size : Nat) (group : List H) : Except Stop (List H) :=
  if group ≠ [] ∧ update size group.length = true then .ok group else .error .blocked

/-- The end of `createTeam`, with the handles of the group. -/
def finishTeam (s : TeamManager H W) (t : Team) (st : TeamScan) (impl : ImplementationType) (handles : List H) (w : W) :
    Except Stop (Option (NewTeam H) × TeamManager H W × W) :=
  match CollectiveContext.createContext t.type (decide (s.appName = t.root)) () with
  | none => .error .nullDereference
  | some ctx =>
    if !setImplementation s.mpiEnabled s.uccEnabled t.type impl then .ok (none, s, w)
    else .ok (some ⟨ctx, impl, st.size, st.rank, handles⟩, s, w)

/-- `Manager::createTeam`; `group` is what the root finds in `groupsReady` when it looks for the last time. -/
def createTeam (s : TeamManager H W) (t : Team) (group : List H) (w : W) :
    Except Stop (Option (NewTeam H) × TeamManager H W × W) :=
  if t.teamID ∈ s.createdTeams then .ok (none, s, w)
  else
    let s := { s with createdTeams := insert t.teamID s.createdTeams }
    match scanTeam s.components s.appName t.root (getlines 58 t.participants []) {} with
    | none => .ok (none, s, w)
    | some st =>
      let s := { s with components := s.components.touch t.root }
      match st.check s.components t.root s.mpiEnabled s.uccEnabled with
      | none => .ok (none, s, w)
      | some impl =>
        if s.appName = t.root then
          if (CollectiveContext.createContext t.type true ()).isNone then .ok (none, s, w)
          else do
            let handles ← awaitGroup st.size group
            s.finishTeam t st impl handles w
        else
          match s.components t.root with
          | none => .ok (none, s, w)
          | some c => do
            let (h, w) ← s.joinTeam c.listenStrs t.teamID w
            match h with
            | none => .ok (none, s, w)
            -- the context is not tested here
            | some h => s.finishTeam t st impl [h] w

/-! ### When a call fails -/

/-- The checks of `createTeam`, on its arguments and the configuration. -/
structure Admits (s : TeamManager H W) (t : Team) : Prop where
  known : ∀ line ∈ getlines 58 t.participants [], (s.components line).isSome
  member : t.root ∈ getlines 58 t.participants []
  listens : ∀ c ∈ s.components t.root, c.listenStrs ≠ []
  mpi : (∀ line ∈ getlines 58 t.participants [], ∀ c ∈ s.components line, literal ['M', 'P', 'I'] ∈ c.protocols) →
    s.mpiEnabled = true
  ucc : (∀ line ∈ getlines 58 t.participants [], ∀ c ∈ s.components line, literal ['U', 'C', 'X'] ∈ c.protocols) →
    (∃ line ∈ getlines 58 t.participants [], ∃ c ∈ s.components line, literal ['M', 'P', 'I'] ∉ c.protocols) →
    s.uccEnabled = true

/-- There is a context for the type. -/
def Supported (type : HandleType) : Prop := type ≠ .P2P ∧ type ≠ .INVALID_TYPE

/-- The call does not fail: the arguments are right, and a member that comes to the end of its attempts at the
root has a handle. -/
structure Proceeds (s : TeamManager H W) (t : Team) (w : W) : Prop where
  admits : s.Admits t
  supported : s.appName = t.root → Supported t.type
  joined : s.appName ≠ t.root → ∀ c ∈ s.components t.root, ∀ h w', s.joinTeam c.listenStrs t.teamID w = .ok (h, w') →
    h ≠ none ∧ Supported t.type

/-- When the call returns an invalid object, the members of `Manager` are as before; and no null pointer is
used, but where the attempts at the root do so. -/
def LeavesNoTrace (s : TeamManager H W) (t : Team) (group : List H) (w : W) : Prop :=
  (∀ s' w', s.createTeam t group w = .ok (none, s', w') →
    s'.createdTeams = s.createdTeams ∧ s'.components = s.components) ∧
  (s.createTeam t group w = .error .nullDereference →
    ∃ c ∈ s.components t.root, s.appName ≠ t.root ∧ s.joinTeam c.listenStrs t.teamID w = .error .nullDereference)

/-! ### The checks -/

section

variable {components : Components} {appName root : Bytes}

private theorem scanTeam_isSome {lines : List Bytes} {st : TeamScan} :
    (scanTeam components appName root lines st).isSome = true ↔ ∀ line ∈ lines, (components line).isSome = true := by
  induction lines generalizing st with
  | nil => exact iff_of_true rfl fun _ h => absurd h List.not_mem_nil
  | cons line lines ih =>
    unfold scanTeam
    rw [List.forall_mem_cons]
    cases hc : components line with
    | none => exact iff_of_false Bool.false_ne_true fun h => absurd h.1 Bool.false_ne_true
    | some c => exact ih.trans (and_iff_right rfl).symm

/-- What the loop over the participants finds out about the protocols and the root. -/
private theorem scanTeam_flags {lines : List Bytes} {st st' : TeamScan}
    (h : scanTeam components appName root lines st = some st') :
    (st'.mpiImpl = true ↔ st.mpiImpl = true ∧ ∀ line ∈ lines, ∀ c ∈ components line,
      literal ['M', 'P', 'I'] ∈ c.protocols) ∧
      (st'.uccImpl = true ↔ st.uccImpl = true ∧ ∀ line ∈ lines, ∀ c ∈ components line,
        literal ['U', 'C', 'X'] ∈ c.protocols) ∧
      (st'.rootOk = true ↔ st.rootOk = true ∨ root ∈ lines) := by
  induction lines generalizing st with
  | nil =>
    cases h
    simp
  | cons line lines ih =>
    obtain ⟨c, hc, h⟩ := Option.bind_eq_some_iff.1 h
    obtain ⟨hmpi, hucc, hroot⟩ := ih h
    have hall : ∀ protocol, (∀ l ∈ line :: lines, ∀ c ∈ components l, protocol ∈ c.protocols) ↔
        protocol ∈ c.protocols ∧ ∀ l ∈ lines, ∀ c ∈ components l, protocol ∈ c.protocols := by
      intro protocol
      rw [List.forall_mem_cons, hc]
      simp
    rw [hmpi, hucc, hroot, hall, hall, List.mem_cons]
    simp only [Bool.and_eq_true, Bool.or_eq_true, List.contains_iff_mem, decide_eq_true_eq, and_assoc,
      or_assoc, true_and]

end

variable {s : TeamManager H W} {t : Team} {group : List H} {w : W}

private theorem touch_of_some {components : Components} {root : Bytes} {c : Component} (h : components root = some c) :
    components.touch root = components := by
  unfold Components.touch
  rw [h]
  exact Function.update_eq_self_iff.2 h.symm

private theorem admits_iff :
    s.Admits t ↔ ∃ st c impl, scanTeam s.components s.appName t.root (getlines 58 t.participants []) {} = some st ∧
      s.components t.root = some c ∧ c.listenStrs ≠ [] ∧ st.rootOk = true ∧
        st.implementation s.mpiEnabled s.uccEnabled = some impl := by
  constructor
  · intro h
    have hscan : (scanTeam s.components s.appName t.root (getlines 58 t.participants []) {}).isSome = true :=
      scanTeam_isSome.2 h.known
    obtain ⟨st, hst⟩ := Option.isSome_iff_exists.1 hscan
    obtain ⟨c, hc⟩ := Option.isSome_iff_exists.1 (h.known t.root h.member)
    obtain ⟨hmpi, hucc, hroot⟩ := scanTeam_flags hst
    have himpl : ∃ impl, st.implementation s.mpiEnabled s.uccEnabled = some impl := by
      unfold TeamScan.implementation
      by_cases hm : st.mpiImpl = true
      · rw [if_pos hm, if_pos (h.mpi (hmpi.1 hm).2)]
        exact ⟨_, rfl⟩
      · rw [if_neg hm]
        by_cases hu : st.uccImpl = true
        · have hsome : ∃ line ∈ getlines 58 t.participants [], ∃ c ∈ s.components line,
              literal ['M', 'P', 'I'] ∉ c.protocols := by
            by_contra hno
            refine hm (hmpi.2 ⟨rfl, fun line hline c hc => ?_⟩)
            by_contra hmem
            exact hno ⟨line, hline, c, hc, hmem⟩
          rw [if_pos hu, if_pos (h.ucc (hucc.1 hu).2 hsome)]
          exact ⟨_, rfl⟩
        · rw [if_neg hu]
          exact ⟨_, rfl⟩
    obtain ⟨impl, himpl⟩ := himpl
    exact ⟨st, c, impl, hst, hc, h.listens c hc, hroot.2 (Or.inr h.member), himpl⟩
  · rintro ⟨st, c, impl, hst, hc, hlisten, hrootOk, himpl⟩
    obtain ⟨hmpi, hucc, hroot⟩ := scanTeam_flags hst
    refine ⟨scanTeam_isSome.1 (by rw [hst]; rfl), (hroot.1 hrootOk).resolve_left Bool.false_ne_true, ?_, ?_, ?_⟩
    · intro c' hc'
      rw [hc] at hc'
      cases hc'
      exact hlisten
    · intro hall
      unfold TeamScan.implementation at himpl
      rw [if_pos (hmpi.2 ⟨rfl, hall⟩)] at himpl
      by_contra hno
      rw [if_neg hno] at himpl
      cases himpl
    · rintro hall ⟨line, hline, c', hc', hmem⟩
      have hm : ¬ st.mpiImpl = true := fun hm => hmem ((hmpi.1 hm).2 line hline c' hc')
      unfold TeamScan.implementation at himpl
      rw [if_neg hm, if_pos (hucc.2 ⟨rfl, hall⟩)] at himpl
      by_contra hno
      rw [if_neg hno] at himpl
      cases himpl

/-- A call with wrong arguments enters the identifier and fails. -/
private theorem createTeam_rejected (hnew : t.teamID ∉ s.createdTeams) (h : ¬ s.Admits t) :
    ∃ s', s.createTeam t group w = .ok (none, s', w) ∧ s'.createdTeams = insert t.teamID s.createdTeams := by
  unfold createTeam
  rw [if_neg hnew]
  dsimp only
  rcases hst : scanTeam s.components s.appName t.root (getlines 58 t.participants []) {} with _ | st
  · exact ⟨_, rfl, rfl⟩
  · dsimp only
    split
    · exact ⟨_, rfl, rfl⟩
    · rename_i impl hcheck
      refine absurd (admits_iff.2 ?_) h
      obtain ⟨hlisten, hrootOk, himpl⟩ := TeamScan.check_eq_some.1 hcheck
      obtain ⟨c, hc⟩ : ∃ c, s.components t.root = some c := by
        refine Option.isSome_iff_exists.1 (scanTeam_isSome.1 (by rw [hst]; rfl) t.root ?_)
        exact ((scanTeam_flags hst).2.2.1 hrootOk).resolve_left Bool.false_ne_true
      rw [touch_of_some hc, hc] at hlisten
      exact ⟨st, c, impl, hst, hc, hlisten, hrootOk, himpl⟩

/-- A call whose arguments are right enters the identifier and goes on as the root or as another member. -/
private theorem createTeam_admitted (hnew : t.teamID ∉ s.createdTeams) {st : TeamScan} {c : Component}
    {impl : ImplementationType} (hst : scanTeam s.components s.appName t.root
      (getlines 58 t.participants []) {} = some st)
    (hc : s.components t.root = some c) (hlisten : c.listenStrs ≠ []) (hroot : st.rootOk = true)
    (himpl : st.implementation s.mpiEnabled s.uccEnabled = some impl) :
    s.createTeam t group w =
      let s' := { s with createdTeams := insert t.teamID s.createdTeams }
      if s.appName = t.root then
        if (CollectiveContext.createContext t.type true ()).isNone then .ok (none, s', w)
        else awaitGroup st.size group >>= fun handles => s'.finishTeam t st impl handles w
      else s.joinTeam c.listenStrs t.teamID w >>= fun r =>
        match r.1 with
        | none => .ok (none, s', r.2)
        | some h => s'.finishTeam t st impl [h] r.2 := by
  unfold createTeam
  rw [if_neg hnew]
  dsimp only
  rw [hst]
  dsimp only
  have hcheck : st.check s.components t.root s.mpiEnabled s.uccEnabled = some impl :=
    TeamScan.check_eq_some.2 ⟨by rw [hc]; exact hlisten, hroot, himpl⟩
  rw [touch_of_some hc, hcheck, hc]

private theorem setImplementation_enabled {st : TeamScan} {impl : ImplementationType}
    (himpl : st.implementation s.mpiEnabled s.uccEnabled = some impl) {type : HandleType} (h : Supported type) :
    setImplementation s.mpiEnabled s.uccEnabled type impl = true := by
  have hmpi : impl = .MPI → s.mpiEnabled = true := by
    rintro rfl
    unfold TeamScan.implementation at himpl
    split at himpl
    · by_contra hno
      rw [if_neg hno] at himpl
      cases himpl
    · split at himpl
      · split at himpl <;> cases himpl
      · cases himpl
  have hucc : impl = .UCC → s.uccEnabled = true := by
    rintro rfl
    unfold TeamScan.implementation at himpl
    split at himpl
    · split at himpl <;> cases himpl
    · split at himpl
      · by_contra hno
        rw [if_neg hno] at himpl
        cases himpl
      · cases himpl
  obtain ⟨hp2p, hinvalid⟩ := h
  cases type with
  | P2P => exact absurd rfl hp2p
  | INVALID_TYPE => exact absurd rfl hinvalid
  | FANIN => rfl
  | FANOUT => rfl
  | BROADCAST =>
    cases impl with
    | GENERIC => rfl
    | MPI => exact hmpi rfl
    | UCC => exact hucc rfl
  | GATHER =>
    cases impl with
    | GENERIC => rfl
    | MPI => exact hmpi rfl
    | UCC => exact hucc rfl

private theorem createContext_some {type : HandleType} (h : Supported type) (root : Bool) :
    ∃ ctx, CollectiveContext.createContext type root () = some ctx := by
  obtain ⟨hp2p, hinvalid⟩ := h
  cases type with
  | P2P => exact absurd rfl hp2p
  | INVALID_TYPE => exact absurd rfl hinvalid
  | BROADCAST => exact ⟨_, rfl⟩
  | FANIN => exact ⟨_, rfl⟩
  | FANOUT => exact ⟨_, rfl⟩
  | GATHER => exact ⟨_, rfl⟩

private theorem createContext_none {type : HandleType} (h : ¬ Supported type) (root : Bool) :
    CollectiveContext.createContext type root () = none := by
  unfold Supported at h
  cases type with
  | P2P => rfl
  | INVALID_TYPE => rfl
  | BROADCAST => exact absurd ⟨nofun, nofun⟩ h
  | FANIN => exact absurd ⟨nofun, nofun⟩ h
  | FANOUT => exact absurd ⟨nofun, nofun⟩ h
  | GATHER => exact absurd ⟨nofun, nofun⟩ h

/-- With a type that is supported the end of `createTeam` makes the team. -/
private theorem finishTeam_supported {st : TeamScan} {impl : ImplementationType}
    (himpl : st.implementation s.mpiEnabled s.uccEnabled = some impl) (h : Supported t.type)
    (handles : List H) (w : W) : ∃ team, s.finishTeam t st impl handles w = .ok (some team, s, w) := by
  have hset := setImplementation_enabled himpl h
  obtain ⟨ctx, hctx⟩ := createContext_some h (decide (s.appName = t.root))
  unfold finishTeam
  rw [hctx]
  dsimp only
  rw [hset]
  exact ⟨_, rfl⟩

private theorem finishTeam_unsupported {st : TeamScan} {impl : ImplementationType} (h : ¬ Supported t.type)
    (handles : List H) (w : W) : s.finishTeam t st impl handles w = .error .nullDereference := by
  unfold finishTeam
  rw [createContext_none h]

/-! ### The result -/

private theorem not_traceless (hnew : t.teamID ∉ s.createdTeams) {s' : TeamManager H W} {w' : W}
    (h : s.createTeam t group w = .ok (none, s', w')) (hs : s'.createdTeams = insert t.teamID s.createdTeams) :
    ¬ s.LeavesNoTrace t group w := by
  rintro ⟨hkeep, -⟩
  obtain ⟨hsame, -⟩ := hkeep s' w' h
  rw [hs] at hsame
  exact hnew (hsame ▸ Finset.mem_insert_self ..)

/-- The root of a team: it fails just when there is no context for the type. -/
private theorem root_traceless (hnew : t.teamID ∉ s.createdTeams) (hadmits : s.Admits t) (hroot : s.appName = t.root) :
    s.LeavesNoTrace t group w ↔ Supported t.type := by
  obtain ⟨st, c, impl, hst, hc, hlisten, hrootOk, himpl⟩ := admits_iff.1 hadmits
  have hcall := @createTeam_admitted _ _ s t group w hnew st c impl hst hc hlisten hrootOk himpl
  dsimp only at hcall
  rw [if_pos hroot] at hcall
  by_cases hsupp : Supported t.type
  · refine iff_of_true ?_ hsupp
    obtain ⟨ctx, hctx⟩ := createContext_some hsupp true
    rw [hctx, if_neg (by simp)] at hcall
    rcases hgroup : awaitGroup st.size group with e | handles
    · -- the root waits on
      rw [hgroup] at hcall
      have hblocked : e = .blocked := by
        unfold awaitGroup at hgroup
        split at hgroup
        · cases hgroup
        · exact (Except.error.inj hgroup).symm
      rw [hblocked] at hcall
      refine ⟨fun s' w' h => ?_, fun h => ?_⟩
      · rw [hcall] at h
        cases h
      · rw [hcall] at h
        cases h
    · obtain ⟨team, hteam⟩ := finishTeam_supported (s := { s with createdTeams := insert t.teamID s.createdTeams })
        himpl hsupp handles w
      rw [hgroup, bind_ok, hteam] at hcall
      refine ⟨fun s' w' h => ?_, fun h => ?_⟩
      · rw [hcall] at h
        cases h
      · rw [hcall] at h
        cases h
  · refine iff_of_false ?_ hsupp
    rw [createContext_none hsupp, if_pos Option.isNone_none] at hcall
    exact not_traceless hnew hcall rfl

/-- Another member: it fails when it does not get to the root, or when there is no context for the type. -/
private theorem member_traceless (hnew : t.teamID ∉ s.createdTeams) (hadmits : s.Admits t)
    (hroot : s.appName ≠ t.root) : s.LeavesNoTrace t group w ↔ ∀ c ∈ s.components t.root, ∀ h w',
      s.joinTeam c.listenStrs t.teamID w = .ok (h, w') → h ≠ none ∧ Supported t.type := by
  obtain ⟨st, c, impl, hst, hc, hlisten, hrootOk, himpl⟩ := admits_iff.1 hadmits
  have hcall := @createTeam_admitted _ _ s t group w hnew st c impl hst hc hlisten hrootOk himpl
  dsimp only at hcall
  rw [if_neg hroot] at hcall
  have hone : ∀ c' ∈ s.components t.root, c' = c := fun c' hc' => Option.some.inj (hc'.symm.trans hc)
  rcases hjoin : s.joinTeam c.listenStrs t.teamID w with e | ⟨_ | h, w1⟩
  · -- the attempts at the root do not come to an end
    rw [hjoin] at hcall
    refine iff_of_true ⟨fun s' w' h => ?_, fun h => ?_⟩ fun c' hc' h w' hj => ?_
    · rw [hcall] at h
      cases h
    · rw [hcall] at h
      have he : (.error e : Except Stop (Option (NewTeam H) × TeamManager H W × W)) = .error .nullDereference := h
      rw [Except.error.inj he] at hjoin
      exact ⟨c, hc, hroot, hjoin⟩
    · rw [hone c' hc', hjoin] at hj
      cases hj
  · rw [hjoin] at hcall
    refine iff_of_false (not_traceless hnew hcall rfl) fun hj => ?_
    exact (hj c hc none w1 hjoin).1 rfl
  · rw [hjoin, bind_ok] at hcall
    dsimp only at hcall
    by_cases hsupp : Supported t.type
    · obtain ⟨team, hteam⟩ := finishTeam_supported (s := { s with createdTeams := insert t.teamID s.createdTeams })
        himpl hsupp [h] w1
      rw [hteam] at hcall
      refine iff_of_true ⟨fun s' w' h => ?_, fun h => ?_⟩ fun c' hc' h' w' hj => ?_
      · rw [hcall] at h
        cases h
      · rw [hcall] at h
        cases h
      · rw [hone c' hc', hjoin] at hj
        cases hj
        exact ⟨Option.some_ne_none h, hsupp⟩
    · rw [finishTeam_unsupported hsupp] at hcall
      refine iff_of_false (fun hkeep => ?_) fun hj => hsupp (hj c hc _ w1 hjoin).2
      obtain ⟨c', hc', -, hj⟩ := hkeep.2 hcall
      rw [hone c' hc', hjoin] at hj
      cases hj

end TeamManager

/-- `createTeam` leaves no trace when it fails, and uses no null context, just when the team had been created
before or the call does not fail: everything behind the test for a team that was created finds the identifier
entered already, and a member that is not the root uses the context of a type that has none. -/
theorem createTeam_traceless_iff {H W : Type} {s : TeamManager H W} {t : Team} {group : List H} {w : W} :
    s.LeavesNoTrace t group w ↔ t.teamID ∈ s.createdTeams ∨ s.Proceeds t w := by
  by_cases hold : t.teamID ∈ s.createdTeams
  · have hcall : s.createTeam t group w = .ok (none, s, w) := if_pos hold
    refine iff_of_true ⟨fun s' w' h => ?_, fun h => ?_⟩ (Or.inl hold)
    · rw [hcall] at h
      cases h
      exact ⟨rfl, rfl⟩
    · rw [hcall] at h
      cases h
  · rw [or_iff_right hold]
    by_cases hadmits : s.Admits t
    · by_cases hroot : s.appName = t.root
      · rw [TeamManager.root_traceless hold hadmits hroot]
        exact ⟨fun h => ⟨hadmits, fun _ => h, fun hne => absurd hroot hne⟩, fun h => h.supported hroot⟩
      · rw [TeamManager.member_traceless hold hadmits hroot]
        exact ⟨fun h => ⟨hadmits, fun he => absurd he hroot, fun _ => h⟩, fun h => h.joined hroot⟩
    · obtain ⟨s', hcall, hs⟩ := TeamManager.createTeam_rejected hold hadmits
      exact iff_of_false (TeamManager.not_traceless hold hcall hs) fun h => hadmits h.admits

/-- The application `A`, whose configuration file knows `A` and, with an endpoint, `B`; every connection succeeds. -/
private def atA : TeamManager Unit Unit where
  poolName := []
  components := fun name =>
    if name = literal ['A'] then some ⟨[], [], []⟩
    else if name = literal ['B'] then some ⟨[], [], [literal ['T', 'C', 'P', ':', 'b']]⟩
    else none
  pools := fun _ => []
  registered := fun _ => true
  connectTo := fun _ _ w => .ok (some (), w)
  vt := fun _ =>
    { base := fun _ => .ok {}
      setProbed := fun _ w => w
      probe := fun size _ w => .ok (.ok 0, size, w)
      receive := fun _ w => .ok (.ok 0, [], w)
      send := fun bs w => .ok (.ok bs.length, w)
      close := fun _ _ w => .ok w
      yield := fun w => .ok w
      incrementReferenceCounter := fun w => .ok w
      decrementReferenceCounter := fun w => .ok w }
  appName := literal ['A']
  mpiEnabled := false
  uccEnabled := false
  createdTeams := ∅

/-- A participant that the configuration file does not know: the team counts as created.  A root that it does
not know: there is an entry for it afterwards.  A type without a context: the member that is not the root uses
it. -/
theorem createTeam_traces :
    (∃ s', atA.createTeam ⟨literal ['B', ':', 'C'], literal ['B'], .BROADCAST⟩ [] () = .ok (none, s', ()) ∧
      s'.createdTeams = {literal ['B', ':', 'C', 'B', '-', '0']} ∧ atA.createdTeams = ∅) ∧
    (∃ s', atA.createTeam ⟨literal ['A', ':', 'B'], literal ['C'], .BROADCAST⟩ [] () = .ok (none, s', ()) ∧
      s'.components (literal ['C']) = some ⟨[], [], []⟩ ∧ atA.components (literal ['C']) = none) ∧
    atA.createTeam ⟨literal ['A', ':', 'B'], literal ['B'], .P2P⟩ [] () = .error .nullDereference := by
  refine ⟨⟨_, rfl, by decide, rfl⟩, ⟨_, rfl, by decide, by decide⟩, rfl⟩

end Mtcl
