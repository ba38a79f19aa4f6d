import Mtcl.Base.Safe
import Mtcl.Collective.Broadcast
import Mtcl.Collective.FanIn
import Mtcl.Collective.FanOut
import Mtcl.Collective.Gather
import Mtcl.Ownership

/-!
# The lifetime of the participants

The collectives keep plain pointers to the handles of the participants, whose reference counters are zero: a
participant is deleted as soon as both its sides have been closed.  `watched tr` is the table of the virtual
functions of the handles over an arbitrary transport with the misuses made visible: a call or a read of a
deleted handle stops with `useAfterFree`, and writes to deleted handles and the deletions themselves are written
down (`Lifetimes`).

`lifetimes_sound` says which operations on the contexts keep off the deleted handles: all those of a fan-in, of
the roots of a broadcast and of a fan-out and of the members of a gather; the others as long as a condition on
the state before the call and on the header that is read is met.
-/

namespace Mtcl

open Safety

variable {T C ι : Type}

/-- What happens to handles that are or get deleted: the writes to them, and each `delete this`. -/
structure Lifetimes where
  written : List Nat := []
  deletions : List Nat := []
  deriving DecidableEq, Repr

/-- The virtual functions of the handle `id` with the misuses made visible. -/
def watched (tr : Transport T) (id : Nat) : CommunicationHandle (Objects T × Lifetimes) where
  base s := (handle tr id).base s.1
  setProbed pr s :=
    ((handle tr id).setProbed pr s.1,
      if s.1.allocated ≤ id ∨ s.1.deleted id = true then { s.2 with written := s.2.written ++ [id] } else s.2)
  probe size blocking s := do
    let (r, size, o) ← (handle tr id).probe size blocking s.1
    return (r, size, (o, s.2))
  receive n s := do
    let (r, bs, o) ← (handle tr id).receive n s.1
    return (r, bs, (o, s.2))
  send bs s := do
    let (r, o) ← (handle tr id).send bs s.1
    return (r, (o, s.2))
  close wr rd s := do
    let o ← (handle tr id).close wr rd s.1
    return (o, if o.deleted id then { s.2 with deletions := s.2.deletions ++ [id] } else s.2)
  yield s := do
    let o ← (handle tr id).yield s.1
    return (o, s.2)
  incrementReferenceCounter s := do
    let o ← (handle tr id).incrementReferenceCounter s.1
    return (o, s.2)
  decrementReferenceCounter s := do
    let o ← (handle tr id).decrementReferenceCounter s.1
    return (o, if o.deleted id then { s.2 with deletions := s.2.deletions ++ [id] } else s.2)

/-- The functions of the transport do not use deleted handles themselves. -/
structure Transport.Sound (tr : Transport T) : Prop where
  probe : ∀ id size blocking t, tr.probe id size blocking t ≠ .error .useAfterFree
  receive : ∀ id n t, tr.receive id n t ≠ .error .useAfterFree
  send : ∀ id bs t, tr.send id bs t ≠ .error .useAfterFree
  sendEOS : ∀ id t, tr.sendEOS id t ≠ .error .useAfterFree
  notifyClose : ∀ id wr rd t, tr.notifyClose id wr rd t ≠ .error .useAfterFree

/-! ### The handles -/

/-- The handle exists. -/
def Alive (id : Nat) (s : Objects T × Lifetimes) : Prop := id < s.1.allocated ∧ s.1.deleted id = false

/-- The handle exists, and its read side has not been closed. -/
def Open (id : Nat) (s : Objects T × Lifetimes) : Prop := Alive id s ∧ (s.1.base id).closedRd = false

/-- So far no deleted handle has been written, and none has been deleted twice. -/
structure Clean (s : Objects T × Lifetimes) : Prop where
  written : s.2.written = []
  deletions : s.2.deletions.Nodup
  deleted : ∀ id ∈ s.2.deletions, s.1.deleted id = true

/-- Nothing has been deleted, and no side closed. -/
structure Unchanged (s s' : Objects T × Lifetimes) : Prop where
  clean : Clean s → Clean s'
  alive : ∀ j, Alive j s → Alive j s'
  closedRd : ∀ j, (s'.1.base j).closedRd = (s.1.base j).closedRd
  closedWr : ∀ j, (s'.1.base j).closedWr = (s.1.base j).closedWr

theorem Unchanged.refl (s : Objects T × Lifetimes) : Unchanged s s :=
  ⟨fun h => h, fun _ h => h, fun _ => rfl, fun _ => rfl⟩

theorem Unchanged.trans {s s' s'' : Objects T × Lifetimes} (h : Unchanged s s') (h' : Unchanged s' s'') :
    Unchanged s s'' where
  clean hs := h'.clean (h.clean hs)
  alive j hj := h'.alive j (h.alive j hj)
  closedRd j := (h'.closedRd j).trans (h.closedRd j)
  closedWr j := (h'.closedWr j).trans (h.closedWr j)

theorem Unchanged.open {s s' : Objects T × Lifetimes} (h : Unchanged s s') {j : Nat} (hj : Open j s) : Open j s' :=
  ⟨h.alive j hj.1, (h.closedRd j).trans hj.2⟩

section

variable {tr : Transport T} {id : Nat} {s : Objects T × Lifetimes}

theorem Alive.deref (h : Alive id s) : s.1.deref id = .ok (s.1.base id) :=
  Objects.deref_eq_ok.2 ⟨h.1, h.2, rfl⟩

theorem Alive.base (h : Alive id s) : (watched tr id).base s = .ok (s.1.base id) := h.deref

private theorem unchanged_transport (s : Objects T × Lifetimes) (t : T) :
    Unchanged s ({ s.1 with transport := t }, s.2) :=
  ⟨fun h => ⟨h.written, h.deletions, h.deleted⟩, fun _ h => h, fun _ => rfl, fun _ => rfl⟩

variable (tr) in
/-- Writing the cache of a handle that exists. -/
theorem Alive.setProbed (h : Alive id s) (pr : Bool × Nat) : Unchanged s ((watched tr id).setProbed pr s) := by
  have hif : ¬ (s.1.allocated ≤ id ∨ s.1.deleted id = true) := by
    rintro (hle | hd)
    · exact absurd h.1 (Nat.not_lt.2 hle)
    · rw [h.2] at hd
      cases hd
  have hbase : ∀ j, (((s.1.put id { s.1.base id with probed := pr }).base j).closedRd = (s.1.base j).closedRd) ∧
      ((s.1.put id { s.1.base id with probed := pr }).base j).closedWr = (s.1.base j).closedWr := by
    intro j
    by_cases hj : j = id
    · subst hj
      rw [Objects.put_base_self]
      exact ⟨rfl, rfl⟩
    · rw [Objects.put_base_ne _ _ hj]
      exact ⟨rfl, rfl⟩
  have hlife : ((watched tr id).setProbed pr s).2 = s.2 := if_neg hif
  refine ⟨fun hc => ⟨?_, ?_, ?_⟩, fun _ hj => hj, fun j => (hbase j).1, fun j => (hbase j).2⟩ <;> rw [hlife]
  · exact hc.written
  · exact hc.deletions
  · exact hc.deleted

theorem Alive.probe (htr : tr.Sound) (h : Alive id s) (size : Nat) (blocking : Bool) :
    Safe .useAfterFree (fun x => Unchanged s x.2.2 ∧ ∃ t, tr.probe id size blocking s.1.transport = .ok (x.1, x.2.1, t))
      ((watched tr id).probe size blocking s) := by
  change Safe _ _ ((s.1.deref id >>= fun _ => tr.probe id size blocking s.1.transport >>= _) >>= _)
  rw [h.deref, bind_ok]
  have hs := Safe.of_ne (htr.probe id size blocking s.1.transport)
  cases hx : tr.probe id size blocking s.1.transport with
  | error e => rw [hx] at hs; exact hs
  | ok x => exact ⟨unchanged_transport s _, _, rfl⟩

theorem Alive.receive (htr : tr.Sound) (h : Alive id s) (n : Nat) :
    Safe .useAfterFree (fun x => Unchanged s x.2.2) ((watched tr id).receive n s) := by
  change Safe _ _ ((s.1.deref id >>= fun _ => tr.receive id n s.1.transport >>= _) >>= _)
  rw [h.deref, bind_ok]
  have hs := Safe.of_ne (htr.receive id n s.1.transport)
  cases hx : tr.receive id n s.1.transport with
  | error e => rw [hx] at hs; exact hs
  | ok x => exact unchanged_transport s _

theorem Alive.send (htr : tr.Sound) (h : Alive id s) (bs : Bytes) :
    Safe .useAfterFree (fun x => Unchanged s x.2) ((watched tr id).send bs s) := by
  change Safe _ _ ((s.1.deref id >>= fun _ => tr.send id bs s.1.transport >>= _) >>= _)
  rw [h.deref, bind_ok]
  have hs := Safe.of_ne (htr.send id bs s.1.transport)
  cases hx : tr.send id bs s.1.transport with
  | error e => rw [hx] at hs; exact hs
  | ok x => exact unchanged_transport s _

/-- `Handle::close` sets the flags, and deletes the handle when nothing refers to it and both are set. -/
private theorem close_flags (htr : tr.Sound) (h : Alive id s) (wr rd : Bool) :
    Safe .useAfterFree (fun o => ∃ t, o = ({ s.1.put id { s.1.base id with
        closedWr := (s.1.base id).closedWr || wr
        closedRd := (s.1.base id).closedRd || rd } with transport := t } : Objects T).deleteUnused id)
      (s.1.close tr id wr rd) := by
  unfold Objects.close
  rw [h.deref, bind_ok]
  have hwrite : Safe .useAfterFree (fun o => ∃ t, o = { s.1.put id { s.1.base id with
      closedWr := (s.1.base id).closedWr || wr } with transport := t })
        (if wr then s.1.closeWrite tr id else .ok s.1) := by
    have hsame : (s.1.base id).closedWr = ((s.1.base id).closedWr || wr) → s.1 = { s.1.put id { s.1.base id with
        closedWr := (s.1.base id).closedWr || wr } with transport := s.1.transport } := by
      intro he
      rw [← he]
      have hid : s.1.put id (s.1.base id) = s.1 := by
        unfold Objects.put
        rw [Function.update_eq_self]
      exact hid.symm
    cases wr with
    | false =>
      rw [if_neg Bool.false_ne_true]
      exact ⟨_, hsame (Bool.or_false _).symm⟩
    | true =>
      rw [if_pos rfl]
      unfold Objects.closeWrite
      cases hwr : (s.1.base id).closedWr with
      | true =>
        rw [hwr] at hsame
        exact ⟨_, hsame rfl⟩
      | false => exact (Safe.of_ne (htr.sendEOS id s.1.transport)).bind fun t _ => ⟨t, rfl⟩
  refine hwrite.bind ?_
  rintro o ⟨t, rfl⟩
  dsimp only
  refine (Safe.of_ne (htr.notifyClose _ _ _ _)).bind fun t' _ => ⟨t', ?_⟩
  cases rd with
  | false => rw [if_neg Bool.false_ne_true, Bool.or_false]
  | true =>
    have hput : ∀ (b b' : CommBase) (t : T),
        ({ s.1.put id b with transport := t } : Objects T).put id b' = { s.1.put id b' with transport := t } := by
      intro b b' t
      unfold Objects.put
      dsimp only
      rw [Function.update_idem]
    rw [if_pos rfl, Bool.or_true, hput, Objects.put_base_self]

end

/-- What `Handle::close` does: the flags are set, other handles are left alone, and the handle is deleted at
most when both its sides are closed. -/
structure Closing (id : Nat) (wr rd : Bool) (s s' : Objects T × Lifetimes) : Prop where
  clean : Clean s → Clean s'
  others : ∀ j, j ≠ id → Alive j s → Alive j s'
  base : ∀ j, j ≠ id → s'.1.base j = s.1.base j
  closedRd : (s'.1.base id).closedRd = ((s.1.base id).closedRd || rd)
  alive : ((s.1.base id).closedRd || rd) = false ∨ ((s.1.base id).closedWr || wr) = false → Alive id s'

section

variable {tr : Transport T} {id : Nat} {s s' : Objects T × Lifetimes}

theorem Alive.close (htr : tr.Sound) (h : Alive id s) (wr rd : Bool) :
    Safe .useAfterFree (Closing id wr rd s) ((watched tr id).close wr rd s) := by
  refine (close_flags htr h wr rd).bind ?_
  rintro o ⟨t, rfl⟩
  generalize hb : ({ s.1.base id with
    closedWr := (s.1.base id).closedWr || wr
    closedRd := (s.1.base id).closedRd || rd } : CommBase) = b
  have hwr : b.closedWr = ((s.1.base id).closedWr || wr) := hb ▸ rfl
  have hrd : b.closedRd = ((s.1.base id).closedRd || rd) := hb ▸ rfl
  have hself : ({ s.1.put id b with transport := t } : Objects T).base id = b := Objects.put_base_self s.1 id b
  unfold Objects.deleteUnused
  rw [hself]
  by_cases hdel : b.counter = 0 ∧ b.closedWr = true ∧ b.closedRd = true
  · -- `delete this`
    rw [if_pos hdel]
    have hdeleted : ∀ j, Function.update s.1.deleted id true j = true ↔ j = id ∨ s.1.deleted j = true := by
      intro j
      by_cases hj : j = id
      · subst hj
        simp
      · rw [Function.update_of_ne hj]
        simp [hj]
    have hlog : (if Function.update s.1.deleted id true id = true then
        { s.2 with deletions := s.2.deletions ++ [id] } else s.2) = { s.2 with deletions := s.2.deletions ++ [id] } :=
      if_pos ((hdeleted id).2 (Or.inl rfl))
    have hnew : Clean s → id ∉ s.2.deletions := by
      intro hc hmem
      have hd := hc.deleted id hmem
      rw [h.2] at hd
      cases hd
    refine ⟨fun hc => ⟨?_, ?_, fun j hj => ?_⟩, fun j hj ha => ⟨ha.1, ?_⟩, fun j hj =>
      Objects.put_base_ne _ _ hj, ?_, ?_⟩
    · change (if Function.update s.1.deleted id true id = true then _ else s.2 : Lifetimes).written = _
      rw [hlog]
      exact hc.written
    · change (if Function.update s.1.deleted id true id = true then _ else s.2 : Lifetimes).deletions.Nodup
      rw [hlog]
      exact List.nodup_append.2 ⟨hc.deletions, List.nodup_singleton id, fun a ha b hb => by
        rw [List.mem_singleton.1 hb]
        rintro rfl
        exact hnew hc ha⟩
    · change j ∈ (if Function.update s.1.deleted id true id = true then _ else s.2 : Lifetimes).deletions at hj
      rw [hlog] at hj
      refine (hdeleted j).2 ?_
      rcases List.mem_append.1 hj with hj | hj
      · exact Or.inr (hc.deleted j hj)
      · exact Or.inl (List.mem_singleton.1 hj)
    · exact (Function.update_of_ne hj ..).trans ha.2
    · exact (congrArg CommBase.closedRd hself).trans hrd
    · rintro (hf | hf)
      · rw [← hrd, hdel.2.2] at hf
        cases hf
      · rw [← hwr, hdel.2.1] at hf
        cases hf
  · rw [if_neg hdel]
    have hlog : (if s.1.deleted id = true then { s.2 with deletions := s.2.deletions ++ [id] } else s.2) = s.2 :=
      if_neg (by rw [h.2]; exact Bool.false_ne_true)
    refine ⟨fun hc => ?_, fun j _ ha => ha, fun j hj => Objects.put_base_ne _ _ hj, ?_, fun _ => h⟩
    · change Clean (_, (if s.1.deleted id = true then _ else s.2 : Lifetimes))
      rw [hlog]
      exact ⟨hc.written, hc.deletions, hc.deleted⟩
    · exact (congrArg CommBase.closedRd hself).trans hrd

/-- Closing the write side of handles whose read side is open deletes none of them. -/
theorem Closing.open {wr : Bool} (h : Closing id wr false s s') (hid : Open id s) {j : Nat} (hj : Open j s) :
    Open j s' := by
  by_cases hji : j = id
  · subst hji
    refine ⟨h.alive (Or.inl ?_), ?_⟩
    · rw [Bool.or_false]
      exact hid.2
    · rw [h.closedRd, Bool.or_false]
      exact hid.2
  · exact ⟨h.others j hji hj.1, (congrArg CommBase.closedRd (h.base j hji)).trans hj.2⟩

/-- The header that `receiveFromHandle` reads makes it close both sides: the connection has been lost, or EOS
has come when the write side has been closed already. -/
def Lapses (tr : Transport T) (id : Nat) (s : Objects T × Lifetimes) : Prop :=
  (s.1.base id).probed.1 = false ∧ (s.1.base id).closedRd = false ∧
    ∃ r size t, tr.probe id 0 true s.1.transport = .ok (r, size, t) ∧
      (r = .ok 0 ∨ r = .error .ECONNRESET ∨ (∃ n, r = .ok (n + 1)) ∧ size = 0 ∧ (s.1.base id).closedWr = true)

/-- What `probeHandle` and `receiveFromHandle` may do to the handles: they delete at most the one they read
from, when the header makes them close both sides, and then there is no message. -/
structure ReceivingFrom (tr : Transport T) (id : Nat) (s : Objects T × Lifetimes) (r : Ret)
    (s' : Objects T × Lifetimes) : Prop where
  clean : Clean s → Clean s'
  others : ∀ j, j ≠ id → Alive j s → Alive j s'
  alive : Alive id s' ∨ Lapses tr id s ∧ ∀ n, r ≠ .ok (n + 1)

private theorem Unchanged.receiving (h : Unchanged s s') (ha : Alive id s) (r : Ret) : ReceivingFrom tr id s r s' :=
  ⟨h.clean, fun j _ hj => h.alive j hj, Or.inl (h.alive id ha)⟩

private theorem Unchanged.receiving_close {s1 : Objects T × Lifetimes} {wr : Bool} (h : Unchanged s s1)
    (hc : Closing id wr true s1 s') (hl : ((s1.1.base id).closedWr || wr) = true → Lapses tr id s) :
    ReceivingFrom tr id s (.ok 0) s' := by
  refine ⟨fun hs => hc.clean (h.clean hs), fun j hj ha => hc.others j hj (h.alive j ha), ?_⟩
  cases hwr : (s1.1.base id).closedWr || wr with
  | true => exact Or.inr ⟨hl hwr, nofun⟩
  | false => exact Or.inl (hc.alive (Or.inr hwr))

private theorem Alive.probeHandle (htr : tr.Sound) (h : Alive id s) (hp : (s.1.base id).probed.1 = false) :
    Safe .useAfterFree (fun x => ReceivingFrom tr id s x.1 x.2.2) (Mtcl.probeHandle (watched tr) id 0 true s) := by
  unfold Mtcl.probeHandle
  dsimp only
  rw [h.base, bind_ok, hp, if_neg Bool.false_ne_true]
  cases hrd : (s.1.base id).closedRd with
  | true => exact (Unchanged.refl s).receiving h _
  | false =>
    rw [if_neg Bool.false_ne_true]
    refine (h.probe htr 0 true).bind ?_
    rintro ⟨r, size, s1⟩ ⟨hu, t, ht⟩
    have ha := hu.alive id h
    have hlost : r = .ok 0 ∨ r = .error .ECONNRESET → Lapses tr id s := fun hr =>
      ⟨hp, hrd, r, size, t, ht, hr.elim Or.inl fun hr => Or.inr (Or.inl hr)⟩
    rcases r with e | _ | n
    · dsimp only
      by_cases he : e = .ECONNRESET
      · rw [if_pos he]
        exact (ha.close htr true true).bind fun s2 hc => hu.receiving_close hc fun _ => hlost (Or.inr (he ▸ rfl))
      · rw [if_neg he]
        exact hu.receiving h _
    · exact (ha.close htr true true).bind fun s2 hc => hu.receiving_close hc fun _ => hlost (Or.inl rfl)
    · dsimp only
      have hu2 := hu.trans (ha.setProbed tr (true, size))
      by_cases hsize : size = 0
      · -- EOS
        rw [if_pos hsize]
        refine ((hu2.alive id h).close htr false true).bind fun s2 hc => hu2.receiving_close hc fun hwr => ?_
        rw [Bool.or_false, hu2.closedWr] at hwr
        exact ⟨hp, hrd, _, size, t, ht, Or.inr (Or.inr ⟨⟨n, rfl⟩, hsize, hwr⟩)⟩
      · rw [if_neg hsize]
        exact hu2.receiving h _

private theorem Alive.receiveProbed (htr : tr.Sound) (h : Alive id s) (n : Nat) :
    Safe .useAfterFree (fun x => Unchanged s x.2.2) (receiveProbedFromHandle (watched tr) id n s) := by
  unfold receiveProbedFromHandle
  dsimp only
  rw [h.base, bind_ok]
  split
  · exact Unchanged.refl s
  · have hu := h.setProbed tr (false, 0)
    exact ((hu.alive id h).receive htr _).mono fun x hx => hu.trans hx

theorem Alive.receiveFromHandle (htr : tr.Sound) (h : Alive id s) (n : Nat) :
    Safe .useAfterFree (fun x => ReceivingFrom tr id s x.1 x.2.2) (Mtcl.receiveFromHandle (watched tr) id n s) := by
  unfold Mtcl.receiveFromHandle
  dsimp only
  rw [h.base, bind_ok]
  cases hp : (s.1.base id).probed.1 with
  | true =>
    rw [if_neg (by decide)]
    cases hrd : (s.1.base id).closedRd with
    | true => exact (Unchanged.refl s).receiving h _
    | false => exact (h.receiveProbed htr n).mono fun x hx => hx.receiving h _
  | false =>
    rw [if_pos (by decide)]
    refine (h.probeHandle htr hp).bind ?_
    rintro ⟨r, size, s1⟩ hr
    rcases r with e | _ | k
    · exact hr
    · exact hr
    · have ha : Alive id s1 := hr.alive.resolve_right fun hl => hl.2 k rfl
      exact (ha.receiveProbed htr n).mono fun x hx =>
        ⟨fun hs => hx.clean (hr.clean hs), fun j hj hj' => hx.alive j (hr.others j hj hj'), Or.inl (hx.alive id ha)⟩

end

/-! ### Loops over the participants -/

/-- The handles exist, and their read sides have not been closed. -/
def AllOpen (ps : List Nat) (s : Objects T × Lifetimes) : Prop := Clean s ∧ ∀ h ∈ ps, Open h s

/-- The handles exist. -/
def AllAlive (ps : List Nat) (s : Objects T × Lifetimes) : Prop := Clean s ∧ ∀ h ∈ ps, Alive h s

section

variable {tr : Transport T} {ps : List Nat} {s s' : Objects T × Lifetimes}

theorem Unchanged.allOpen (h : Unchanged s s') (hs : AllOpen ps s) : AllOpen ps s' :=
  ⟨h.clean hs.1, fun j hj => h.open (hs.2 j hj)⟩

theorem Unchanged.allAlive (h : Unchanged s s') (hs : AllAlive ps s) : AllAlive ps s' :=
  ⟨h.clean hs.1, fun j hj => h.alive j (hs.2 j hj)⟩

theorem Closing.allOpen {id : Nat} {wr : Bool} (h : Closing id wr false s s') (hid : id ∈ ps) (hs : AllOpen ps s) :
    AllOpen ps s' :=
  ⟨h.clean hs.1, fun _ hj => h.open (hs.2 id hid) (hs.2 _ hj)⟩

theorem closeAll_open (htr : tr.Sound) {hs : List Nat} (hsub : ∀ h ∈ hs, h ∈ ps) (h : AllOpen ps s) :
    Safe .useAfterFree (AllOpen ps) (closeAll (watched tr) hs s) := by
  induction hs generalizing s with
  | nil => exact h
  | cons j hs ih =>
    obtain ⟨hj, hsub⟩ := List.forall_mem_cons.1 hsub
    exact ((h.2 j hj).1.close htr true false).bind fun s1 hc => ih hsub (hc.allOpen hj h)

theorem closeAll_alive (htr : tr.Sound) {hs : List Nat} (hn : hs.Nodup) (h : AllAlive hs s) :
    Safe .useAfterFree Clean (closeAll (watched tr) hs s) := by
  induction hs generalizing s with
  | nil => exact h.1
  | cons j hs ih =>
    obtain ⟨hj, hn⟩ := List.nodup_cons.1 hn
    obtain ⟨halive, hrest⟩ := List.forall_mem_cons.1 h.2
    exact (halive.close htr true false).bind fun s1 hc =>
      ih hn ⟨hc.clean h.1, fun k hk => hc.others k (fun e => hj (e ▸ hk)) (hrest k hk)⟩

theorem BroadcastGeneric.sendLoop_open (htr : tr.Sound) (m : Bytes) {hs : List Nat} (hsub : ∀ h ∈ hs, h ∈ ps)
    (h : AllOpen ps s) : Safe .useAfterFree (fun x => AllOpen ps x.2)
    (BroadcastGeneric.sendLoop (watched tr) m hs s) := by
  induction hs generalizing s with
  | nil => exact h
  | cons j hs ih =>
    obtain ⟨hj, hsub⟩ := List.forall_mem_cons.1 hsub
    refine ((h.2 j hj).1.send htr m).bind ?_
    rintro ⟨r, s1⟩ hu
    cases r with
    | error e => exact hu.allOpen h
    | ok n => exact ih hsub (hu.allOpen h)

theorem FanInGeneric.sendLoop_open (htr : tr.Sound) (m : Bytes) {hs : List Nat} (hsub : ∀ h ∈ hs, h ∈ ps)
    (h : AllOpen ps s) : Safe .useAfterFree (fun x => AllOpen ps x.2) (FanInGeneric.sendLoop (watched tr) m hs s) := by
  induction hs generalizing s with
  | nil => exact h
  | cons j hs ih =>
    obtain ⟨hj, hsub⟩ := List.forall_mem_cons.1 hsub
    refine ((h.2 j hj).1.send htr m).bind ?_
    rintro ⟨r, s1⟩ hu
    cases r with
    | error e => exact hu.allOpen h
    | ok n => exact ih hsub (hu.allOpen h)

theorem GatherGeneric.sendLoop_open (htr : tr.Sound) (rank : Nat) (m : Bytes) {hs : List Nat} (hsub : ∀ h ∈ hs, h ∈ ps)
    (h : AllOpen ps s) : Safe .useAfterFree (AllOpen ps) (GatherGeneric.sendLoop (watched tr) rank m hs s) := by
  induction hs generalizing s with
  | nil => exact h
  | cons j hs ih =>
    obtain ⟨hj, hsub⟩ := List.forall_mem_cons.1 hsub
    refine ((h.2 j hj).1.send htr _).bind fun x hu => ?_
    have h1 := hu.allOpen h
    exact ((h1.2 j hj).1.send htr m).bind fun y hu' => ih hsub (hu'.allOpen h1)

private theorem GatherGeneric.store_safe (buff : Bytes) (off : Nat) (bs : Bytes) :
    Safe Stop.useAfterFree (fun _ => True) (GatherGeneric.store buff off bs) := by
  unfold GatherGeneric.store
  split
  · trivial
  · split
    · trivial
    · exact Safe.error nofun

/-- The loop of the root of a gather deletes at most the participant at which it ends. -/
theorem GatherGeneric.receiveLoop_alive (htr : tr.Sound) (garbage : Nat → UInt8) (size : Nat) {hs : List Nat}
    (hn : hs.Nodup) {buff : Bytes} (h : AllAlive hs s) :
    Safe .useAfterFree (fun x => Clean x.2.2) (GatherGeneric.receiveLoop (watched tr) garbage size hs buff s) := by
  induction hs generalizing buff s with
  | nil => exact h.1
  | cons j hs ih =>
    obtain ⟨hj, hn⟩ := List.nodup_cons.1 hn
    obtain ⟨halive, hrest⟩ := List.forall_mem_cons.1 h.2
    have hother : ∀ k ∈ hs, k ≠ j := fun k hk e => hj (e ▸ hk)
    refine (halive.receiveFromHandle htr sizeofInt).bind ?_
    rintro ⟨r, bs, s1⟩ h1
    rcases r with e | _ | n
    · exact h1.clean h.1
    · exact h1.clean h.1
    · have ha1 : Alive j s1 := h1.alive.resolve_right fun hl => hl.2 n rfl
      refine (ha1.receiveFromHandle htr size).bind ?_
      rintro ⟨r', bs', s2⟩ h2
      have hclean := h2.clean (h1.clean h.1)
      have hstore := GatherGeneric.store_safe buff (blockOffset (Words.ofLE (overlay garbage sizeofInt bs)) size) bs'
      refine hstore.bind fun buff' _ => ?_
      rcases r' with e | _ | n'
      · exact hclean
      · exact hclean
      · exact ih hn ⟨hclean, fun k hk => h2.others k (hother k hk) (h1.others k (hother k hk) (hrest k hk))⟩

/-- The participants of the root of a fan-in exist. -/
def FanInGeneric.Fed (root : Bool) (c : FanInGeneric Nat) (s : Objects T × Lifetimes) : Prop :=
  c.root = root ∧ c.participants.Nodup ∧ AllAlive c.participants s

private theorem FanInGeneric.Fed.leave {root : Bool} {c : FanInGeneric Nat} (h : c.Fed root s) (r : Ret) (size : Nat) :
    (c.leave r size s).2.2.1.Fed root (c.leave r size s).2.2.2 := by
  unfold FanInGeneric.leave
  split <;> exact h

/-- The loop of the root of a fan-in closes only handles that it has erased. -/
theorem FanInGeneric.probeLoop_alive (htr : tr.Sound) (blocking : Bool) (fuel : Nat) {root : Bool} {iter : Nat}
    {errno : Errno} {size : Nat} {c : FanInGeneric Nat} (h : c.Fed root s) :
    Safe .useAfterFree (fun x => x.2.2.1.Fed root x.2.2.2)
      (FanInGeneric.probeLoop (watched tr) blocking fuel iter errno size c s) := by
  induction fuel generalizing iter errno size c s with
  | zero =>
    unfold FanInGeneric.probeLoop
    split
    · exact h.leave _ _
    · exact Safe.error (by decide)
  | succ fuel ih =>
    unfold FanInGeneric.probeLoop
    by_cases hempty : c.participants.isEmpty
    · rw [if_pos hempty]
      exact h.leave _ _
    · rw [if_neg hempty]
      cases hget : c.participants[iter]? with
      | none => exact Safe.error (by decide)
      | some j =>
        obtain ⟨hroot, hn, hc, hall⟩ := h
        have hj : Alive j s := hall j (List.mem_of_getElem? hget)
        refine (hj.probe htr size false).bind ?_
        rintro ⟨r, size, s1⟩ ⟨hu, -⟩
        have h1 : c.Fed root s1 := ⟨hroot, hn, hu.allAlive ⟨hc, hall⟩⟩
        rcases r with e | _ | n
        · dsimp only
          split
          · exact ih h1
          · exact h1.leave _ _
        · exact h1.leave _ _
        · dsimp only
          by_cases hsize : size = 0
          · -- EOS: the others stay
            rw [if_pos hsize]
            refine ((hu.alive j hj).close htr true true).bind fun s2 hcl => ?_
            have h2 : ({ c with participants := c.participants.eraseIdx iter } : FanInGeneric Nat).Fed root s2 := by
              refine ⟨hroot, hn.eraseIdx iter, hcl.clean (hu.clean hc), fun k hk => ?_⟩
              obtain ⟨i, hi, hki⟩ := List.mem_eraseIdx_iff_getElem?.1 hk
              refine hcl.others k (fun e => hi ?_) (hu.alive k (hall k (List.mem_of_getElem? hki)))
              exact (List.getElem?_inj (List.getElem?_eq_some_iff.1 hki).1 hn).1 (hki.trans (e ▸ hget.symm))
            split
            · split
              · exact ih h2
              · exact h2.leave _ _
            · split
              · exact ih h2
              · exact h2.leave _ _
          · rw [if_neg hsize]
            have hu2 := (hu.alive j hj).setProbed tr (true, size)
            exact FanInGeneric.Fed.leave (c := { c with probedIdx := some iter }) ⟨hroot, hn, hu2.allAlive h1.2.2⟩ _ _

end

/-! ### The contexts -/

/-- An implementation of a collective with its `sendrecv`. -/
structure Collective (C W : Type) extends CollectiveImpl C W where
  sendrecv : Bytes → Bytes → Nat → C → W → Except Stop (Ret × Bytes × C × W)

/-- `CollectiveImpl::sendrecv`, for the collectives that have none of their own. -/
def CollectiveImpl.sendrecv {W : Type} (_sendbuff recvbuff : Bytes) (_recvsize : Nat) (c : C) (w : W) :
    Except Stop (Ret × Bytes × C × W) := .ok (.error .EINVAL, recvbuff, c, w)

/-- The operations on a context. -/
inductive ContextOp
  | probe (size : Nat) (blocking : Bool)
  | receive (n : Nat)
  | send (m : Bytes)
  | sendrecv (sendbuff recvbuff : Bytes) (recvsize : Nat)
  | close (wr rd : Bool)

/-- One operation; what it returns is left out. -/
def ContextOp.apply {W : Type} (k : Collective C W) (o : ContextOp) (s : CollectiveContext C × W) :
    Except Stop (CollectiveContext C × W) :=
  match o with
  | .probe size blocking => (contextHandle k.toCollectiveImpl).probe size blocking s >>= fun x => .ok x.2.2
  | .receive n => (contextHandle k.toCollectiveImpl).receive n s >>= fun x => .ok x.2.2
  | .send m => (contextHandle k.toCollectiveImpl).send m s >>= fun x => .ok x.2
  | .sendrecv sendbuff recvbuff recvsize =>
    teamUser.sendrecv (k.sendrecv sendbuff recvbuff recvsize) s >>= fun x => .ok x.2.2
  | .close wr rd => (contextHandle k.toCollectiveImpl).close wr rd s

/-- What an implementation keeps in all the calls that its context lets through and that are allowed. -/
structure Collective.Keeps (k : Collective C (Objects T × Lifetimes)) (canSend canReceive : Bool)
    (allowed : ContextOp → C → Objects T × Lifetimes → Prop) (I : C → Objects T × Lifetimes → Prop) : Prop where
  probe : canReceive = true → ∀ {size blocking c w}, I c w → allowed (.probe size blocking) c w →
    Safe .useAfterFree (fun x => I x.2.2.1 x.2.2.2) (k.probe size blocking c w)
  receive : canReceive = true → ∀ {n c w}, I c w → allowed (.receive n) c w →
    Safe .useAfterFree (fun x => I x.2.2.1 x.2.2.2) (k.receive n c w)
  send : canSend = true → ∀ {m c w}, I c w → allowed (.send m) c w →
    Safe .useAfterFree (fun x => I x.2.1 x.2.2) (k.send m c w)
  sendrecv : ∀ {sendbuff recvbuff recvsize c w}, I c w → allowed (.sendrecv sendbuff recvbuff recvsize) c w →
    Safe .useAfterFree (fun x => I x.2.2.1 x.2.2.2) (k.sendrecv sendbuff recvbuff recvsize c w)
  close : ∀ {wr rd wr' c w}, I c w → allowed (.close wr rd) c w →
    Safe .useAfterFree (fun x => I x.1 x.2) (k.close wr' rd c w)

/-- The context exists, and what it can do does not change. -/
structure Standing (canSend canReceive : Bool) (c : CollectiveContext C) : Prop where
  deleted : c.deleted = false
  canSend : c.canSend = canSend
  canReceive : c.canReceive = canReceive

theorem Collective.Keeps.apply {k : Collective C (Objects T × Lifetimes)} {canSend canReceive : Bool}
    {allowed : ContextOp → C → Objects T × Lifetimes → Prop} {I : C → Objects T × Lifetimes → Prop}
    (hk : k.Keeps canSend canReceive allowed I) {o : ContextOp} {s : CollectiveContext C × (Objects T × Lifetimes)}
    (hs : Standing canSend canReceive s.1) (hI : I s.1.coll s.2) (ho : allowed o s.1.coll s.2) :
    Safe .useAfterFree (fun s' => Standing canSend canReceive s'.1 ∧ I s'.1.coll s'.2) (o.apply k s) := by
  obtain ⟨c, w⟩ := s
  obtain ⟨hdel, hcs, hcr⟩ := hs
  have hderef : c.deref = .ok c := CollectiveContext.deref_of hdel
  cases o with
  | probe size blocking =>
    change Safe _ _ ((c.deref >>= fun c => c.probe k.toCollectiveImpl w size blocking >>= _) >>= _)
    rw [hderef, bind_ok]
    unfold CollectiveContext.probe
    by_cases hcan : c.canReceive = true
    · rw [if_neg (by simp [hcan])]
      exact ((hk.probe (hcr.symm.trans hcan) hI ho).mono fun x hx => ⟨⟨hdel, hcs, hcr⟩, hx⟩).map.map.map
    · rw [if_pos (by simp [hcan])]
      exact ⟨⟨hdel, hcs, hcr⟩, hI⟩
  | receive n =>
    change Safe _ _ ((c.deref >>= fun c => c.receive k.toCollectiveImpl w n >>= _) >>= _)
    rw [hderef, bind_ok]
    unfold CollectiveContext.receive
    by_cases hcan : c.canReceive = true
    · rw [if_neg (by simp [hcan])]
      exact ((hk.receive (hcr.symm.trans hcan) hI ho).mono fun x hx => ⟨⟨hdel, hcs, hcr⟩, hx⟩).map.map.map
    · rw [if_pos (by simp [hcan])]
      exact ⟨⟨hdel, hcs, hcr⟩, hI⟩
  | send m =>
    change Safe _ _ ((c.deref >>= fun c => c.send k.toCollectiveImpl w m >>= _) >>= _)
    rw [hderef, bind_ok]
    unfold CollectiveContext.send
    by_cases hcan : c.canSend = true
    · rw [if_neg (by simp [hcan])]
      exact ((hk.send (hcs.symm.trans hcan) hI ho).mono fun x hx => ⟨⟨hdel, hcs, hcr⟩, hx⟩).map.map.map
    · rw [if_pos (by simp [hcan])]
      exact ⟨⟨hdel, hcs, hcr⟩, hI⟩
  | sendrecv sendbuff recvbuff recvsize =>
    change Safe _ _ ((c.deref >>= fun c => ({ c with probed := (false, 0) } : CollectiveContext C).sendrecv w
      (k.sendrecv sendbuff recvbuff recvsize) >>= _) >>= _)
    rw [hderef, bind_ok]
    exact ((hk.sendrecv hI ho).mono fun x hx => ⟨⟨hdel, hcs, hcr⟩, hx⟩).map.map.map
  | close wr rd =>
    change Safe _ _ (c.deref >>= fun c => c.close k.toCollectiveImpl w wr rd)
    rw [hderef, bind_ok]
    exact ((hk.close hI ho).mono fun x hx => ⟨⟨hdel, hcs, hcr⟩, hx⟩).map

/-- A step of a run: a call, or whatever the transport does by itself. -/
inductive ContextStep (table : ι → Collective C (Objects T × Lifetimes))
    (allowed : ContextOp → C → Objects T × Lifetimes → Prop) :
    (ι × ContextOp) ⊕ T → CollectiveContext C × (Objects T × Lifetimes) →
      CollectiveContext C × (Objects T × Lifetimes) → Prop
  | call {i : ι} {o : ContextOp} {s s' : CollectiveContext C × (Objects T × Lifetimes)} (ho : allowed o s.1.coll s.2)
      (h : o.apply (table i) s = .ok s') : ContextStep table allowed (.inl (i, o)) s s'
  | transport {t : T} {s : CollectiveContext C × (Objects T × Lifetimes)} :
      ContextStep table allowed (.inr t) s (s.1, ({ s.2.1 with transport := t }, s.2.2))

/-- No deleted handle has been written and none has been deleted twice, and no call that is allowed uses one. -/
def UsesNoDeleted (table : ι → Collective C (Objects T × Lifetimes))
    (allowed : ContextOp → C → Objects T × Lifetimes → Prop)
    (s : CollectiveContext C × (Objects T × Lifetimes)) : Prop :=
  Clean s.2 ∧ ∀ i o, allowed o s.1.coll s.2 → o.apply (table i) s ≠ .error .useAfterFree

/-- A run. -/
theorem Collective.Keeps.run {table : ι → Collective C (Objects T × Lifetimes)} {canSend canReceive : Bool}
    {allowed : ContextOp → C → Objects T × Lifetimes → Prop} {I : C → Objects T × Lifetimes → Prop}
    (hk : ∀ i, (table i).Keeps canSend canReceive allowed I)
    (ht : ∀ {c w}, I c w → ∀ t, I c ({ w.1 with transport := t }, w.2)) (hclean : ∀ {c w}, I c w → Clean w)
    {init : CollectiveContext C × (Objects T × Lifetimes) → Prop}
    (hinit : ∀ s, init s → Standing canSend canReceive s.1 ∧ I s.1.coll s.2)
    {s : CollectiveContext C × (Objects T × Lifetimes)} (hs : Runs.Reach init (ContextStep table allowed) s) :
    UsesNoDeleted table allowed s := by
  obtain ⟨hst, hI⟩ := hs.invariant (fun s => Standing canSend canReceive s.1 ∧ I s.1.coll s.2) hinit
    fun o s s' h hstep => by
      cases hstep with
      | call ho happ => exact ((hk _).apply h.1 h.2 ho).of_eq happ
      | transport => exact ⟨h.1, ht h.2 _⟩
  exact ⟨hclean hI, fun i o ho => ((hk i).apply hst hI ho).ne⟩

/-! ### The four collectives -/

section

variable (tr : Transport T)

/-- `BroadcastGeneric` over the participants. -/
def broadcastWatched : Collective (BroadcastGeneric Nat) (Objects T × Lifetimes) where
  toCollectiveImpl := broadcastGeneric (watched tr)
  sendrecv sendbuff _ recvsize := BroadcastGeneric.sendrecv (watched tr) sendbuff recvsize

/-- `FanInGeneric` over the participants; `i` is the number of turns its loop may take and the value of `errno`. -/
def fanInWatched (i : Nat × Errno) : Collective (FanInGeneric Nat) (Objects T × Lifetimes) where
  toCollectiveImpl := fanInGeneric (watched tr) i.1 i.2
  sendrecv := CollectiveImpl.sendrecv

/-- `FanOutGeneric` over the participants; `errno` is its value before the call. -/
def fanOutWatched (errno : Errno) : Collective (FanOutGeneric Nat) (Objects T × Lifetimes) where
  toCollectiveImpl := fanOutGeneric (watched tr) errno
  sendrecv := CollectiveImpl.sendrecv

/-- `GatherGeneric` over the participants; `i` is what the stack holds, and the buffer of `receive`. -/
def gatherWatched (i : (Nat → UInt8) × Bytes) : Collective (GatherGeneric Nat) (Objects T × Lifetimes) where
  probe := GatherGeneric.probe
  receive := GatherGeneric.receive (watched tr) i.1 i.2
  send := GatherGeneric.send (watched tr)
  close _ _ := GatherGeneric.close (watched tr)
  sendrecv := GatherGeneric.sendrecv (watched tr) i.1

/-- A member of a broadcast calls `sendrecv` only while its participant exists, and reads no header that makes
it close both sides. -/
def broadcastAllowed : ContextOp → BroadcastGeneric Nat → Objects T × Lifetimes → Prop
  | .sendrecv .., c, w => c.root = false → ∀ h, c.participants[0]? = some h → Alive h w ∧ ¬ Lapses tr h w
  | _, _, _ => True

/-- A worker of a fan-out does not find EOS. -/
def fanOutAllowed : ContextOp → FanOutGeneric Nat → Objects T × Lifetimes → Prop
  | .probe size blocking, c, w => c.root = false → ∀ h, c.participants[0]? = some h →
    ∀ n t, tr.probe h size blocking w.1.transport ≠ .ok (.ok (n + 1), 0, t)
  | _, _, _ => True

end

/-- The root of a gather calls `sendrecv` and `close` only while all its participants exist. -/
def gatherAllowed : ContextOp → GatherGeneric Nat → Objects T × Lifetimes → Prop
  | .sendrecv .., c, w => c.root = true → ∀ h ∈ c.participants, Alive h w
  | .close .., c, w => c.root = true → ∀ h ∈ c.participants, Alive h w
  | _, _, _ => True

section

variable {tr : Transport T} {ps : List Nat}

private theorem AllOpen.transport {s : Objects T × Lifetimes} (h : AllOpen ps s) (t : T) :
    AllOpen ps ({ s.1 with transport := t }, s.2) := (unchanged_transport s t).allOpen h

private theorem broadcast_root_keeps (htr : tr.Sound) : (broadcastWatched tr).Keeps false false (broadcastAllowed tr)
    fun c w => c.root = true ∧ AllOpen c.participants w where
  probe := nofun
  receive := nofun
  send := nofun
  sendrecv {sendbuff recvbuff recvsize c w} h _ := by
    change Safe _ _ (if c.root then _ else _)
    rw [if_pos h.1]
    exact (((BroadcastGeneric.sendLoop_open htr sendbuff (fun _ hj => hj) h.2).mono fun x hx => ⟨h.1, hx⟩).map).map
  close {wr rd wr' c w} h _ := by
    change Safe _ _ (if c.root then _ else _)
    rw [if_pos h.1]
    exact ((closeAll_open htr (fun _ hj => hj) h.2).mono fun x hx => ⟨h.1, hx⟩).map

private theorem broadcast_member_keeps (htr : tr.Sound) : (broadcastWatched tr).Keeps false false (broadcastAllowed tr)
    fun c w => c.root = false ∧ Clean w where
  probe := nofun
  receive := nofun
  send := nofun
  sendrecv {sendbuff recvbuff recvsize c w} h ho := by
    change Safe _ _ (if c.root then _ else c.receive (watched tr) recvsize w)
    rw [if_neg (by simp [h.1])]
    unfold BroadcastGeneric.receive
    cases hget : c.participants[0]? with
    | none => exact Safe.error nofun
    | some j =>
      obtain ⟨ha, hl⟩ := ho h.1 j hget
      refine (ha.receiveFromHandle htr recvsize).bind ?_
      rintro ⟨r, bs, w1⟩ h1
      have hc := h1.clean h.2
      have ha1 : Alive j w1 := h1.alive.resolve_right fun hx => hl hx.1
      rcases r with e | _ | n
      · exact ⟨h.1, hc⟩
      · exact ((ha1.close htr true false).mono fun w2 hcl => ⟨h.1, hcl.clean hc⟩).map
      · exact ⟨h.1, hc⟩
  close {wr rd wr' c w} h _ := by
    change Safe _ _ (if c.root then _ else _)
    rw [if_neg (by simp [h.1])]
    exact h

private theorem fanIn_root_keeps (htr : tr.Sound) (i : Nat × Errno) : (fanInWatched tr i).Keeps false true
    (fun _ _ _ => True) fun c w => c.Fed true w where
  probe _ _ _ _ _ h _ := FanInGeneric.probeLoop_alive htr _ _ h
  receive _ n c w h _ := by
    change Safe _ _ (FanInGeneric.receive (watched tr) i.2 n c w)
    unfold FanInGeneric.receive
    cases hget : c.probedIdx.bind (c.participants[·]?) with
    | none => exact Safe.error nofun
    | some j =>
      obtain ⟨k, -, hk⟩ := Option.bind_eq_some_iff.1 hget
      have hj := h.2.2.2 j (List.mem_of_getElem? hk)
      refine (hj.receive htr n).bind ?_
      rintro ⟨r, bs, w1⟩ hu
      have h1 := hu.allAlive h.2.2
      rcases r with e | _ | m
      · exact ⟨h.1, h.2.1, h1⟩
      · exact ⟨h.1, h.2.1, h1⟩
      · exact ⟨h.1, h.2.1, ((hu.alive j hj).setProbed tr _).allAlive h1⟩
  send := nofun
  sendrecv h _ := h
  close {wr rd wr' c w} h _ := by
    change Safe _ _ (if !c.root then _ else _)
    rw [if_neg (by simp [h.1])]
    exact h

private theorem fanIn_worker_keeps (htr : tr.Sound) (i : Nat × Errno) :
    (fanInWatched tr i).Keeps true false (fun _ _ _ => True) fun c w => c.root = false ∧ AllOpen c.participants w where
  probe := nofun
  receive := nofun
  send _ m c w h _ := ((FanInGeneric.sendLoop_open htr m (fun _ hj => hj) h.2).mono fun x hx => ⟨h.1, hx⟩).map
  sendrecv h _ := h
  close {wr rd wr' c w} h _ := by
    change Safe _ _ (FanInGeneric.close (watched tr) c w)
    unfold FanInGeneric.close
    rw [if_pos (by simp [h.1])]
    cases hget : c.participants[0]? with
    | none => exact Safe.error nofun
    | some j =>
      have hj := List.mem_of_getElem? hget
      exact ((h.2.2 j hj).1.close htr true false |>.mono fun x hx => ⟨h.1, hx.allOpen hj h.2⟩).map

private theorem fanOut_keeps (htr : tr.Sound) (root : Bool) (errno : Errno) :
    (fanOutWatched tr errno).Keeps root (!root) (fanOutAllowed tr) fun c w =>
      c.root = root ∧ AllOpen c.participants w where
  probe hrecv size blocking c w h ho := by
    change Safe _ _ (FanOutGeneric.probe (watched tr) size blocking c w)
    have hroot : c.root = false := by
      rw [h.1]
      simpa using hrecv
    unfold FanOutGeneric.probe
    cases hps : c.participants with
    | nil => exact h
    | cons j js =>
      have hget : c.participants[0]? = some j := by rw [hps]; rfl
      have hj := (h.2.2 j (List.mem_of_getElem? hget)).1
      refine (hj.probe htr size blocking).bind ?_
      rintro ⟨r, size', w1⟩ ⟨hu, t, ht⟩
      have h1 := hu.allOpen h.2
      rcases r with e | _ | n
      · exact ⟨h.1, h1⟩
      · exact ⟨h.1, h1⟩
      · have hsize : size' ≠ 0 := fun e => ho hroot j hget n t (e ▸ ht)
        dsimp only
        rw [if_neg hsize]
        exact ⟨h.1, ((hu.alive j hj).setProbed tr _).allOpen h1⟩
  receive _ n c w h _ := by
    change Safe _ _ (FanOutGeneric.receive (watched tr) n c w)
    unfold FanOutGeneric.receive
    cases hget : c.participants[0]? with
    | none => exact Safe.error nofun
    | some j =>
      have hj := (h.2.2 j (List.mem_of_getElem? hget)).1
      exact (hj.receive htr n).bind fun x hu =>
        ⟨h.1, ((hu.alive j hj).setProbed tr _).allOpen (hu.allOpen h.2)⟩
  send _ m c w h _ := by
    change Safe _ _ (FanOutGeneric.send (watched tr) errno m c w)
    unfold FanOutGeneric.send
    cases hget : c.participants[c.current]? with
    | none => exact Safe.error nofun
    | some j => exact ((h.2.2 j (List.mem_of_getElem? hget)).1.send htr m).bind fun x hu => ⟨h.1, hu.allOpen h.2⟩
  sendrecv h _ := h
  close {wr rd wr' c w} h _ := by
    change Safe _ _ (if c.root then _ else _)
    split
    · exact ((closeAll_open htr (fun _ hj => hj) h.2).mono fun x hx => ⟨h.1, hx⟩).map
    · exact h

private theorem gather_root_keeps (htr : tr.Sound) (i : (Nat → UInt8) × Bytes) :
    (gatherWatched tr i).Keeps false false gatherAllowed
      fun c w => c.root = true ∧ c.participants.Nodup ∧ Clean w where
  probe := nofun
  receive := nofun
  send := nofun
  sendrecv {sendbuff recvbuff recvsize c w} h ho := by
    change Safe _ _ (if c.root then _ else _)
    rw [if_pos h.1]
    refine (GatherGeneric.store_safe ..).bind fun buff _ => ?_
    exact ((GatherGeneric.receiveLoop_alive htr i.1 recvsize h.2.1 ⟨h.2.2, ho h.1⟩).mono fun x hx =>
      ⟨h.1, h.2.1, hx⟩).map
  close {wr rd wr' c w} h ho :=
    ((closeAll_alive htr h.2.1 ⟨h.2.2, ho h.1⟩).mono fun x hx => ⟨h.1, h.2.1, hx⟩).map

private theorem gather_member_keeps (htr : tr.Sound) (i : (Nat → UInt8) × Bytes) :
    (gatherWatched tr i).Keeps false false gatherAllowed fun c w => c.root = false ∧ AllOpen c.participants w where
  probe := nofun
  receive := nofun
  send := nofun
  sendrecv {sendbuff recvbuff recvsize c w} h _ := by
    change Safe _ _ (if c.root then _ else _)
    rw [if_neg (by simp [h.1])]
    exact (((GatherGeneric.sendLoop_open htr c.rank sendbuff (fun _ hj => hj) h.2).mono fun x hx => ⟨h.1, hx⟩).map).map
  close {wr rd wr' c w} h _ := ((closeAll_open htr (fun _ hj => hj) h.2).mono fun x hx => ⟨h.1, hx⟩).map

end

/-- A context has been made over participants that are open, and nothing has been done yet. -/
structure Begins (type : HandleType) (root : Bool) (coll : C) (ps : List Nat)
    (s : CollectiveContext C × (Objects T × Lifetimes)) : Prop where
  context : CollectiveContext.createContext type root coll = some s.1
  lifetimes : s.2.2 = {}
  nodup : ps.Nodup
  participants : ∀ h ∈ ps, Open h s.2

private theorem Begins.allOpen {type : HandleType} {root : Bool} {coll : C} {ps : List Nat}
    {s : CollectiveContext C × (Objects T × Lifetimes)} (h : Begins type root coll ps s) : AllOpen ps s.2 := by
  refine ⟨⟨?_, ?_, ?_⟩, h.participants⟩ <;> rw [h.lifetimes]
  · exact List.nodup_nil
  · exact nofun

/-- The lifetime of the participants.  In every run of operations on a context, over any transport and with whatever the
participants send, no operation uses a participant that has been deleted, no deleted participant is written, and none is
deleted twice: for a fan-in, the root of a broadcast or a fan-out and the members of a gather without any condition, and
for the others as long as all their operations are allowed. -/
theorem lifetimes_sound {T : Type} {tr : Transport T} (htr : tr.Sound) (root : Bool) (ps : List Nat) :
    (∀ {s : CollectiveContext (BroadcastGeneric Nat) × (Objects T × Lifetimes)},
      Runs.Reach (Begins .BROADCAST root { participants := ps, root := root } ps)
        (ContextStep (fun _ : Unit => broadcastWatched tr) (broadcastAllowed tr)) s →
      UsesNoDeleted (fun _ : Unit => broadcastWatched tr) (broadcastAllowed tr) s) ∧
    (∀ {s : CollectiveContext (FanInGeneric Nat) × (Objects T × Lifetimes)},
      Runs.Reach (Begins .FANIN root { participants := ps, root := root } ps)
        (ContextStep (fanInWatched tr) fun _ _ _ => True) s → UsesNoDeleted (fanInWatched tr) (fun _ _ _ => True) s) ∧
    (∀ {s : CollectiveContext (FanOutGeneric Nat) × (Objects T × Lifetimes)},
      Runs.Reach (Begins .FANOUT root { participants := ps, root := root } ps)
        (ContextStep (fanOutWatched tr) (fanOutAllowed tr)) s → UsesNoDeleted (fanOutWatched tr) (fanOutAllowed tr) s) ∧
    ∀ (rank : Nat) {s : CollectiveContext (GatherGeneric Nat) × (Objects T × Lifetimes)},
      Runs.Reach (Begins .GATHER root { participants := ps, root := root, rank := rank } ps)
        (ContextStep (gatherWatched tr) gatherAllowed) s → UsesNoDeleted (gatherWatched tr) gatherAllowed s := by
  refine ⟨fun hs => ?_, fun hs => ?_, fun hs => ?_, fun rank s hs => ?_⟩
  · cases root with
    | true =>
      refine Collective.Keeps.run (fun _ => broadcast_root_keeps htr) (fun h t => ⟨h.1, h.2.transport t⟩)
        (fun h => h.2.1) (fun s h => ?_) hs
      have hctx := Option.some.inj h.context
      rw [← hctx]
      exact ⟨⟨rfl, rfl, rfl⟩, rfl, h.allOpen⟩
    | false =>
      refine Collective.Keeps.run (fun _ => broadcast_member_keeps htr)
        (fun h t => ⟨h.1, (unchanged_transport _ t).clean h.2⟩) (fun h => h.2) (fun s h => ?_) hs
      have hctx := Option.some.inj h.context
      rw [← hctx]
      exact ⟨⟨rfl, rfl, rfl⟩, rfl, h.allOpen.1⟩
  · cases root with
    | true =>
      refine Collective.Keeps.run (fanIn_root_keeps htr)
        (fun h t => ⟨h.1, h.2.1, (unchanged_transport _ t).allAlive h.2.2⟩) (fun h => h.2.2.1) (fun s h => ?_) hs
      have hctx := Option.some.inj h.context
      rw [← hctx]
      exact ⟨⟨rfl, rfl, rfl⟩, rfl, h.nodup, h.allOpen.1, fun j hj => (h.participants j hj).1⟩
    | false =>
      refine Collective.Keeps.run (fanIn_worker_keeps htr) (fun h t => ⟨h.1, h.2.transport t⟩) (fun h => h.2.1)
        (fun s h => ?_) hs
      have hctx := Option.some.inj h.context
      rw [← hctx]
      exact ⟨⟨rfl, rfl, rfl⟩, rfl, h.allOpen⟩
  · refine Collective.Keeps.run (fanOut_keeps htr root) (fun h t => ⟨h.1, h.2.transport t⟩) (fun h => h.2.1)
      (fun s h => ?_) hs
    have hctx := Option.some.inj h.context
    rw [← hctx]
    exact ⟨⟨rfl, rfl, rfl⟩, rfl, h.allOpen⟩
  · cases root with
    | true =>
      refine Collective.Keeps.run (gather_root_keeps htr)
        (fun h t => ⟨h.1, h.2.1, (unchanged_transport _ t).clean h.2.2⟩) (fun h => h.2.2) (fun s h => ?_) hs
      have hctx := Option.some.inj h.context
      rw [← hctx]
      exact ⟨⟨rfl, rfl, rfl⟩, rfl, h.nodup, h.allOpen.1⟩
    | false =>
      refine Collective.Keeps.run (gather_member_keeps htr) (fun h t => ⟨h.1, h.2.transport t⟩) (fun h => h.2.1)
        (fun s h => ?_) hs
      have hctx := Option.some.inj h.context
      rw [← hctx]
      exact ⟨⟨rfl, rfl, rfl⟩, rfl, h.allOpen⟩

/-- A transport with one header after the other. -/
def headers : Transport (List (Ret × Nat)) where
  probe
    | _, _, _, (r, n) :: t => .ok (r, n, t)
    | _, size, blocking, [] => if blocking then .error .blocked else .ok (.error .EWOULDBLOCK, size, [])
  receive _ n t := .ok (.ok n, List.replicate n 0, t)
  send _ bs t := .ok (.ok bs.length, t)
  sendEOS _ t := .ok t
  notifyClose _ _ _ t := .ok t
  notifyYield _ t := .ok t

theorem headers_sound : headers.Sound where
  probe
    | _, _, _, _ :: _ => nofun
    | _, _, true, [] => nofun
    | _, _, false, [] => nofun
  receive := nofun
  send := nofun
  sendEOS := nofun
  notifyClose := nofun

/-- A member of a broadcast whose connection is lost closes the deleted handle in the same call; a worker of a
fan-out that finds EOS writes to the deleted handle; the root of a gather that calls again when a connection has
been lost reads the deleted handle. -/
theorem lifetimes_violated :
    (∃ s, Begins .BROADCAST false { participants := [0], root := false } [0] s ∧
      teamUser.sendrecv (BroadcastGeneric.sendrecv (watched headers) [] 5) s = .error .useAfterFree) ∧
    (∃ s, Begins .FANOUT false { participants := [0], root := false } [0] s ∧
      teamUser.probe (fun _ => contextHandle (fanOutGeneric (watched headers) .EINVAL)) 0 true s =
        .error .useAfterFree) ∧
    ∃ s s', Begins .GATHER true { participants := [0], root := true, rank := 0 } [0] s ∧
      teamUser.sendrecv (GatherGeneric.sendrecv (watched headers) (fun _ => 0) [1] [0, 0] 1) s =
        .ok (.ok 0, [1, 0], s') ∧
      teamUser.sendrecv (GatherGeneric.sendrecv (watched headers) (fun _ => 0) [1] [0, 0] 1) s' =
        .error .useAfterFree := by
  have hopen : ∀ t : List (Ret × Nat), ∀ h ∈ [0], Open h (({ allocated := 1, transport := t } : Objects _), {}) := by
    intro t h hh
    rw [List.mem_singleton.1 hh]
    exact ⟨⟨Nat.zero_lt_one, rfl⟩, rfl⟩
  refine ⟨⟨(_, ({ allocated := 1, transport := [(.ok 0, 0)] }, {})), ⟨rfl, rfl, List.nodup_singleton 0, hopen _⟩, rfl⟩,
    ⟨(_, ({ allocated := 1, transport := [(.ok 8, 0)] }, {})), ⟨rfl, rfl, List.nodup_singleton 0, hopen _⟩, rfl⟩,
    (_, ({ allocated := 1, transport := [(.ok 0, 0)] }, {})), _, ⟨rfl, rfl, List.nodup_singleton 0, hopen _⟩, rfl, rfl⟩

/-- A member of a broadcast that receives EOS. -/
theorem lifetimes_sound_run : ∃ s : CollectiveContext (BroadcastGeneric Nat) × (Objects (List (Ret × Nat)) × Lifetimes),
    s.2.2.deletions = [0] ∧ UsesNoDeleted (fun _ : Unit => broadcastWatched headers) (broadcastAllowed headers) s := by
  let c : CollectiveContext (BroadcastGeneric Nat) := .mk' false false { participants := [0], root := false }
  let s : CollectiveContext (BroadcastGeneric Nat) × (Objects (List (Ret × Nat)) × Lifetimes) :=
    (c, ({ allocated := 1, transport := [(.ok 8, 0)] }, {}))
  have h0 : Begins .BROADCAST false { participants := [0], root := false } [0] s := by
    refine ⟨rfl, rfl, List.nodup_singleton 0, fun h hh => ?_⟩
    rw [List.mem_singleton.1 hh]
    exact ⟨⟨Nat.zero_lt_one, rfl⟩, rfl⟩
  have hstep := @ContextStep.call _ _ _ (fun _ : Unit => broadcastWatched headers) (broadcastAllowed headers) ()
    (.sendrecv [] [] 5) s _ (by
      intro _ h hh
      cases hh
      refine ⟨⟨Nat.zero_lt_one, rfl⟩, ?_⟩
      rintro ⟨-, -, r, size, t, he, hr⟩
      cases he
      rcases hr with hr | hr | ⟨-, -, hr⟩ <;> cases hr) rfl
  exact ⟨_, rfl, (lifetimes_sound headers_sound false [0]).1 (.next _ (.start h0) hstep)⟩

end Mtcl
