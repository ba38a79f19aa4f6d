import Mtcl.ConnMpi

/-!
# Connections that share channels

Two connections between the same processes with the same tag use the same entry of `connections` and the same channel of
MPI, whoever has made them.  In a run in which `connect` uses a tag only when every earlier connection with it is over
(`Unused`), and no handle that is closed is closed again when its entry belongs to another one, every open handle is
registered, and what is received through a handle is what has been sent through its counterpart.

The invariant has a part about the handles, the requests and `connections` (`Table`), and one about the messages
(`Traffic`).
-/

namespace Mtcl.Mpi

variable {w w' : Mpi} {i j : Nat}

/-- Two handles of one connection. -/
def Counterparts (w : Mpi) (i j : Nat) : Prop :=
  i < w.allocated ∧ j < w.allocated ∧ (w.handles j).initiator = (w.handles i).initiator ∧ j ≠ i

/-- Connections do not share channels: every handle that is open for reading is registered under its rank and
its tag, the counterpart of a handle is at the other end, and what is received through a handle are the first of
the messages that have been sent through its counterpart, the others being on their way while one of the two is
open. -/
structure Private (w : Mpi) : Prop where
  registered : ∀ i < w.allocated, (w.handles i).closedRd = false →
    ∃ b, (w.connections (w.handles i).owner).find? (w.handles i).key = some (i, b)
  opposite : ∀ i j, w.Counterparts i j → (w.handles j).outgoing = (w.handles i).incoming
  unique : ∀ i j k, w.Counterparts i j → w.Counterparts i k → j = k
  received : ∀ i j, w.Counterparts i j → (w.handles j).received <+: (w.handles i).sent
  inFlight : ∀ i j, w.Counterparts i j → (w.handles i).closed = false ∨ (w.handles j).closed = false →
    (w.handles i).sent = (w.handles j).received ++ w.channel (w.handles i).outgoing
  waiting : ∀ i < w.allocated, (∀ j, ¬ w.Counterparts i j) → (w.handles i).received = []

/-- The tag is not in use between two processes: every handle with it is closed, no request with it is on its
way, and no message with it is left. -/
structure Unused (w : Mpi) (p q tag : Nat) : Prop where
  apart : p ≠ q
  closed : ∀ i < w.allocated, (w.handles i).outgoing = (p, q, tag) ∨ (w.handles i).outgoing = (q, p, tag) →
    (w.handles i).closed = true
  requests : ∀ c, (tag, c) ∉ w.requests (p, q) ∧ (tag, c) ∉ w.requests (q, p)
  channel : w.channel (p, q, tag) = [] ∧ w.channel (q, p, tag) = []

/-- `connect` chooses a tag that is not in use, and `close` of a handle that is closed does not take an entry
from another one. -/
def Careful (w : Mpi) : Op → Prop
  | .connect p dest => ∀ rank tag, mpiAddress dest = .ok (some (rank, tag)) → w.Unused p rank tag
  | .close i _ _ => (w.handles i).closed = true →
    ∀ j < w.allocated, j ≠ i → (w.handles j).outgoing = (w.handles i).outgoing → (w.handles j).closedRd = true
  | _ => True

/-! ### The invariant -/

/-- The connection that has been made by `connect` of the handle `c` is over. -/
def Over (w : Mpi) (c : Nat) : Prop :=
  (∀ i < w.allocated, (w.handles i).initiator = c → (w.handles i).closed = true) ∧ ∀ l tag, (tag, c) ∉ w.requests l

/-- Two handles use the same messages. -/
def Shares (h h' : HandleMPI) : Prop := h'.outgoing = h.outgoing ∨ h'.outgoing = h.incoming

private theorem ends_comm {h h' : HandleMPI} (he : h.outgoing = h'.incoming) : h'.outgoing = h.incoming := by
  cases h
  cases h'
  cases he
  rfl

private theorem ends_injective {h h' : HandleMPI} (he : h.incoming = h'.incoming) : h.outgoing = h'.outgoing := by
  cases h
  cases h'
  cases he
  rfl

/-- The handles, the requests and `connections`. -/
structure Table (w : Mpi) : Prop where
  apart : ∀ i < w.allocated, (w.handles i).owner ≠ (w.handles i).rank
  bound : ∀ i < w.allocated, (w.handles i).initiator < w.allocated
  opposite : ∀ i j, w.Counterparts i j → (w.handles j).outgoing = (w.handles i).incoming
  request : ∀ p q tag c, (tag, c) ∈ w.requests (p, q) →
    c < w.allocated ∧ (w.handles c).initiator = c ∧ (w.handles c).outgoing = (p, q, tag) ∧ ∀ j, ¬ w.Counterparts c j
  once : ∀ l, (w.requests l).Nodup
  entry : ∀ p k i b, (w.connections p).find? k = some (i, b) →
    i < w.allocated ∧ (w.handles i).owner = p ∧ (w.handles i).key = k ∧ (w.handles i).closedRd = false
  registered : ∀ i < w.allocated, (w.handles i).closedRd = false →
    ∃ b, (w.connections (w.handles i).owner).find? (w.handles i).key = some (i, b)
  ended : ∀ i < w.allocated, ∀ j < w.allocated, (w.handles i).initiator ≠ (w.handles j).initiator →
    Shares (w.handles i) (w.handles j) → w.Over (w.handles i).initiator ∨ w.Over (w.handles j).initiator
  waiting : ∀ i < w.allocated, (∀ j, ¬ w.Counterparts i j) →
    ((w.handles i).tag, i) ∈ w.requests ((w.handles i).owner, (w.handles i).rank)

/-- The messages. -/
structure Traffic (w : Mpi) : Prop where
  request : ∀ p q tag c, (tag, c) ∈ w.requests (p, q) →
    (w.handles c).sent = w.channel (p, q, tag) ∧ (w.handles c).received = [] ∧ w.channel (q, p, tag) = []
  received : ∀ i j, w.Counterparts i j → (w.handles j).received <+: (w.handles i).sent
  inFlight : ∀ i j, w.Counterparts i j → ¬ w.Over (w.handles i).initiator →
    (w.handles i).sent = (w.handles j).received ++ w.channel (w.handles i).outgoing

theorem not_over_of_open (hi : i < w.allocated) (h : (w.handles i).closed = false) :
    ¬ w.Over (w.handles i).initiator := by
  intro ho
  rw [ho.1 i hi rfl] at h
  cases h

/-- What connections promise follows from the invariant. -/
theorem Table.private (ht : w.Table) (hm : w.Traffic) : w.Private where
  registered := ht.registered
  opposite := ht.opposite
  unique := by
    intro i j k hij hik
    by_contra hne
    have hjk : w.Counterparts j k := ⟨hij.2.1, hik.2.1, hik.2.2.1.trans hij.2.2.1.symm, Ne.symm hne⟩
    -- the three would be at the ends of one another
    have h1 : (w.handles j).owner = (w.handles i).rank := congrArg Prod.fst (ht.opposite i j hij)
    have h2 : (w.handles k).owner = (w.handles i).rank := congrArg Prod.fst (ht.opposite i k hik)
    have h3 : (w.handles k).owner = (w.handles j).rank := congrArg Prod.fst (ht.opposite j k hjk)
    exact ht.apart j hij.2.1 (h1.trans (h2.symm.trans h3))
  received := hm.received
  inFlight := by
    intro i j hij hopen
    refine hm.inFlight i j hij ?_
    rcases hopen with h | h
    · exact not_over_of_open hij.1 h
    · rw [← hij.2.2.1]
      exact not_over_of_open hij.2.1 h
  waiting := by
    intro i hi hnone
    exact (hm.request _ _ _ _ (ht.waiting i hi hnone)).2.1

theorem Starts.table (h : w.Starts) : w.Table := by
  obtain ⟨size, rfl⟩ := h
  constructor
  all_goals first
    | exact fun _ => List.nodup_nil
    | intro _ _ _ _ hm; cases hm
    | intro _ hi; exact absurd hi (Nat.not_lt_zero _)
    | intro _ _ hij; exact absurd hij.1 (Nat.not_lt_zero _)

theorem Starts.traffic (h : w.Starts) : w.Traffic := by
  obtain ⟨size, rfl⟩ := h
  constructor
  · intro _ _ _ _ hm
    cases hm
  · intro _ _ hij
    exact absurd hij.1 (Nat.not_lt_zero _)
  · intro _ _ hij
    exact absurd hij.1 (Nat.not_lt_zero _)

/-! ### Messages -/

/-- The state without the messages. -/
private def still (w : Mpi) : Mpi :=
  { w with
    handles := fun i => { w.handles i with sent := [], received := [] }
    handleReady := fun _ => []
    channel := fun _ => [] }

private theorem table_still : w.still.Table ↔ w.Table :=
  ⟨fun h => ⟨h.1, h.2, h.3, h.4, h.5, h.6, h.7, h.8, h.9⟩, fun h => ⟨h.1, h.2, h.3, h.4, h.5, h.6, h.7, h.8, h.9⟩⟩

private theorem table_congr (h : w'.still = w.still) : w'.Table ↔ w.Table := by
  rw [← table_still, h, table_still]

private theorem over_congr (h : w'.still = w.still) {c : Nat} : w'.Over c ↔ w.Over c := by
  show w'.still.Over c ↔ w.still.Over c
  rw [h]

private theorem counterparts_congr (h : w'.still = w.still) : w'.Counterparts i j ↔ w.Counterparts i j := by
  show w'.still.Counterparts i j ↔ w.still.Counterparts i j
  rw [h]

private theorem push_handles (msg : Bytes) (k : Nat) :
    (w.push i msg).handles k =
      { w.handles k with sent := if k = i then (w.handles k).sent ++ [msg] else (w.handles k).sent } := by
  show Function.update w.handles i { w.handles i with sent := (w.handles i).sent ++ [msg] } k = _
  by_cases hk : k = i
  · subst hk
    rw [Function.update_self, if_pos rfl]
  · rw [Function.update_of_ne hk, if_neg hk]

private theorem push_channel (msg : Bytes) (l : Nat × Nat × Nat) :
    (w.push i msg).channel l = if l = (w.handles i).outgoing then w.channel l ++ [msg] else w.channel l := by
  show Function.update w.channel (w.handles i).outgoing (w.channel (w.handles i).outgoing ++ [msg]) l = _
  by_cases hl : l = (w.handles i).outgoing
  · subst hl
    rw [Function.update_self, if_pos rfl]
  · rw [Function.update_of_ne hl, if_neg hl]

private theorem still_push (msg : Bytes) : (w.push i msg).still = w.still := by
  unfold still
  congr 1
  funext k
  rw [push_handles]

namespace Table

/-- The end of a connection that is not over shares its messages with no other connection. -/
theorem shares_initiator (ht : w.Table) (hi : i < w.allocated) (hj : j < w.allocated)
    (hoi : ¬ w.Over (w.handles i).initiator) (hoj : ¬ w.Over (w.handles j).initiator)
    (hs : Shares (w.handles i) (w.handles j)) : (w.handles i).initiator = (w.handles j).initiator := by
  by_contra hne
  rcases ht.ended i hi j hj hne hs with h | h
  · exact hoi h
  · exact hoj h

private theorem outgoing_ne_incoming (ht : w.Table) (hi : i < w.allocated) :
    (w.handles i).outgoing ≠ (w.handles i).incoming :=
  fun h => ht.apart i hi (congrArg Prod.fst h)

/-- Two handles of connections that are not over send to different channels. -/
theorem outgoing_injective (ht : w.Table) (hi : i < w.allocated) (hj : j < w.allocated)
    (hoi : ¬ w.Over (w.handles i).initiator) (hoj : ¬ w.Over (w.handles j).initiator)
    (h : (w.handles j).outgoing = (w.handles i).outgoing) : j = i := by
  by_contra hne
  have hinit := ht.shares_initiator hi hj hoi hoj (Or.inl h)
  have hc := ht.opposite i j ⟨hi, hj, hinit.symm, hne⟩
  exact ht.outgoing_ne_incoming hi (h.symm.trans hc)

/-- A request that waits is one of a connection that is not over. -/
theorem request_not_over (ht : w.Table) {p q tag c : Nat} (hr : (tag, c) ∈ w.requests (p, q)) :
    ¬ w.Over (w.handles c).initiator := by
  intro ho
  rw [(ht.request p q tag c hr).2.1] at ho
  exact ho.2 _ _ hr

/-- No other open handle uses the messages of a connection that waits to be accepted. -/
theorem request_alone (ht : w.Table) {p q tag c : Nat} (hr : (tag, c) ∈ w.requests (p, q)) (hi : i < w.allocated)
    (ho : ¬ w.Over (w.handles i).initiator) (hs : Shares (w.handles c) (w.handles i)) : i = c := by
  obtain ⟨hc, hinit, -, hnone⟩ := ht.request p q tag c hr
  by_contra hne
  exact hnone i ⟨hc, hi, (ht.shares_initiator hc hi (ht.request_not_over hr) ho hs).symm, hne⟩

end Table

/-- Sending through a handle of a connection that is not over. -/
theorem Traffic.push (hm : w.Traffic) (ht : w.Table) (hi : i < w.allocated) (ho : ¬ w.Over (w.handles i).initiator)
    (msg : Bytes) : (w.push i msg).Traffic := by
  have hstill := still_push (w := w) (i := i) msg
  constructor
  · intro p q tag c hr
    obtain ⟨hs, hrec, hback⟩ := hm.request p q tag c hr
    obtain ⟨hc, hinit, hout, hnone⟩ := ht.request p q tag c hr
    rw [push_handles, push_channel, push_channel]
    dsimp only
    have hin : (w.handles c).incoming = (q, p, tag) := by
      cases hout
      rfl
    by_cases hci : c = i
    · subst hci
      have hne : (q, p, tag) ≠ (w.handles c).outgoing := by
        rw [← hin]
        exact Ne.symm (ht.outgoing_ne_incoming hc)
      rw [if_pos rfl, if_pos hout.symm, if_neg hne, hs]
      exact ⟨rfl, hrec, hback⟩
    · have hne : ¬ Shares (w.handles c) (w.handles i) :=
        fun hs => hci (ht.request_alone hr hi ho hs).symm
      rw [if_neg hci, if_neg fun h => hne (Or.inl (h.symm.trans hout.symm)),
        if_neg fun h => hne (Or.inr (h.symm.trans hin.symm))]
      exact ⟨hs, hrec, hback⟩
  · intro k j hkj
    have h := hm.received k j ((counterparts_congr hstill).1 hkj)
    rw [push_handles, push_handles]
    dsimp only
    by_cases hk : k = i
    · rw [if_pos hk]
      exact h.trans (List.prefix_append _ _)
    · rw [if_neg hk]
      exact h
  · intro k j hkj hok
    have hkj := (counterparts_congr hstill).1 hkj
    rw [push_handles, over_congr hstill] at hok
    have h := hm.inFlight k j hkj hok
    rw [push_handles, push_handles, push_channel]
    show (if k = i then (w.handles k).sent ++ [msg] else (w.handles k).sent) =
      (w.handles j).received ++ if (w.handles k).outgoing = (w.handles i).outgoing then
        w.channel (w.handles k).outgoing ++ [msg] else w.channel (w.handles k).outgoing
    by_cases hk : k = i
    · subst hk
      rw [if_pos rfl, if_pos rfl, h, List.append_assoc]
    · rw [if_neg hk, if_neg fun he => hk (ht.outgoing_injective hi hkj.1 ho hok he)]
      exact h

/-- What `pull` leaves. -/
private def popped (w : Mpi) (j : Nat) (msg : Bytes) (msgs : List Bytes) : Mpi :=
  { w with
    channel := Function.update w.channel (w.handles j).incoming msgs
    handles := Function.update w.handles j { w.handles j with received := (w.handles j).received ++ [msg] } }

private theorem pull_eq_some {msg : Bytes} (h : w.pull j = some (msg, w')) :
    ∃ msgs, w.channel (w.handles j).incoming = msg :: msgs ∧ w' = w.popped j msg msgs := by
  unfold pull at h
  dsimp only at h
  split at h
  · cases h
  · rename_i m msgs hch
    cases h
    exact ⟨msgs, hch, rfl⟩

private theorem popped_handles (msg : Bytes) (msgs : List Bytes) (k : Nat) :
    (w.popped j msg msgs).handles k =
      { w.handles k with
        received := if k = j then (w.handles k).received ++ [msg] else (w.handles k).received } := by
  show Function.update w.handles j { w.handles j with received := (w.handles j).received ++ [msg] } k = _
  by_cases hk : k = j
  · subst hk
    rw [Function.update_self, if_pos rfl]
  · rw [Function.update_of_ne hk, if_neg hk]

private theorem popped_channel (msg : Bytes) (msgs : List Bytes) (l : Nat × Nat × Nat) :
    (w.popped j msg msgs).channel l = if l = (w.handles j).incoming then msgs else w.channel l := by
  show Function.update w.channel (w.handles j).incoming msgs l = _
  by_cases hl : l = (w.handles j).incoming
  · subst hl
    rw [Function.update_self, if_pos rfl]
  · rw [Function.update_of_ne hl, if_neg hl]

private theorem still_popped (msg : Bytes) (msgs : List Bytes) : (w.popped j msg msgs).still = w.still := by
  unfold still
  congr 1
  funext k
  rw [popped_handles]

/-- Receiving through a handle of a connection that is not over. -/
private theorem Traffic.popped (hm : w.Traffic) (ht : w.Table) (hj : j < w.allocated)
    (ho : ¬ w.Over (w.handles j).initiator) {msg : Bytes} {msgs : List Bytes}
    (hch : w.channel (w.handles j).incoming = msg :: msgs) : (w.popped j msg msgs).Traffic := by
  have hstill := still_popped (w := w) (j := j) msg msgs
  -- only the counterpart sends to the channel
  have hsender : ∀ k l, w.Counterparts k l → ¬ w.Over (w.handles k).initiator →
      (w.handles k).outgoing = (w.handles j).incoming → l = j := by
    intro k l hkl hok he
    have hinit := ht.shares_initiator hj hkl.1 ho hok (Or.inr he)
    have hne : k ≠ j := by
      rintro rfl
      exact ht.outgoing_ne_incoming hj he
    exact (ht.private hm).unique k l j hkl ⟨hkl.1, hj, hinit, Ne.symm hne⟩
  constructor
  · intro p q tag c hr
    obtain ⟨hs, hrec, hback⟩ := hm.request p q tag c hr
    obtain ⟨hc, hinit, hout, hnone⟩ := ht.request p q tag c hr
    have hin : (w.handles c).incoming = (q, p, tag) := by
      cases hout
      rfl
    have hcj : c ≠ j := by
      rintro rfl
      rw [hin, hback] at hch
      cases hch
    have hne : ∀ l, l = (w.handles c).outgoing ∨ l = (w.handles c).incoming → l ≠ (w.handles j).incoming := by
      intro l hl he
      have hs : Shares (w.handles c) (w.handles j) := by
        rcases hl with hl | hl
        · exact Or.inr (ends_comm (hl.symm.trans he))
        · exact Or.inl (ends_injective (hl.symm.trans he)).symm
      exact hcj (ht.request_alone hr hj ho hs).symm
    rw [popped_handles, popped_channel, popped_channel]
    dsimp only
    rw [if_neg hcj, if_neg (hne _ (Or.inl hout.symm)), if_neg (hne _ (Or.inr hin.symm))]
    exact ⟨hs, hrec, hback⟩
  · intro k l hkl'
    have hkl := (counterparts_congr hstill).1 hkl'
    have h := hm.received k l hkl
    rw [popped_handles, popped_handles]
    dsimp only
    by_cases hl : l = j
    · subst hl
      have hok : ¬ w.Over (w.handles k).initiator := by
        rw [← hkl.2.2.1]
        exact ho
      have hout : (w.handles k).outgoing = (w.handles l).incoming :=
        ht.opposite l k ⟨hkl.2.1, hkl.1, hkl.2.2.1.symm, Ne.symm hkl.2.2.2⟩
      rw [if_pos rfl, hm.inFlight k l hkl hok, hout, hch]
      exact ⟨msgs, List.append_assoc ..⟩
    · rw [if_neg hl]
      exact h
  · intro k l hkl' hok
    have hkl := (counterparts_congr hstill).1 hkl'
    rw [popped_handles, over_congr hstill] at hok
    have h := hm.inFlight k l hkl hok
    rw [popped_handles, popped_handles, popped_channel]
    show (w.handles k).sent =
      (if l = j then (w.handles l).received ++ [msg] else (w.handles l).received) ++
        if (w.handles k).outgoing = (w.handles j).incoming then msgs else w.channel (w.handles k).outgoing
    by_cases hout : (w.handles k).outgoing = (w.handles j).incoming
    · rw [if_pos (hsender k l hkl hok hout), if_pos hout, h, hout, hch, ← List.append_cons]
    · have hl : l ≠ j := by
        rintro rfl
        exact hout (ht.opposite l k ⟨hkl.2.1, hkl.1, hkl.2.2.1.symm, Ne.symm hkl.2.2.2⟩)
      rw [if_neg hl, if_neg hout]
      exact h

/-! ### New handles -/

section

variable {R : Nat × Nat → List (Nat × Nat)} {h : HandleMPI} {k : Nat}

/-- A new handle, and other requests. -/
private def added (w : Mpi) (R : Nat × Nat → List (Nat × Nat)) (h : HandleMPI) : Mpi :=
  { w with requests := R }.newHandle h

private theorem added_handles_of_lt (hk : k < w.allocated) : (w.added R h).handles k = w.handles k :=
  Function.update_of_ne (Nat.ne_of_lt hk) ..

private theorem added_handles_self : (w.added R h).handles w.allocated = h := Function.update_self ..

private theorem lt_added (hk : k < (w.added R h).allocated) : k < w.allocated ∨ k = w.allocated :=
  Nat.lt_succ_iff_lt_or_eq.1 hk

private theorem counterparts_added (hi : i < w.allocated) (hj : j < w.allocated) :
    (w.added R h).Counterparts i j ↔ w.Counterparts i j := by
  unfold Counterparts
  rw [added_handles_of_lt hi, added_handles_of_lt hj]
  constructor
  · rintro ⟨-, -, hc⟩
    exact ⟨hi, hj, hc⟩
  · rintro ⟨-, -, hc⟩
    exact ⟨Nat.lt_succ_of_lt hi, Nat.lt_succ_of_lt hj, hc⟩

private theorem added_find? (hnone : (w.connections h.owner).find? h.key = none) (p : Nat) (k : Nat ×ₗ Nat) :
    ((w.added R h).connections p).find? k =
      if p = h.owner ∧ k = h.key then some (w.allocated, false) else (w.connections p).find? k := by
  show (Function.update w.connections h.owner (register (w.connections h.owner) h.key w.allocated) p).find? k = _
  by_cases hp : p = h.owner
  · subst hp
    rw [Function.update_self]
    unfold register
    rw [hnone, if_neg (by simp), OrdMap.find?_insert]
    by_cases hk : k = h.key
    · rw [if_pos hk, if_pos ⟨rfl, hk⟩]
    · rw [if_neg hk, if_neg fun h => hk h.2]
  · rw [Function.update_of_ne hp, if_neg fun h => hp h.1]

private theorem added_entry (ht : w.Table) (hopen : h.closedRd = false)
    (hnone : (w.connections h.owner).find? h.key = none) :
    ∀ p k i b, ((w.added R h).connections p).find? k = some (i, b) →
      i < (w.added R h).allocated ∧ ((w.added R h).handles i).owner = p ∧ ((w.added R h).handles i).key = k ∧
        ((w.added R h).handles i).closedRd = false := by
  intro p k i b he
  rw [added_find? hnone] at he
  by_cases hp : p = h.owner ∧ k = h.key
  · rw [if_pos hp] at he
    cases he
    rw [added_handles_self, hp.1, hp.2]
    exact ⟨Nat.lt_succ_self _, rfl, rfl, hopen⟩
  · rw [if_neg hp] at he
    obtain ⟨hi, h1, h2, h3⟩ := ht.entry p k i b he
    rw [added_handles_of_lt hi]
    exact ⟨Nat.lt_succ_of_lt hi, h1, h2, h3⟩

private theorem added_registered (ht : w.Table) (hnone : (w.connections h.owner).find? h.key = none) :
    ∀ i < (w.added R h).allocated, ((w.added R h).handles i).closedRd = false →
      ∃ b, ((w.added R h).connections ((w.added R h).handles i).owner).find? ((w.added R h).handles i).key =
        some (i, b) := by
  intro i hi hrd
  rcases lt_added hi with hi | rfl
  · rw [added_handles_of_lt hi] at hrd ⊢
    obtain ⟨b, hb⟩ := ht.registered i hi hrd
    rw [added_find? hnone, if_neg, hb]
    · exact ⟨b, rfl⟩
    · rintro ⟨ho, hk⟩
      rw [ho, hk, hnone] at hb
      cases hb
  · rw [added_handles_self, added_find? hnone, if_pos ⟨rfl, rfl⟩]
    exact ⟨false, rfl⟩

end

/-! ### Connecting -/

section

variable {p q tag : Nat}

/-- What `connect` leaves when it has sent its request. -/
private def requested (w : Mpi) (p q tag : Nat) : Mpi :=
  w.added (Function.update w.requests (p, q) (w.requests (p, q) ++ [(tag, w.allocated)]))
    { owner := p, rank := q, tag := tag, initiator := w.allocated }

private theorem connect_cases {dest : Bytes} (h : (w.connect p dest).map Prod.snd = .ok w') :
    w' = w ∨ ∃ q tag, mpiAddress dest = .ok (some (q, tag)) ∧ w' = w.requested p q tag := by
  unfold connect at h
  cases ha : mpiAddress dest with
  | error e =>
    rw [ha] at h
    cases h
  | ok a =>
    rw [ha] at h
    cases a with
    | none =>
      cases h
      exact Or.inl rfl
    | some a =>
      obtain ⟨q, tag⟩ := a
      rw [bind_ok] at h
      dsimp only at h
      split at h
      · cases h
        exact Or.inl rfl
      · cases h
        exact Or.inr ⟨q, tag, rfl, rfl⟩

/-- Every connection with an unused tag is over. -/
private theorem Unused.ended (hu : w.Unused p q tag) (ht : w.Table) (hj : j < w.allocated)
    (he : (w.handles j).outgoing = (p, q, tag) ∨ (w.handles j).outgoing = (q, p, tag)) :
    w.Over (w.handles j).initiator := by
  -- the handles of the connection are at its ends
  have hends : ∀ i < w.allocated, (w.handles i).initiator = (w.handles j).initiator →
      (w.handles i).outgoing = (p, q, tag) ∨ (w.handles i).outgoing = (q, p, tag) := by
    intro i hi hinit
    by_cases hij : i = j
    · rw [hij]
      exact he
    · rw [ht.opposite j i ⟨hj, hi, hinit, hij⟩]
      rcases he with he | he
      · right
        cases he
        rfl
      · left
        cases he
        rfl
  refine ⟨fun i hi hinit => hu.closed i hi (hends i hi hinit), ?_⟩
  rintro ⟨p', q'⟩ tag' hr
  obtain ⟨hc, hinit, hout, -⟩ := ht.request p' q' tag' _ hr
  rcases hends _ hc hinit with h | h
  · rw [hout] at h
    cases h
    exact (hu.requests _).1 hr
  · rw [hout] at h
    cases h
    exact (hu.requests _).2 hr

private theorem Unused.find?_none (hu : w.Unused p q tag) (ht : w.Table) :
    (w.connections p).find? (toLex (q, tag)) = none := by
  by_contra hne
  obtain ⟨⟨i, b⟩, he⟩ := Option.ne_none_iff_exists'.1 hne
  obtain ⟨hi, howner, hkey, hrd⟩ := ht.entry p _ i b he
  have hout : (w.handles i).outgoing = (p, q, tag) := by
    have h1 : (w.handles i).rank = q := congrArg (fun k => (ofLex k).1) hkey
    have h2 : (w.handles i).tag = tag := congrArg (fun k => (ofLex k).2) hkey
    show ((w.handles i).owner, (w.handles i).rank, (w.handles i).tag) = _
    rw [howner, h1, h2]
  have hclosed := hu.closed i hi (Or.inl hout)
  unfold HandleMPI.closed at hclosed
  rw [hrd] at hclosed
  cases hclosed

private theorem mem_requested {l : Nat × Nat} {t c : Nat} (h : (t, c) ∈ (w.requested p q tag).requests l) :
    (t, c) ∈ w.requests l ∨ l = (p, q) ∧ t = tag ∧ c = w.allocated := by
  change (t, c) ∈ Function.update w.requests (p, q) (w.requests (p, q) ++ [(tag, w.allocated)]) l at h
  by_cases hl : l = (p, q)
  · subst hl
    rw [Function.update_self] at h
    rcases List.mem_append.1 h with h | h
    · exact Or.inl h
    · cases List.mem_singleton.1 h
      exact Or.inr ⟨rfl, rfl, rfl⟩
  · rw [Function.update_of_ne hl] at h
    exact Or.inl h

private theorem requested_mem {l : Nat × Nat} {t c : Nat} (h : (t, c) ∈ w.requests l) :
    (t, c) ∈ (w.requested p q tag).requests l := by
  show (t, c) ∈ Function.update w.requests (p, q) (w.requests (p, q) ++ [(tag, w.allocated)]) l
  by_cases hl : l = (p, q)
  · subst hl
    rw [Function.update_self]
    exact List.mem_append_left _ h
  · rw [Function.update_of_ne hl]
    exact h

private theorem requested_self : (tag, w.allocated) ∈ (w.requested p q tag).requests (p, q) := by
  show _ ∈ Function.update w.requests (p, q) (w.requests (p, q) ++ [(tag, w.allocated)]) (p, q)
  rw [Function.update_self]
  exact List.mem_append_right _ (List.mem_singleton.2 rfl)

private theorem over_requested {c : Nat} (hc : c < w.allocated) : (w.requested p q tag).Over c ↔ w.Over c := by
  constructor
  · rintro ⟨h1, h2⟩
    refine ⟨fun i hi hinit => ?_, fun l t hr => h2 l t (requested_mem hr)⟩
    have h := h1 i (Nat.lt_succ_of_lt hi)
    unfold requested at h
    rw [added_handles_of_lt hi] at h
    exact h hinit
  · rintro ⟨h1, h2⟩
    constructor
    · intro i hi hinit
      unfold requested at hi hinit ⊢
      rcases lt_added hi with hi | rfl
      · rw [added_handles_of_lt hi] at hinit ⊢
        exact h1 i hi hinit
      · rw [added_handles_self] at hinit
        exact absurd hinit.symm (Nat.ne_of_lt hc)
    · intro l t hr
      rcases mem_requested hr with hr | ⟨-, -, rfl⟩
      · exact h2 l t hr
      · exact absurd hc (Nat.lt_irrefl _)

private theorem requested_alone (ht : w.Table) {i j : Nat} (hij : (w.requested p q tag).Counterparts i j) :
    i < w.allocated ∧ j < w.allocated := by
  obtain ⟨hi, hj, hinit, hne⟩ := hij
  unfold requested at hi hj hinit
  rcases lt_added hi with hi | rfl <;> rcases lt_added hj with hj | rfl
  · exact ⟨hi, hj⟩
  · rw [added_handles_of_lt hi, added_handles_self] at hinit
    exact absurd hinit.symm (Nat.ne_of_lt (ht.bound i hi))
  · rw [added_handles_of_lt hj, added_handles_self] at hinit
    exact absurd hinit (Nat.ne_of_lt (ht.bound j hj))
  · exact absurd rfl hne

private theorem Table.requested (ht : w.Table) (hu : w.Unused p q tag) : (w.requested p q tag).Table where
  apart := by
    intro i hi
    unfold Mpi.requested at hi ⊢
    rcases lt_added hi with hi | rfl
    · rw [added_handles_of_lt hi]
      exact ht.apart i hi
    · rw [added_handles_self]
      exact hu.apart
  bound := by
    intro i hi
    unfold Mpi.requested at hi ⊢
    rcases lt_added hi with hi | rfl
    · rw [added_handles_of_lt hi]
      exact Nat.lt_succ_of_lt (ht.bound i hi)
    · rw [added_handles_self]
      exact Nat.lt_succ_self _
  opposite := by
    intro i j hij
    obtain ⟨hi, hj⟩ := requested_alone ht hij
    unfold Mpi.requested at hij ⊢
    rw [added_handles_of_lt hi, added_handles_of_lt hj]
    exact ht.opposite i j ((counterparts_added hi hj).1 hij)
  request := by
    intro p' q' t c hr
    rcases mem_requested hr with hr | ⟨hl, rfl, rfl⟩
    · obtain ⟨hc, hinit, hout, hnone⟩ := ht.request p' q' t c hr
      refine ⟨Nat.lt_succ_of_lt hc, ?_, ?_, ?_⟩
      · unfold Mpi.requested
        rw [added_handles_of_lt hc]
        exact hinit
      · unfold Mpi.requested
        rw [added_handles_of_lt hc]
        exact hout
      · intro j hcj
        obtain ⟨-, hj⟩ := requested_alone ht hcj
        exact hnone j ((counterparts_added hc hj).1 hcj)
    · cases hl
      refine ⟨Nat.lt_succ_self _, ?_, ?_, ?_⟩
      · unfold Mpi.requested
        rw [added_handles_self]
      · unfold Mpi.requested
        rw [added_handles_self]
        rfl
      · intro j hcj
        exact absurd (requested_alone ht hcj).1 (Nat.lt_irrefl _)
  once := by
    intro l
    show (Function.update w.requests (p, q) (w.requests (p, q) ++ [(tag, w.allocated)]) l).Nodup
    by_cases hl : l = (p, q)
    · subst hl
      rw [Function.update_self]
      refine List.nodup_append.2 ⟨ht.once _, List.pairwise_singleton _ _, ?_⟩
      rintro ⟨t, c⟩ hr e he rfl
      cases List.mem_singleton.1 he
      exact absurd (ht.request _ _ _ _ hr).1 (Nat.lt_irrefl _)
    · rw [Function.update_of_ne hl]
      exact ht.once l
  entry := added_entry ht rfl (hu.find?_none ht)
  registered := added_registered ht (hu.find?_none ht)
  ended := by
    intro i hi j hj hne hs
    have hself : (w.requested p q tag).handles w.allocated =
        { owner := p, rank := q, tag := tag, initiator := w.allocated } := added_handles_self
    -- the connections with the new tag are over
    have hover : ∀ k < w.allocated, (w.handles k).outgoing = (p, q, tag) ∨ (w.handles k).outgoing = (q, p, tag) →
        (w.requested p q tag).Over (w.handles k).initiator :=
      fun k hk he => (over_requested (ht.bound k hk)).2 (hu.ended ht hk he)
    rcases lt_added hi with hi | rfl <;> rcases lt_added hj with hj | rfl
    · have h1 : (w.requested p q tag).handles i = w.handles i := added_handles_of_lt hi
      have h2 : (w.requested p q tag).handles j = w.handles j := added_handles_of_lt hj
      rw [h1, h2] at hne hs ⊢
      rw [over_requested (ht.bound i hi), over_requested (ht.bound j hj)]
      exact ht.ended i hi j hj hne hs
    · have h1 : (w.requested p q tag).handles i = w.handles i := added_handles_of_lt hi
      rw [h1, hself] at hs
      rw [h1]
      refine Or.inl (hover i hi ?_)
      rcases hs with hs | hs
      · exact Or.inl hs.symm
      · exact Or.inr (ends_comm hs)
    · have h2 : (w.requested p q tag).handles j = w.handles j := added_handles_of_lt hj
      rw [h2, hself] at hs
      rw [h2]
      refine Or.inr (hover j hj ?_)
      exact hs
    · exact absurd rfl hne
  waiting := by
    intro i hi hnone
    rcases lt_added hi with hi | rfl
    · have h1 : (w.requested p q tag).handles i = w.handles i := added_handles_of_lt hi
      rw [h1]
      refine requested_mem (ht.waiting i hi fun j hij => ?_)
      exact hnone j ((counterparts_added hi hij.2.1).2 hij)
    · unfold Mpi.requested
      rw [added_handles_self]
      exact requested_self

private theorem Traffic.requested (hm : w.Traffic) (ht : w.Table) (hu : w.Unused p q tag) :
    (w.requested p q tag).Traffic where
  request := by
    intro p' q' t c hr
    rcases mem_requested hr with hr | ⟨hl, rfl, rfl⟩
    · have hc : (w.requested p q tag).handles c = w.handles c := added_handles_of_lt (ht.request p' q' t c hr).1
      rw [hc]
      exact hm.request p' q' t c hr
    · cases hl
      have hself : (w.requested p q t).handles w.allocated =
          { owner := p, rank := q, tag := t, initiator := w.allocated } := added_handles_self
      rw [hself]
      exact ⟨hu.channel.1.symm, rfl, hu.channel.2⟩
  received := by
    intro i j hij
    obtain ⟨hi, hj⟩ := requested_alone ht hij
    have h1 : (w.requested p q tag).handles i = w.handles i := added_handles_of_lt hi
    have h2 : (w.requested p q tag).handles j = w.handles j := added_handles_of_lt hj
    rw [h1, h2]
    exact hm.received i j ((counterparts_added hi hj).1 hij)
  inFlight := by
    intro i j hij ho
    obtain ⟨hi, hj⟩ := requested_alone ht hij
    have h1 : (w.requested p q tag).handles i = w.handles i := added_handles_of_lt hi
    have h2 : (w.requested p q tag).handles j = w.handles j := added_handles_of_lt hj
    rw [h1, over_requested (ht.bound i hi)] at ho
    rw [h1, h2]
    exact hm.inFlight i j ((counterparts_added hi hj).1 hij) ho

end

/-! ### Accepting -/

section

variable {p source tag c : Nat} {rs : List (Nat × Nat)}

/-- What `accept` leaves, but for the ready queue. -/
private def accepted (w : Mpi) (p source tag c : Nat) (rs : List (Nat × Nat)) : Mpi :=
  w.added (Function.update w.requests (source, p) rs) { owner := p, rank := source, tag := tag, initiator := c }

private theorem accepted_handles_of_lt {k : Nat} (hk : k < w.allocated) :
    (w.accepted p source tag c rs).handles k = w.handles k := added_handles_of_lt hk

private theorem accepted_handles_self : (w.accepted p source tag c rs).handles w.allocated =
    { owner := p, rank := source, tag := tag, initiator := c } := added_handles_self

variable (hr : w.requests (source, p) = (tag, c) :: rs)

include hr

private theorem accepted_request : (tag, c) ∈ w.requests (source, p) := by
  rw [hr]
  exact List.mem_cons_self

private theorem mem_accepted (ht : w.Table) {l : Nat × Nat} {t d : Nat} :
    (t, d) ∈ (w.accepted p source tag c rs).requests l ↔ (t, d) ∈ w.requests l ∧ d ≠ c := by
  have hmem := accepted_request hr
  change (t, d) ∈ Function.update w.requests (source, p) rs l ↔ _
  by_cases hl : l = (source, p)
  · subst hl
    have hn := ht.once (source, p)
    rw [hr] at hn
    obtain ⟨hnot, -⟩ := List.nodup_cons.1 hn
    rw [Function.update_self, hr, List.mem_cons]
    constructor
    · intro hd
      refine ⟨Or.inr hd, ?_⟩
      rintro rfl
      have h1 := (ht.request _ _ _ _ hmem).2.2.1
      have h2 := (ht.request source p t d (by rw [hr]; exact List.mem_cons_of_mem _ hd)).2.2.1
      rw [h1] at h2
      cases h2
      exact hnot hd
    · rintro ⟨hd | hd, hne⟩
      · cases hd
        exact absurd rfl hne
      · exact hd
  · rw [Function.update_of_ne hl]
    refine ⟨fun hd => ⟨hd, ?_⟩, fun hd => hd.1⟩
    rintro rfl
    have h1 := (ht.request _ _ _ _ hmem).2.2.1
    have h2 := (ht.request l.1 l.2 t d hd).2.2.1
    rw [h1] at h2
    cases h2
    exact hl rfl

/-- Two handles of one connection are as before, or they are the one that has asked for it and the new one. -/
private theorem counterparts_accepted (ht : w.Table) {i j : Nat}
    (hij : (w.accepted p source tag c rs).Counterparts i j) :
    i < w.allocated ∧ j < w.allocated ∧ i ≠ c ∧ w.Counterparts i j ∨ i = c ∧ j = w.allocated ∨
      i = w.allocated ∧ j = c := by
  obtain ⟨hc, hinit, -, hnone⟩ := ht.request _ _ _ _ (accepted_request hr)
  -- no other handle belongs to the connection
  have honly : ∀ k < w.allocated, (w.handles k).initiator = c → k = c := by
    intro k hk hkc
    by_contra hne
    exact hnone k ⟨hc, hk, hkc.trans hinit.symm, hne⟩
  obtain ⟨hi, hj, hsame, hne⟩ := hij
  rcases lt_added hi with hi | rfl <;> rcases lt_added hj with hj | rfl
  · have h : w.Counterparts i j := (counterparts_added hi hj).1 ⟨Nat.lt_succ_of_lt hi, Nat.lt_succ_of_lt hj, hsame, hne⟩
    refine Or.inl ⟨hi, hj, ?_, h⟩
    rintro rfl
    exact hnone j h
  · rw [accepted_handles_of_lt hi, accepted_handles_self] at hsame
    exact Or.inr (Or.inl ⟨honly i hi hsame.symm, rfl⟩)
  · rw [accepted_handles_of_lt hj, accepted_handles_self] at hsame
    exact Or.inr (Or.inr ⟨rfl, honly j hj hsame⟩)
  · exact absurd rfl hne

private theorem over_accepted (ht : w.Table) {d : Nat} (hd : d ≠ c) :
    (w.accepted p source tag c rs).Over d ↔ w.Over d := by
  constructor
  · rintro ⟨h1, h2⟩
    refine ⟨fun i hi hinit => ?_, fun l t hm => h2 l t ((mem_accepted hr ht).2 ⟨hm, hd⟩)⟩
    have h := h1 i (Nat.lt_succ_of_lt hi)
    rw [accepted_handles_of_lt hi] at h
    exact h hinit
  · rintro ⟨h1, h2⟩
    refine ⟨fun i hi hinit => ?_, fun l t hm => h2 l t ((mem_accepted hr ht).1 hm).1⟩
    rcases lt_added hi with hi | rfl
    · rw [accepted_handles_of_lt hi] at hinit ⊢
      exact h1 i hi hinit
    · rw [accepted_handles_self] at hinit
      exact absurd hinit.symm hd

private theorem accepted_find?_none (ht : w.Table) : (w.connections p).find? (toLex (source, tag)) = none := by
  have hmem := accepted_request hr
  obtain ⟨hc, -, hout, -⟩ := ht.request _ _ _ _ hmem
  by_contra hne
  obtain ⟨⟨i, b⟩, he⟩ := Option.ne_none_iff_exists'.1 hne
  obtain ⟨hi, howner, hkey, hrd⟩ := ht.entry p _ i b he
  have hopen : (w.handles i).closed = false := by
    unfold HandleMPI.closed
    rw [hrd]
    rfl
  have h1 : (w.handles i).rank = source := congrArg (fun k => (ofLex k).1) hkey
  have h2 : (w.handles i).tag = tag := congrArg (fun k => (ofLex k).2) hkey
  have hin : (w.handles i).incoming = (w.handles c).outgoing := by
    rw [hout, ← h1, ← h2, ← howner]
    rfl
  have hic : i = c := ht.request_alone hmem hi (not_over_of_open hi hopen) (Or.inr (ends_comm hin.symm))
  rw [hic] at hin
  exact ht.outgoing_ne_incoming hc hin.symm

private theorem Table.accepted (ht : w.Table) : (w.accepted p source tag c rs).Table := by
  have hmem := accepted_request hr
  obtain ⟨hc, hinit, hout, hnone⟩ := ht.request _ _ _ _ hmem
  have hends : (w.handles c).owner = source ∧ (w.handles c).rank = p ∧ (w.handles c).tag = tag := by
    cases hout
    exact ⟨rfl, rfl, rfl⟩
  have hnot : ¬ w.Over c := fun ho => ho.2 _ _ hmem
  have hnew : ((w.accepted p source tag c rs).handles w.allocated).outgoing = (w.handles c).incoming := by
    rw [accepted_handles_self]
    show (p, source, tag) = ((w.handles c).rank, (w.handles c).owner, (w.handles c).tag)
    rw [hends.1, hends.2.1, hends.2.2]
  constructor
  · intro i hi
    rcases lt_added hi with hi | rfl
    · rw [accepted_handles_of_lt hi]
      exact ht.apart i hi
    · rw [accepted_handles_self]
      have h := ht.apart c hc
      rw [hends.1, hends.2.1] at h
      exact Ne.symm h
  · intro i hi
    rcases lt_added hi with hi | rfl
    · rw [accepted_handles_of_lt hi]
      exact Nat.lt_succ_of_lt (ht.bound i hi)
    · rw [accepted_handles_self]
      exact Nat.lt_succ_of_lt hc
  · intro i j hij
    rcases counterparts_accepted hr ht hij with ⟨hi, hj, -, hij⟩ | ⟨rfl, rfl⟩ | ⟨rfl, rfl⟩
    · rw [accepted_handles_of_lt hi, accepted_handles_of_lt hj]
      exact ht.opposite i j hij
    · rw [hnew, accepted_handles_of_lt hc]
    · rw [accepted_handles_of_lt hc]
      exact ends_comm hnew
  · intro p' q' t d hd
    obtain ⟨hd, hne⟩ := (mem_accepted hr ht).1 hd
    obtain ⟨hlt, hinit', hout', hnone'⟩ := ht.request p' q' t d hd
    rw [accepted_handles_of_lt hlt]
    refine ⟨Nat.lt_succ_of_lt hlt, hinit', hout', fun j hdj => ?_⟩
    rcases counterparts_accepted hr ht hdj with ⟨-, -, -, hdj⟩ | ⟨rfl, -⟩ | ⟨rfl, -⟩
    · exact hnone' j hdj
    · exact hne rfl
    · exact absurd hlt (Nat.lt_irrefl _)
  · intro l
    show (Function.update w.requests (source, p) rs l).Nodup
    by_cases hl : l = (source, p)
    · subst hl
      have hn := ht.once (source, p)
      rw [hr] at hn
      rw [Function.update_self]
      exact (List.nodup_cons.1 hn).2
    · rw [Function.update_of_ne hl]
      exact ht.once l
  · exact added_entry ht rfl (accepted_find?_none hr ht)
  · exact added_registered ht (accepted_find?_none hr ht)
  · -- the connection that is accepted is not over, so the other one of two that share a channel is
    have hother : ∀ j < w.allocated, (w.handles j).initiator ≠ c → Shares (w.handles c) (w.handles j) →
        (w.accepted p source tag c rs).Over (w.handles j).initiator := by
      intro j hj hne hs
      rw [over_accepted hr ht hne]
      rcases ht.ended c hc j hj (by rw [hinit]; exact Ne.symm hne) hs with ho | ho
      · rw [hinit] at ho
        exact absurd ho hnot
      · exact ho
    have hself : ((w.accepted p source tag c rs).handles w.allocated).initiator = c := by
      rw [accepted_handles_self]
    intro i hi j hj hne hs
    rcases lt_added hi with hi | rfl <;> rcases lt_added hj with hj | rfl
    · rw [accepted_handles_of_lt hi, accepted_handles_of_lt hj] at hne hs ⊢
      rcases ht.ended i hi j hj hne hs with ho | ho
      · left
        rwa [over_accepted hr ht fun h => hnot (h ▸ ho)]
      · right
        rwa [over_accepted hr ht fun h => hnot (h ▸ ho)]
    · rw [accepted_handles_of_lt hi] at hne hs ⊢
      rw [hself] at hne
      refine Or.inl (hother i hi hne ?_)
      rcases hs with hs | hs
      · exact Or.inr (hs.symm.trans hnew)
      · exact Or.inl (ends_injective (hs.symm.trans hnew))
    · rw [accepted_handles_of_lt hj] at hne hs ⊢
      rw [hself] at hne
      refine Or.inr (hother j hj (Ne.symm hne) ?_)
      rcases hs with hs | hs
      · exact Or.inr (hs.trans hnew)
      · exact Or.inl (ends_injective ((ends_comm hs).symm.trans hnew))
    · exact absurd rfl hne
  · intro i hi' halone
    rcases lt_added hi' with hi | rfl
    · have hic : i ≠ c := by
        rintro rfl
        refine halone w.allocated ⟨Nat.lt_succ_of_lt hi, Nat.lt_succ_self _, ?_, Ne.symm (Nat.ne_of_lt hi)⟩
        rw [accepted_handles_self, accepted_handles_of_lt hi]
        exact hinit.symm
      rw [accepted_handles_of_lt hi]
      refine (mem_accepted hr ht).2 ⟨ht.waiting i hi fun j hij => ?_, hic⟩
      exact halone j ((counterparts_added hi hij.2.1).2 hij)
    · refine absurd ?_ (halone c)
      refine ⟨Nat.lt_succ_self _, Nat.lt_succ_of_lt hc, ?_, Nat.ne_of_lt hc⟩
      rw [accepted_handles_self, accepted_handles_of_lt hc]
      exact hinit

private theorem Traffic.accepted (hm : w.Traffic) (ht : w.Table) : (w.accepted p source tag c rs).Traffic := by
  have hmem := accepted_request hr
  obtain ⟨hc, hinit, hout, hnone⟩ := ht.request _ _ _ _ hmem
  obtain ⟨hsent, hreceived, hback⟩ := hm.request _ _ _ _ hmem
  constructor
  · intro p' q' t d hd
    obtain ⟨hd, -⟩ := (mem_accepted hr ht).1 hd
    rw [accepted_handles_of_lt (ht.request p' q' t d hd).1]
    exact hm.request p' q' t d hd
  · intro i j hij
    rcases counterparts_accepted hr ht hij with ⟨hi, hj, -, hij⟩ | ⟨rfl, rfl⟩ | ⟨rfl, rfl⟩
    · rw [accepted_handles_of_lt hi, accepted_handles_of_lt hj]
      exact hm.received i j hij
    · rw [accepted_handles_self]
      exact List.nil_prefix
    · rw [accepted_handles_of_lt hc, hreceived]
      exact List.nil_prefix
  · intro i j hij ho
    rcases counterparts_accepted hr ht hij with ⟨hi, hj, hne, hij⟩ | ⟨rfl, rfl⟩ | ⟨rfl, rfl⟩
    · rw [accepted_handles_of_lt hi] at ho
      rw [accepted_handles_of_lt hi, accepted_handles_of_lt hj]
      refine hm.inFlight i j hij fun h => ho ((over_accepted hr ht ?_).2 h)
      intro he
      refine hnone i ⟨hc, hi, he.trans hinit.symm, hne⟩
    · rw [accepted_handles_self, accepted_handles_of_lt hc, hsent, hout]
      rfl
    · rw [accepted_handles_self, accepted_handles_of_lt hc, hreceived]
      exact hback.symm

end

/-! ### Entries -/

/-- An entry is marked for polling, or the mark is removed. -/
private def marked (w : Mpi) (p : Nat) (k : Nat ×ₗ Nat) (i : Nat) (b : Bool) : Mpi :=
  { w with connections := Function.update w.connections p ((w.connections p).insert k (i, b)) }

private theorem marked_find? {p i : Nat} {k : Nat ×ₗ Nat} {b b' : Bool} (h : (w.connections p).find? k = some (i, b'))
    (q : Nat) (l : Nat ×ₗ Nat) :
    (((w.marked p k i b).connections q).find? l).map Prod.fst = ((w.connections q).find? l).map Prod.fst := by
  show ((Function.update w.connections p ((w.connections p).insert k (i, b)) q).find? l).map _ = _
  by_cases hq : q = p
  · subst hq
    rw [Function.update_self, OrdMap.find?_insert]
    by_cases hl : l = k
    · rw [if_pos hl, hl, h]
      rfl
    · rw [if_neg hl]
  · rw [Function.update_of_ne hq]

private theorem Table.marked (ht : w.Table) {p : Nat} {k : Nat ×ₗ Nat} {b b' : Bool}
    (h : (w.connections p).find? k = some (i, b')) : (w.marked p k i b).Table where
  apart := ht.apart
  bound := ht.bound
  opposite := ht.opposite
  request := ht.request
  once := ht.once
  entry := by
    intro q l j c hj
    have hm := marked_find? (b := b) h q l
    rw [hj] at hm
    obtain ⟨e, he, hfst⟩ := Option.map_eq_some_iff.1 hm.symm
    obtain ⟨id, c'⟩ := e
    cases hfst
    exact ht.entry q l _ c' he
  registered := by
    intro j hj hrd
    obtain ⟨c, hc⟩ := ht.registered j hj hrd
    have hm := marked_find? (b := b) h (w.handles j).owner (w.handles j).key
    rw [hc] at hm
    obtain ⟨e, he, hfst⟩ := Option.map_eq_some_iff.1 hm
    obtain ⟨id, c'⟩ := e
    cases hfst
    exact ⟨c', he⟩
  ended := ht.ended
  waiting := ht.waiting

private theorem Table.ready (ht : w.Table) (r : Nat → List (Nat × Bool)) : ({ w with handleReady := r } : Mpi).Table :=
  ⟨ht.1, ht.2, ht.3, ht.4, ht.5, ht.6, ht.7, ht.8, ht.9⟩

private theorem Traffic.still (hm : w.Traffic) (c : Nat → OrdMap (Nat ×ₗ Nat) (Nat × Bool))
    (r : Nat → List (Nat × Bool)) : ({ w with connections := c, handleReady := r } : Mpi).Traffic :=
  ⟨hm.request, hm.received, hm.inFlight⟩

private theorem poll_keeps {p : Nat} (es : List ((Nat ×ₗ Nat) × (Nat × Bool))) (ht : w.Table) (hm : w.Traffic)
    (hes : ∀ e ∈ es, ∃ b, (w.connections p).find? e.1 = some (e.2.1, b)) :
    (es.foldl (pollEntry p) w).Table ∧ (es.foldl (pollEntry p) w).Traffic := by
  induction es generalizing w with
  | nil => exact ⟨ht, hm⟩
  | cons e es ih =>
    obtain ⟨⟨b, he⟩, hes⟩ := List.forall_mem_cons.1 hes
    rw [List.foldl_cons]
    unfold pollEntry
    split
    · refine ih ((ht.marked he).ready _) (hm.still _ _) fun e' he' => ?_
      obtain ⟨b', hb'⟩ := hes e' he'
      have hfst := marked_find? (b := false) he p e'.1
      rw [hb'] at hfst
      obtain ⟨x, hx, hx1⟩ := Option.map_eq_some_iff.1 hfst
      obtain ⟨id, c⟩ := x
      cases hx1
      exact ⟨c, hx⟩
    · exact ih ht hm hes

private theorem accept_keeps {p source : Nat} (ht : w.Table) (hm : w.Traffic) :
    (w.accept p source).Table ∧ (w.accept p source).Traffic := by
  unfold accept
  split
  · exact ⟨ht, hm⟩
  · rename_i tag c rs hr
    exact ⟨(ht.accepted hr).ready _, (hm.accepted hr ht).still _ _⟩

private theorem update_keeps {p : Nat} {source : Option Nat} (ht : w.Table) (hm : w.Traffic) :
    (w.update p source).Table ∧ (w.update p source).Traffic := by
  have h : (source.elim w (w.accept p)).Table ∧ (source.elim w (w.accept p)).Traffic := by
    cases source with
    | none => exact ⟨ht, hm⟩
    | some s => exact accept_keeps ht hm
  refine poll_keeps _ h.1 h.2 fun e he => ?_
  exact ⟨e.2.2, OrdMap.mem_entries.1 he⟩

private theorem yield_keeps (ht : w.Table) (hm : w.Traffic) (hi : i < w.allocated) :
    (w.yield i).Table ∧ (w.yield i).Traffic := by
  unfold yield
  split
  · exact ⟨ht, hm⟩
  · rename_i hrd
    obtain ⟨b, hb⟩ := ht.registered i hi (Bool.eq_false_iff.2 hrd)
    unfold notifyYield
    dsimp only
    rw [hb]
    exact ⟨ht.marked hb, hm.still _ _⟩

/-! ### Closing -/

section

variable {rd wr : Bool}

/-- What `close` does when EOS has been sent. -/
private def shut (w : Mpi) (i : Nat) (rd wr : Bool) : Mpi := (w.setFlags i rd wr).notifyClose i wr rd

private theorem setFlags_handles (k : Nat) :
    (w.setFlags i rd wr).handles k =
      { w.handles k with
        closedRd := if k = i then rd else (w.handles k).closedRd
        closedWr := if k = i then wr else (w.handles k).closedWr } := by
  show Function.update w.handles i { w.handles i with closedRd := rd, closedWr := wr } k = _
  by_cases hk : k = i
  · subst hk
    rw [Function.update_self, if_pos rfl, if_pos rfl]
  · rw [Function.update_of_ne hk, if_neg hk, if_neg hk]

private theorem shut_handles (k : Nat) : (w.shut i rd wr).handles k =
    { w.handles k with
      closedRd := if k = i then rd else (w.handles k).closedRd
      closedWr := if k = i then wr else (w.handles k).closedWr } := by
  rw [← setFlags_handles]
  unfold shut notifyClose
  dsimp only
  split
  · rfl
  · rfl

private theorem shut_rest : (w.shut i rd wr).allocated = w.allocated ∧ (w.shut i rd wr).requests = w.requests ∧
    (w.shut i rd wr).channel = w.channel := by
  unfold shut notifyClose
  dsimp only
  split
  · exact ⟨rfl, rfl, rfl⟩
  · exact ⟨rfl, rfl, rfl⟩

private theorem shut_find? (p : Nat) (k : Nat ×ₗ Nat) :
    ((w.shut i rd wr).connections p).find? k =
      if rd = true ∧ p = (w.handles i).owner ∧ k = (w.handles i).key then none else (w.connections p).find? k := by
  have hkey : ((w.setFlags i rd wr).handles i).owner = (w.handles i).owner ∧
      ((w.setFlags i rd wr).handles i).key = (w.handles i).key := by
    rw [setFlags_handles]
    exact ⟨rfl, rfl⟩
  unfold shut notifyClose
  dsimp only
  cases rd with
  | false =>
    rw [if_neg (by simp), if_neg fun h => by cases h.1]
    rfl
  | true =>
    rw [if_pos rfl, hkey.1, hkey.2]
    show ((Function.update w.connections (w.handles i).owner
      ((w.connections (w.handles i).owner).erase (w.handles i).key) p).find? k) = _
    by_cases hp : p = (w.handles i).owner
    · subst hp
      rw [Function.update_self, OrdMap.find?_erase]
      by_cases hk : k = (w.handles i).key
      · rw [if_pos hk, if_pos ⟨rfl, rfl, hk⟩]
      · rw [if_neg hk, if_neg fun h => hk h.2.2]
    · rw [Function.update_of_ne hp, if_neg fun h => hp h.2.1]

private theorem counterparts_shut {k l : Nat} : (w.shut i rd wr).Counterparts k l ↔ w.Counterparts k l := by
  unfold Counterparts
  rw [shut_handles, shut_handles, shut_rest.1]

variable (hrd : (w.handles i).closedRd = true → rd = true) (hwr : (w.handles i).closedWr = true → wr = true)

include hrd hwr

private theorem over_shut {c : Nat} (ho : w.Over c) : (w.shut i rd wr).Over c := by
  obtain ⟨h1, h2⟩ := ho
  constructor
  · intro k hk hinit
    rw [shut_rest.1] at hk
    rw [shut_handles] at hinit ⊢
    have hclosed := h1 k hk hinit
    unfold HandleMPI.closed at hclosed ⊢
    rw [Bool.and_eq_true] at hclosed ⊢
    dsimp only
    by_cases hki : k = i
    · subst hki
      rw [if_pos rfl, if_pos rfl]
      exact ⟨hrd hclosed.1, hwr hclosed.2⟩
    · rw [if_neg hki, if_neg hki]
      exact hclosed
  · rw [shut_rest.2.1]
    exact h2

private theorem Traffic.shut (hm : w.Traffic) : (w.shut i rd wr).Traffic where
  request := by
    intro p q tag c hr
    rw [shut_rest.2.1] at hr
    rw [shut_handles, shut_rest.2.2]
    exact hm.request p q tag c hr
  received := by
    intro k l hkl
    rw [shut_handles, shut_handles]
    exact hm.received k l (counterparts_shut.1 hkl)
  inFlight := by
    intro k l hkl ho
    rw [shut_handles] at ho
    rw [shut_handles, shut_handles, shut_rest.2.2]
    exact hm.inFlight k l (counterparts_shut.1 hkl) fun h => ho (over_shut hrd hwr h)

private theorem Table.shut (ht : w.Table) (hi : i < w.allocated)
    (hfree : rd = true → ∀ j < w.allocated, j ≠ i → (w.handles j).outgoing = (w.handles i).outgoing →
      (w.handles j).closedRd = true) : (w.shut i rd wr).Table where
  apart := by
    intro k hk
    rw [shut_rest.1] at hk
    rw [shut_handles]
    exact ht.apart k hk
  bound := by
    intro k hk
    rw [shut_rest.1] at hk ⊢
    rw [shut_handles]
    exact ht.bound k hk
  opposite := by
    intro k l hkl
    rw [shut_handles, shut_handles]
    exact ht.opposite k l (counterparts_shut.1 hkl)
  request := by
    intro p q tag c hr
    rw [shut_rest.2.1] at hr
    rw [shut_rest.1, shut_handles]
    obtain ⟨h1, h2, h3, h4⟩ := ht.request p q tag c hr
    exact ⟨h1, h2, h3, fun j hj => h4 j (counterparts_shut.1 hj)⟩
  once := by
    rw [shut_rest.2.1]
    exact ht.once
  entry := by
    intro p k j b he
    rw [shut_find?] at he
    split at he
    · cases he
    · rename_i hne
      obtain ⟨hj, howner, hkey, hopen⟩ := ht.entry p k j b he
      rw [shut_rest.1, shut_handles]
      refine ⟨hj, howner, hkey, ?_⟩
      dsimp only
      by_cases hji : j = i
      · subst hji
        rw [if_pos rfl]
        by_contra hno
        exact hne ⟨Bool.not_eq_false _ ▸ hno, howner.symm, hkey.symm⟩
      · rw [if_neg hji]
        exact hopen
  registered := by
    intro j hj hopen
    rw [shut_rest.1] at hj
    rw [shut_handles] at hopen ⊢
    dsimp only at hopen
    have hold : (w.handles j).closedRd = false := by
      by_cases hji : j = i
      · subst hji
        rw [if_pos rfl] at hopen
        by_contra hno
        rw [hrd (Bool.not_eq_false _ ▸ hno)] at hopen
        cases hopen
      · rwa [if_neg hji] at hopen
    obtain ⟨b, hb⟩ := ht.registered j hj hold
    refine ⟨b, ?_⟩
    rw [shut_find?, if_neg]
    · exact hb
    · rintro ⟨hyes, howner, hkey⟩
      by_cases hji : j = i
      · rw [if_pos hji, hyes] at hopen
        cases hopen
      · have hout : (w.handles j).outgoing = (w.handles i).outgoing := by
          have h1 : (w.handles j).rank = (w.handles i).rank := congrArg (fun k => (ofLex k).1) hkey
          have h2 : (w.handles j).tag = (w.handles i).tag := congrArg (fun k => (ofLex k).2) hkey
          have h0 : (w.handles j).owner = (w.handles i).owner := howner
          show ((w.handles j).owner, (w.handles j).rank, (w.handles j).tag) = _
          rw [h0, h1, h2]
          rfl
        rw [hfree hyes j hj hji hout] at hold
        cases hold
  ended := by
    intro k hk l hl hne hs
    rw [shut_rest.1] at hk hl
    rw [shut_handles, shut_handles] at hne hs ⊢
    exact (ht.ended k hk l hl hne hs).imp (over_shut hrd hwr) (over_shut hrd hwr)
  waiting := by
    intro k hk halone
    rw [shut_rest.1] at hk
    rw [shut_rest.2.1, shut_handles]
    exact ht.waiting k hk fun j hkj => halone j (counterparts_shut.2 hkj)

end

private theorem setFlags_setFlags (rd wr rd' wr' : Bool) :
    (w.setFlags i rd wr).setFlags i rd' wr' = w.setFlags i rd' wr' := by
  unfold setFlags
  dsimp only
  rw [Function.update_idem, Function.update_self]

private theorem setFlags_self : w.setFlags i (w.handles i).closedRd (w.handles i).closedWr = w := by
  show ({ w with handles := Function.update w.handles i (w.handles i) } : Mpi) = w
  rw [Function.update_eq_self]

/-- `close` sends EOS when it has to, and then it changes the flags and tells the connector. -/
private theorem close_eq (closeWr closeRd : Bool) :
    w.close i closeWr closeRd =
      (if closeWr && !(w.handles i).closedWr then w.sendEOS i else w).shut i ((w.handles i).closedRd || closeRd)
        ((w.handles i).closedWr || closeWr) := by
  -- the second half, in whatever state the first one leaves
  have hsecond : ∀ v : Mpi,
      (if closeRd && !(v.handles i).closedRd then v.setFlags i true (v.handles i).closedWr else v) =
      v.setFlags i ((v.handles i).closedRd || closeRd) (v.handles i).closedWr := by
    intro v
    cases closeRd with
    | false =>
      rw [Bool.or_false, setFlags_self]
      rfl
    | true =>
      cases hrd : (v.handles i).closedRd with
      | false => rfl
      | true =>
        have hself := setFlags_self (w := v) (i := i)
        rw [hrd] at hself
        exact hself.symm
  have hrd : ((w.sendEOS i).handles i).closedRd = (w.handles i).closedRd := by
    unfold sendEOS
    rw [push_handles]
  unfold close shut
  dsimp only
  rw [hsecond]
  by_cases hsend : (closeWr && !(w.handles i).closedWr) = true
  · obtain ⟨rfl, hwr⟩ := (Bool.and_eq_true ..).mp hsend
    rw [if_pos hsend, if_pos hsend, setFlags_handles, if_pos rfl, if_pos rfl, setFlags_setFlags, Bool.or_true,
      setFlags_handles, if_pos rfl, if_pos rfl]
  · have hwr : ((w.handles i).closedWr || closeWr) = (w.handles i).closedWr := by
      cases closeWr with
      | false => exact Bool.or_false _
      | true =>
        cases hwr : (w.handles i).closedWr with
        | false =>
          rw [hwr] at hsend
          exact absurd rfl hsend
        | true => rfl
    rw [if_neg hsend, if_neg hsend, setFlags_handles, if_pos rfl, if_pos rfl, hwr]

/-! ### Runs -/

private theorem push_keeps (ht : w.Table) (hm : w.Traffic) (hi : i < w.allocated) (hwr : (w.handles i).closedWr = false)
    (msg : Bytes) : (w.push i msg).Table ∧ (w.push i msg).Traffic ∧ i < (w.push i msg).allocated ∧
      ((w.push i msg).handles i).closedWr = false := by
  have hopen : (w.handles i).closed = false := by
    unfold HandleMPI.closed
    rw [hwr, Bool.and_false]
  refine ⟨(table_congr (still_push msg)).2 ht, hm.push ht hi (not_over_of_open hi hopen) msg, hi, ?_⟩
  rw [push_handles]
  exact hwr

private theorem recv_keeps {size : Nat} {r : Ret} {bs : Bytes} (ht : w.Table) (hm : w.Traffic) (hi : i < w.allocated)
    (hrd : (w.handles i).closedRd = false) (h : w.recv i size = .ok (r, bs, w')) : w'.Table ∧ w'.Traffic := by
  unfold recv at h
  split at h
  · cases h
  · rename_i msg v hpull
    have hv : v = w' := by
      split at h
      · cases h
        rfl
      · cases h
        rfl
    subst hv
    obtain ⟨msgs, hch, rfl⟩ := pull_eq_some hpull
    have hopen : (w.handles i).closed = false := by
      unfold HandleMPI.closed
      rw [hrd]
      rfl
    exact ⟨(table_congr (still_popped msg msgs)).2 ht, hm.popped ht hi (not_over_of_open hi hopen) hch⟩

private theorem probe_keeps {size size' : Nat} {blocking : Bool} {r : Ret} (ht : w.Table) (hm : w.Traffic)
    (hi : i < w.allocated) (hrd : (w.handles i).closedRd = false) (h : w.probe i size blocking = .ok (r, size', w')) :
    w'.Table ∧ w'.Traffic := by
  unfold probe at h
  split at h
  · cases h
    exact ⟨ht, hm⟩
  · obtain ⟨⟨r1, bs, w1⟩, h1, h⟩ := bind_eq_ok.1 h
    have hkeep := recv_keeps ht hm hi hrd h1
    cases r1 with
    | error e =>
      cases h
      exact hkeep
    | ok n =>
      cases h
      exact hkeep

private theorem close_keeps {closeWr closeRd : Bool} (ht : w.Table) (hm : w.Traffic) (hi : i < w.allocated)
    (hc : w.Careful (.close i closeWr closeRd)) : (w.close i closeWr closeRd).Table ∧
      (w.close i closeWr closeRd).Traffic := by
  -- another handle that would lose its entry belongs to a connection that is over
  have hfree : ∀ j < w.allocated, j ≠ i → (w.handles j).outgoing = (w.handles i).outgoing →
      (w.handles j).closedRd = true := by
    intro j hj hne hout
    by_cases hclosed : (w.handles i).closed = true
    · exact hc hclosed j hj hne hout
    · have hoi := not_over_of_open hi (Bool.eq_false_iff.2 hclosed)
      have hclosed' : (w.handles j).closed = true := by
        by_contra hopen
        exact hne (ht.outgoing_injective hi hj hoi (not_over_of_open hj (Bool.eq_false_iff.2 hopen)) hout)
      unfold HandleMPI.closed at hclosed'
      exact (Bool.and_eq_true_iff.1 hclosed').1
  rw [close_eq]
  by_cases hsend : (closeWr && !(w.handles i).closedWr) = true
  · obtain ⟨-, hwr⟩ := Bool.and_eq_true_iff.1 hsend
    rw [if_pos hsend]
    obtain ⟨ht1, hm1, hi1, -⟩ := push_keeps ht hm hi (Bool.not_eq_true' _ ▸ hwr) (Words.toLE sizeofSizeT 0)
    have hrd1 : ((w.sendEOS i).handles i).closedRd = true → ((w.handles i).closedRd || closeRd) = true := by
      unfold sendEOS
      rw [push_handles]
      intro h
      exact Bool.or_eq_true_iff.2 (Or.inl h)
    have hwr1 : ((w.sendEOS i).handles i).closedWr = true → ((w.handles i).closedWr || closeWr) = true := by
      unfold sendEOS
      rw [push_handles]
      intro h
      exact Bool.or_eq_true_iff.2 (Or.inl h)
    refine ⟨Table.shut hrd1 hwr1 ht1 hi1 fun _ j hj hne hout => ?_, Traffic.shut hrd1 hwr1 hm1⟩
    unfold sendEOS at hout ⊢
    rw [push_handles, push_handles] at hout
    rw [push_handles]
    exact hfree j hj hne hout
  · rw [if_neg hsend]
    have hrd1 : (w.handles i).closedRd = true → ((w.handles i).closedRd || closeRd) = true :=
      fun h => Bool.or_eq_true_iff.2 (Or.inl h)
    have hwr1 : (w.handles i).closedWr = true → ((w.handles i).closedWr || closeWr) = true :=
      fun h => Bool.or_eq_true_iff.2 (Or.inl h)
    exact ⟨Table.shut hrd1 hwr1 ht hi fun _ => hfree, Traffic.shut hrd1 hwr1 hm⟩

private theorem step_keeps {o : Op} (ht : w.Table) (hm : w.Traffic) (hc : w.Careful o) (h : Step o w w') :
    w'.Table ∧ w'.Traffic := by
  obtain ⟨hp, he⟩ := h
  cases o with
  | connect p dest =>
    rcases connect_cases he with rfl | ⟨q, tag, ha, rfl⟩
    · exact ⟨ht, hm⟩
    · exact ⟨ht.requested (hc q tag ha), hm.requested ht (hc q tag ha)⟩
  | update p source =>
    cases he
    exact update_keeps ht hm
  | send i buff =>
    cases he
    obtain ⟨ht1, hm1, hi1, hwr1⟩ := push_keeps ht hm hp.1 hp.2 (Words.toLE sizeofSizeT buff.length)
    obtain ⟨ht2, hm2, -, -⟩ := push_keeps ht1 hm1 hi1 hwr1 buff
    exact ⟨ht2, hm2⟩
  | receive i size =>
    obtain ⟨⟨r, bs, v⟩, hr, rfl⟩ := map_eq_ok he
    exact recv_keeps ht hm hp.1 hp.2 hr
  | probe i size blocking =>
    obtain ⟨⟨r, s, v⟩, hr, rfl⟩ := map_eq_ok he
    exact probe_keeps ht hm hp.1 hp.2 hr
  | close i closeWr closeRd =>
    cases he
    exact close_keeps ht hm hp hc
  | yield i =>
    cases he
    exact yield_keeps ht hm hp

/-- The states of every run in which all steps are careful. -/
def ReachableCareful : Mpi → Prop := Runs.Reach Starts fun o w w' => w.Careful o ∧ Step o w w'

/-- In every run in which all steps are careful, connections do not share channels. -/
theorem mpi_private (h : w.ReachableCareful) : w.Private := by
  have hinv : w.Table ∧ w.Traffic :=
    h.invariant (fun w => w.Table ∧ w.Traffic) (fun _ h => ⟨h.table, h.traffic⟩)
      fun _ _ _ hi hs => step_keeps hi.1 hi.2 hs.1 hs.2
  exact hinv.1.private hinv.2

/-! ### Two processes -/

/-- The process 0 connects to the process 1 with the tag 1. -/
private def address : Bytes := literal ['1', ':', '1']

private def asked : Mpi := ({ size := 2 } : Mpi).requested 0 1 1

private def paired : Mpi := asked.update 1 (some 0)

/-- What is sent through the handle of the process 0 arrives at the one of the process 1. -/
theorem mpi_private_run :
    let w := (paired.send 0 [7]).2
    w.Private ∧ w.channel (0, 1, 1) = [Words.toLE sizeofSizeT 1, [7]] := by
  have hstart : Starts { size := 2 } := ⟨2, rfl⟩
  have hunused : ({ size := 2 } : Mpi).Unused 0 1 1 := by
    refine ⟨by decide, ?_, ?_, rfl, rfl⟩
    · intro i hi
      exact absurd hi (Nat.not_lt_zero i)
    · intro c
      exact ⟨List.not_mem_nil, List.not_mem_nil⟩
  have hcareful : ({ size := 2 } : Mpi).Careful (.connect 0 address) := by
    intro rank tag ha
    cases ha
    exact hunused
  have h1 : asked.ReachableCareful := .next (.connect 0 address) (.start hstart) ⟨hcareful, Nat.zero_lt_two, rfl⟩
  have h2 : paired.ReachableCareful := .next (.update 1 (some 0)) h1 ⟨trivial, ⟨by decide, by decide⟩, rfl⟩
  have h3 : (paired.send 0 [7]).2.ReachableCareful := .next (.send 0 [7]) h2 ⟨trivial, ⟨by decide, by decide⟩, rfl⟩
  exact ⟨mpi_private h3, rfl⟩

private def askedAgain : Mpi := paired.requested 0 1 1

private def pairedAgain : Mpi := askedAgain.update 1 (some 0)

/-- The header of the message has been read through the first handle of the process 1. -/
private def misled : Mpi := (pairedAgain.send 2 [7]).2.popped 1 (Words.toLE sizeofSizeT 1) [[7]]

/-- The process 0 connects with the tag 1 again, and sends a message through its second handle: the process 1
receives it through its first one, whose counterpart has sent nothing. -/
theorem mpi_shares :
    [Op.connect 0 address, .update 1 (some 0), .connect 0 address, .update 1 (some 0), .send 2 [7],
      .probe 1 0 true].foldlM exec { size := 2 } = .ok misled ∧
    Runs.Reach Starts Step misled ∧ misled.Counterparts 0 1 ∧ (misled.handles 0).sent = [] ∧
    (misled.handles 2).sent = [Words.toLE sizeofSizeT 1, [7]] ∧
      (misled.handles 1).received = [Words.toLE sizeofSizeT 1] ∧
    ¬ misled.Private := by
  have e1 : exec { size := 2 } (.connect 0 address) = .ok asked := rfl
  have e2 : asked.exec (.update 1 (some 0)) = .ok paired := rfl
  have e3 : paired.exec (.connect 0 address) = .ok askedAgain := rfl
  have e4 : askedAgain.exec (.update 1 (some 0)) = .ok pairedAgain := rfl
  have e5 : pairedAgain.exec (.send 2 [7]) = .ok (pairedAgain.send 2 [7]).2 := rfl
  have e6 : (pairedAgain.send 2 [7]).2.exec (.probe 1 0 true) = .ok misled := rfl
  have h0 : Runs.Reach Starts Step { size := 2 } := .start ⟨2, rfl⟩
  have h1 : Runs.Reach Starts Step asked := .next (.connect 0 address) h0 ⟨Nat.zero_lt_two, e1⟩
  have h2 : Runs.Reach Starts Step paired := .next (.update 1 (some 0)) h1 ⟨⟨by decide, by decide⟩, e2⟩
  have h3 : Runs.Reach Starts Step askedAgain := .next (.connect 0 address) h2 ⟨Nat.zero_lt_two, e3⟩
  have h4 : Runs.Reach Starts Step pairedAgain := .next (.update 1 (some 0)) h3 ⟨⟨by decide, by decide⟩, e4⟩
  have h5 : Runs.Reach Starts Step (pairedAgain.send 2 [7]).2 := .next (.send 2 [7]) h4 ⟨⟨by decide, by decide⟩, e5⟩
  have h6 : Runs.Reach Starts Step misled := .next (.probe 1 0 true) h5 ⟨⟨by decide, by decide⟩, e6⟩
  have hpair : misled.Counterparts 0 1 := ⟨by decide, by decide, by decide, by decide⟩
  have hsent : (misled.handles 0).sent = [] := by decide
  refine ⟨?_, h6, hpair, hsent, by decide, by decide, fun h => ?_⟩
  · simp only [List.foldlM_cons, List.foldlM_nil, e1, e2, e3, e4, e5, e6, bind_ok, pure_eq_ok]
  · have hprefix := h.received 0 1 hpair
    rw [hsent, List.prefix_nil] at hprefix
    exact absurd hprefix (by decide)

end Mtcl.Mpi
