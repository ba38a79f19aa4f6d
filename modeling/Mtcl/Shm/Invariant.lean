import Mtcl.ConnShm

/-!
# The invariant of connections over shared memory

As long as no name is given to a segment while a buffer of that name is still mapped (`Careful`), the segments
of a connection are those of two handles and of nothing else.  The invariant has a part about names and segments
(`Table`), one about the connection messages (`Mail`), and one about what is put and taken (`Traffic`).  Nobody
takes the names of a connection away before it has been accepted: the flag of the handshake stands in the slot
until then, and EOS has to wait behind it.

Here are the steps that lead to a connection, from `listen` to the message that `update` gets.
-/

namespace Mtcl.Shm

variable {w w' : Shm} {i j : Nat}

/-! ### What connections promise -/

/-- Two handles of one connection. -/
def Counterparts (w : Shm) (i j : Nat) : Prop :=
  i < w.allocated ∧ j < w.allocated ∧ (w.ends i).out.seg = (w.ends j).inBuf.seg ∧
    (w.ends j).out.seg = (w.ends i).inBuf.seg

/-- What a slot holds. -/
def content (seg : ShmSegment) : List ShmSegment := if seg.guard then [seg] else []

/-- No two handles read from one segment, no two write to one, and those at the ends of a segment are
counterparts.  What has been taken through a handle, with what is in its slot, is what has been put through its
counterpart.  A handle without a counterpart has been made by `connect`; nothing has come for it, and what has
been put through it is in the slot.  A handle made by `update` has a counterpart that was asked for where the
process has listened.  A connection message that `update` has got is that of a handle without a counterpart,
which it then gets, unless the kernel fails. -/
structure Private (w : Shm) : Prop where
  apart : ∀ i < w.allocated, ∀ j < w.allocated,
    ((w.ends i).inBuf.seg = (w.ends j).inBuf.seg → i = j) ∧ ((w.ends i).out.seg = (w.ends j).out.seg → i = j) ∧
      ((w.ends i).out.seg = (w.ends j).inBuf.seg → w.Counterparts i j)
  received : ∀ i j, w.Counterparts i j →
    List.Forall₂ ShmSegment.Holds (w.got j ++ content (w.segs (w.ends j).inBuf.seg)) (w.sent i)
  alone : ∀ i < w.allocated, (∀ j, ¬w.Counterparts i j) → (w.ends i).connects = true ∧ w.got i = [] ∧
    content (w.segs (w.ends i).inBuf.seg) = [] ∧
      List.Forall₂ ShmSegment.Holds (content (w.segs (w.ends i).out.seg)) (w.sent i)
  served : ∀ j < w.allocated, (w.ends j).connects = false →
    ∃ i, w.Counterparts i j ∧ (w.ends i).connects = true ∧ (w.ends i).asked = (w.ends j).asked
  accepts : ∀ p s msg, w.accepting p = some (s, msg) → ∃ i < w.allocated, (w.ends i).connects = true ∧
    (w.ends i).asked = s ∧
    (∀ j, ¬w.Counterparts i j) ∧ (w.accept p s msg false false).Counterparts i w.allocated

/-- A buffer of this name is mapped. -/
def Maps (w : Shm) (name : Bytes) : Prop :=
  (∃ i < w.allocated, (w.ends i).inBuf.shmp = true ∧ (w.ends i).inBuf.segmentname = name ∨
      (w.ends i).out.shmp = true ∧ (w.ends i).out.segmentname = name) ∨
    ∃ p, (w.connbuff p).shmp = true ∧ (w.connbuff p).segmentname = name

/-- The names that `connect` gives are not those of buffers that are still mapped, and its address is no segment
of a connection; the kernel does not fail to initialise the lock of a listening buffer. -/
def Careful (w : Shm) : Op → Prop
  | .connect p address _ => ¬w.Maps (w.inname p) ∧ ¬w.Maps (w.outname p) ∧
      ∀ s, w.names.object address = some s → ∀ i < w.allocated, (w.ends i).inBuf.seg ≠ s ∧ (w.ends i).out.seg ≠ s
  | .listen _ _ fault => fault ≠ some .spinInit
  | _ => True

/-! ### The invariant -/

/-- Nobody has the output segment of the handle for reading. -/
def Alone (w : Shm) (i : Nat) : Prop := ∀ j < w.allocated, (w.ends j).inBuf.seg ≠ (w.ends i).out.seg

/-- A name of a segment of a connection. -/
def Nameable (name : Bytes) : Prop := UInt8.ofNat ':'.toNat ∉ name ∧ 0 ∉ name ∧ name.length ≤ shmNameMax

/-- No other buffer that is mapped has the name. -/
structure Kept (w : Shm) (i : Nat) (name : Bytes) : Prop where
  ends : ∀ k < w.allocated, k ≠ i → ((w.ends k).inBuf.shmp = true → (w.ends k).inBuf.segmentname ≠ name) ∧
    ((w.ends k).out.shmp = true → (w.ends k).out.segmentname ≠ name)
  listens : ∀ p, (w.connbuff p).shmp = true → (w.connbuff p).segmentname ≠ name

/-- A buffer of the handle `i` stands, under its name, which nobody else can take away. -/
structure Stands (w : Shm) (i : Nat) (b : MappedBuffer) : Prop where
  mapped : b.shmp = true
  nameable : Nameable b.segmentname
  object : w.names.object b.segmentname = some b.seg
  kept : w.Kept i b.segmentname

/-- The names, the segments and the buffers. -/
structure Table (w : Shm) : Prop where
  shmname : ∀ p, UInt8.ofNat ':'.toNat ∉ w.shmname p ∧ 0 ∉ w.shmname p
  sound : w.names.Sound
  lt : ∀ i < w.allocated, (w.ends i).inBuf.seg < w.names.made ∧ (w.ends i).out.seg < w.names.made ∧
    (w.ends i).inBuf.seg ≠ (w.ends i).out.seg
  inOnce : ∀ i < w.allocated, ∀ j < w.allocated, (w.ends i).inBuf.seg = (w.ends j).inBuf.seg → i = j
  outOnce : ∀ i < w.allocated, ∀ j < w.allocated, (w.ends i).out.seg = (w.ends j).out.seg → i = j
  cross : ∀ i < w.allocated, ∀ j < w.allocated, (w.ends i).out.seg = (w.ends j).inBuf.seg →
    (w.ends j).out.seg = (w.ends i).inBuf.seg
  listenLt : ∀ p, (w.connbuff p).shmp = true → (w.connbuff p).seg < w.names.made
  listenOnce : ∀ p q, (w.connbuff p).shmp = true → (w.connbuff q).shmp = true →
    (w.connbuff p).seg = (w.connbuff q).seg → p = q
  listenApart : ∀ p, (w.connbuff p).shmp = true → ∀ i < w.allocated, (w.ends i).inBuf.seg ≠ (w.connbuff p).seg ∧
    (w.ends i).out.seg ≠ (w.connbuff p).seg
  asked : ∀ i < w.allocated, w.waits i = true → w.Alone i ∧ (w.ends i).asked < w.names.made ∧
    ∀ j < w.allocated, (w.ends j).inBuf.seg ≠ (w.ends i).asked ∧ (w.ends j).out.seg ≠ (w.ends i).asked
  served : ∀ j < w.allocated, (w.ends j).connects = false → ∃ i < w.allocated, (w.ends i).connects = true ∧
    (w.ends i).out.seg = (w.ends j).inBuf.seg ∧ (w.ends i).asked = (w.ends j).asked
  stands : ∀ i < w.allocated, w.Alone i → w.Stands i (w.ends i).inBuf ∧ w.Stands i (w.ends i).out

/-- What `connect` has put for the handle. -/
def asks (e : ShmEnd) : Fill := .next (request e).length (request e)

theorem beforeColon_request {e : ShmEnd} (h : Nameable e.inBuf.segmentname) :
    beforeColon (request e) = e.inBuf.segmentname := by
  unfold request connectMessage beforeColon
  rw [List.append_assoc, List.takeWhile_append_of_pos]
  · simp [literal]
  · intro b hb
    have : b ≠ UInt8.ofNat ':'.toNat := fun he => h.1 (he ▸ hb)
    simpa using this

theorem afterColon_request {e : ShmEnd} (h : Nameable e.inBuf.segmentname) :
    afterColon (request e) = e.out.segmentname := by
  unfold request connectMessage afterColon
  have hmem : UInt8.ofNat ':'.toNat ∈ e.inBuf.segmentname ++ literal [':'] ++ e.out.segmentname :=
    List.mem_append_left _ (List.mem_append_right _ (List.mem_singleton_self _))
  rw [if_pos hmem, List.append_assoc, List.idxOf_append_of_notMem h.1, show (literal [':'] ++ e.out.segmentname).idxOf
    (UInt8.ofNat ':'.toNat) = 0 from List.idxOf_cons_self, ← List.append_assoc]
  exact List.drop_left' (by rw [List.length_append]; rfl)

/-- The connection message of the handle has been put, and its connection has not been accepted. -/
structure Asking (w : Shm) (i : Nat) : Prop where
  lt : i < w.allocated
  alone : w.Alone i
  waits : w.waits i = false

/-- The connection messages that are in the listening buffers and those that `update` works on: each is that of
a handle, and it is found in one place only. -/
structure Mail (w : Shm) : Prop where
  full : ∀ p, (w.connbuff p).shmp = true → (w.segs (w.connbuff p).seg).guard = true → ∃ i, w.Asking i ∧
    (w.ends i).asked = (w.connbuff p).seg ∧ (w.segs (w.connbuff p).seg).Holds (asks (w.ends i))
  taken : ∀ p s msg, w.accepting p = some (s, msg) → ∃ i, w.Asking i ∧ (w.ends i).asked = s ∧ msg = request (w.ends i)
  once : ∀ p q s t msg, w.accepting p = some (s, msg) → w.accepting q = some (t, msg) → p = q
  gone : ∀ p q s i, w.accepting p = some (s, request (w.ends i)) → w.Asking i → (w.connbuff q).shmp = true →
    (w.segs (w.connbuff q).seg).guard = true → ¬(w.segs (w.connbuff q).seg).Holds (asks (w.ends i))

/-- Nothing has come for the handle, and what has been put through it stands in the slot: nothing, or what is no EOS. -/
structure Quiet (w : Shm) (i : Nat) : Prop where
  got : w.got i = []
  guard : (w.segs (w.ends i).inBuf.seg).guard = false
  sent : List.Forall₂ ShmSegment.Holds (content (w.segs (w.ends i).out.seg)) (w.sent i)
  flag : ∀ f ∈ w.sent i, f.size ≠ 0

/-- What is put and taken. -/
structure Traffic (w : Shm) : Prop where
  received : ∀ i < w.allocated, ∀ j < w.allocated, (w.ends i).out.seg = (w.ends j).inBuf.seg →
    List.Forall₂ ShmSegment.Holds (w.got j ++ content (w.segs (w.ends j).inBuf.seg)) (w.sent i)
  quiet : ∀ i < w.allocated, w.Alone i → w.Quiet i

namespace Table

variable (ht : w.Table)
include ht

/-- A handle that nobody reads from has been made by `connect`. -/
theorem connects_of_alone (hi : i < w.allocated) (ha : w.Alone i) : (w.ends i).connects = true := by
  by_contra hc
  obtain ⟨k, hk, -, hout, -⟩ := ht.served i hi (by simpa using hc)
  exact ha k hk (ht.cross k hk i hi hout).symm

/-- Nobody writes to a handle that nobody reads from. -/
theorem in_ne_of_alone (hi : i < w.allocated) (ha : w.Alone i) (hj : j < w.allocated) :
    (w.ends i).inBuf.seg ≠ (w.ends j).out.seg := by
  intro he
  exact ha j hj (ht.cross j hj i hi he.symm).symm

/-- The connection messages of two handles without counterparts are different. -/
theorem request_injective (hi : i < w.allocated) (hai : w.Alone i) (hj : j < w.allocated) (haj : w.Alone j)
    (h : request (w.ends i) = request (w.ends j)) : i = j := by
  by_contra hne
  obtain ⟨hin, -⟩ := ht.stands i hi hai
  obtain ⟨hin', -⟩ := ht.stands j hj haj
  have hname : (w.ends i).inBuf.segmentname = (w.ends j).inBuf.segmentname := by
    rw [← beforeColon_request hin.nameable, ← beforeColon_request hin'.nameable, h]
  exact (hin.kept.ends j hj (Ne.symm hne)).1 hin'.mapped hname.symm

end Table

/-- The invariant. -/
structure Inv (w : Shm) : Prop where
  table : w.Table
  mail : w.Mail
  traffic : w.Traffic

/-! ### Names and listening buffers -/

/-- The state behind the creation of a segment. -/
private def created (w : Shm) (name : Bytes) : Shm := { w with toShmSpace := w.toShmSpace.created name }

section

variable {names : Names Bytes} {segs : Nat → ShmSegment} {ids : Nat → BitVec 32} {connbuff : Nat → MappedBuffer}
  {accepting : Nat → Option (Nat × Bytes)} {waits : Nat → Bool} {sent : Nat → List Fill} {got : Nat → List ShmSegment}

/-- What the slots hold does not matter for the table. -/
theorem Table.frame (ht : w.Table) :
    ({ w with
        segs := segs
        shmconnid := ids
        accepting := accepting
        sent := sent
        got := got } : Shm).Table := by
  refine ⟨ht.shmname, ht.sound, ht.lt, ht.inOnce, ht.outOnce, ht.cross, ht.listenLt, ht.listenOnce,
    ht.listenApart, ht.asked, ht.served, fun i hi ha => ?_⟩
  obtain ⟨h1, h2⟩ := ht.stands i hi ha
  exact ⟨⟨h1.1, h1.2, h1.3, h1.kept.1, h1.kept.2⟩, ⟨h2.1, h2.2, h2.3, h2.kept.1, h2.kept.2⟩⟩

/-- What is put and taken is a matter of the segments of the handles. -/
theorem Traffic.frame (hf : w.Traffic)
    (hs : ∀ i < w.allocated, segs (w.ends i).inBuf.seg = w.segs (w.ends i).inBuf.seg ∧
      segs (w.ends i).out.seg = w.segs (w.ends i).out.seg) :
    ({ w with
        names := names
        segs := segs
        shmconnid := ids
        connbuff := connbuff
        accepting := accepting
        waits := waits } : Shm).Traffic := by
  refine ⟨fun i hi j hj he => ?_, fun i hi ha => ?_⟩
  · have h := hf.received i hi j hj he
    dsimp only
    rw [(hs j hj).1]
    exact h
  · obtain ⟨h1, h2, h3, h4⟩ := hf.quiet i hi ha
    refine ⟨h1, ?_, ?_, h4⟩
    · dsimp only
      rw [(hs i hi).1]
      exact h2
    · dsimp only
      rw [(hs i hi).2]
      exact h3

/-- The connection messages are a matter of the segments of the listening buffers. -/
theorem Mail.frame (hm : w.Mail)
    (hs : ∀ p, (w.connbuff p).shmp = true → segs (w.connbuff p).seg = w.segs (w.connbuff p).seg) :
    ({ w with
        names := names
        segs := segs
        shmconnid := ids
        sent := sent
        got := got } : Shm).Mail := by
  refine ⟨fun p hp hg => ?_, fun p s msg h => ?_, hm.once, fun p q s i h ha hq hg => ?_⟩
  · dsimp only at hp hg ⊢
    rw [hs p hp] at hg ⊢
    obtain ⟨i, ha, h⟩ := hm.full p hp hg
    exact ⟨i, ⟨ha.lt, ha.alone, ha.waits⟩, h⟩
  · obtain ⟨i, ha, h⟩ := hm.taken p s msg h
    exact ⟨i, ⟨ha.lt, ha.alone, ha.waits⟩, h⟩
  · dsimp only at hq hg ⊢
    rw [hs q hq] at hg ⊢
    exact hm.gone p q s i h ⟨ha.lt, ha.alone, ha.waits⟩ hq hg

end

private theorem Stands.created {b : MappedBuffer} (hs : w.Stands i b) {name : Bytes} (hn : ¬w.Named name) :
    (w.created name).Stands i b :=
  ⟨hs.mapped, hs.nameable, Names.create_keeps (not_not.1 hn) hs.object, hs.kept.ends, hs.kept.listens⟩

private theorem Inv.created (hi : w.Inv) {name : Bytes} (hn : ¬w.Named name) : (w.created name).Inv := by
  obtain ⟨ht, hm, hf⟩ := hi
  refine ⟨?_, ?_, ?_⟩
  · refine ⟨ht.shmname, ht.sound.create name, ?_, ht.inOnce, ht.outOnce, ht.cross, ?_, ht.listenOnce,
      ht.listenApart, ?_, ht.served, ?_⟩
    · intro i hi
      obtain ⟨h1, h2, h3⟩ := ht.lt i hi
      exact ⟨Nat.lt_succ_of_lt h1, Nat.lt_succ_of_lt h2, h3⟩
    · exact fun p hp => Nat.lt_succ_of_lt (ht.listenLt p hp)
    · intro i hi hw
      obtain ⟨h1, h2, h3⟩ := ht.asked i hi hw
      exact ⟨h1, Nat.lt_succ_of_lt h2, h3⟩
    · exact fun i hi ha => ⟨(ht.stands i hi ha).1.created hn, (ht.stands i hi ha).2.created hn⟩
  · exact hm.frame fun p hp => ShmSpace.created_segs name (ht.listenLt p hp)
  · exact hf.frame fun i hi => ⟨ShmSpace.created_segs name (ht.lt i hi).1, ShmSpace.created_segs name (ht.lt i hi).2.1⟩

/-- A name is taken away that no handle without a counterpart has. -/
theorem Inv.unlinked (hi : w.Inv) {name : Bytes} (hn : ∀ i < w.allocated, w.Alone i →
      (w.ends i).inBuf.segmentname ≠ name ∧ (w.ends i).out.segmentname ≠ name) :
    ({ w with names := w.names.unlink name } : Shm).Inv := by
  obtain ⟨ht, hm, hf⟩ := hi
  refine ⟨?_, hm.frame fun _ _ => rfl, hf.frame fun _ _ => ⟨rfl, rfl⟩⟩
  refine ⟨ht.shmname, ht.sound.unlink name, ht.lt, ht.inOnce, ht.outOnce, ht.cross, ht.listenLt, ht.listenOnce,
    ht.listenApart, ht.asked, ht.served, ?_⟩
  intro i hi ha
  obtain ⟨h1, h2⟩ := ht.stands i hi ha
  refine ⟨⟨h1.mapped, h1.nameable, ?_, h1.kept.ends, h1.kept.listens⟩,
    ⟨h2.mapped, h2.nameable, ?_, h2.kept.ends, h2.kept.listens⟩⟩
  · exact (Names.unlink_of_ne _ (hn i hi ha).1).trans h1.object
  · exact (Names.unlink_of_ne _ (hn i hi ha).2).trans h2.object

/-- Another listening buffer: none, or one with an empty slot that nothing else has mapped, and with a name of
its own. -/
private theorem Inv.listening (hi : w.Inv) (p : Nat) {b : MappedBuffer} (hb : b.shmp = true → b.seg < w.names.made ∧
      (w.segs b.seg).guard = false ∧ (∀ q, q ≠ p → (w.connbuff q).shmp = true → (w.connbuff q).seg ≠ b.seg) ∧
      (∀ i < w.allocated, (w.ends i).inBuf.seg ≠ b.seg ∧ (w.ends i).out.seg ≠ b.seg) ∧
      ∀ i < w.allocated, w.Alone i → b.segmentname ≠ (w.ends i).inBuf.segmentname ∧
        b.segmentname ≠ (w.ends i).out.segmentname) :
    ({ w with connbuff := Function.update w.connbuff p b } : Shm).Inv := by
  obtain ⟨ht, hm, hf⟩ := hi
  have hcases : ∀ q, (Function.update w.connbuff p b q).shmp = true →
      (q = p ∧ Function.update w.connbuff p b q = b ∧ b.shmp = true) ∨
        q ≠ p ∧ Function.update w.connbuff p b q = w.connbuff q ∧ (w.connbuff q).shmp = true := by
    intro q hq
    by_cases hqp : q = p
    · subst hqp
      rw [Function.update_self] at hq ⊢
      exact Or.inl ⟨rfl, rfl, hq⟩
    · rw [Function.update_of_ne hqp] at hq ⊢
      exact Or.inr ⟨hqp, rfl, hq⟩
  refine ⟨?_, ?_, hf.frame fun _ _ => ⟨rfl, rfl⟩⟩
  · refine ⟨ht.shmname, ht.sound, ht.lt, ht.inOnce, ht.outOnce, ht.cross, ?_, ?_, ?_, ht.asked, ht.served, ?_⟩
    · intro q hq
      dsimp only
      rcases hcases q hq with ⟨-, he, hs⟩ | ⟨-, he, hs⟩
      · rw [he]
        exact (hb hs).1
      · rw [he]
        exact ht.listenLt q hs
    · intro q r hq hr hqr
      dsimp only at hqr
      rcases hcases q hq with ⟨hqp, he, hs⟩ | ⟨hqp, he, hs⟩ <;>
        rcases hcases r hr with ⟨hrp, he', hs'⟩ | ⟨hrp, he', hs'⟩ <;>
        rw [he, he'] at hqr
      · rw [hqp, hrp]
      · exact absurd hqr.symm ((hb hs).2.2.1 r hrp hs')
      · exact absurd hqr ((hb hs').2.2.1 q hqp hs)
      · exact ht.listenOnce q r hs hs' hqr
    · intro q hq i hi
      dsimp only
      rcases hcases q hq with ⟨-, he, hs⟩ | ⟨-, he, hs⟩
      · rw [he]
        exact (hb hs).2.2.2.1 i hi
      · rw [he]
        exact ht.listenApart q hs i hi
    · intro i hi ha
      obtain ⟨h1, h2⟩ := ht.stands i hi ha
      refine ⟨⟨h1.mapped, h1.nameable, h1.object, h1.kept.ends, fun q hq => ?_⟩,
        ⟨h2.mapped, h2.nameable, h2.object, h2.kept.ends, fun q hq => ?_⟩⟩
      · dsimp only
        rcases hcases q hq with ⟨-, he, hs⟩ | ⟨-, he, hs⟩
        · rw [he]
          exact ((hb hs).2.2.2.2 i hi ha).1
        · rw [he]
          exact h1.kept.listens q hs
      · dsimp only
        rcases hcases q hq with ⟨-, he, hs⟩ | ⟨-, he, hs⟩
        · rw [he]
          exact ((hb hs).2.2.2.2 i hi ha).2
        · rw [he]
          exact h2.kept.listens q hs
  · refine ⟨fun q hq hg => ?_, fun q s msg h => ?_, hm.once, fun q r s i h ha hr hg => ?_⟩
    · dsimp only at hg ⊢
      rcases hcases q hq with ⟨-, he, hs⟩ | ⟨-, he, hs⟩
      · rw [he, (hb hs).2.1] at hg
        cases hg
      · rw [he] at hg ⊢
        obtain ⟨i, ha, h⟩ := hm.full q hs hg
        exact ⟨i, ⟨ha.lt, ha.alone, ha.waits⟩, h⟩
    · obtain ⟨i, ha, h⟩ := hm.taken q s msg h
      exact ⟨i, ⟨ha.lt, ha.alone, ha.waits⟩, h⟩
    · dsimp only at hg ⊢
      rcases hcases r hr with ⟨-, he, hs⟩ | ⟨-, he, hs⟩
      · rw [he, (hb hs).2.1] at hg
        cases hg
      · rw [he] at hg ⊢
        exact hm.gone q r s i h ⟨ha.lt, ha.alone, ha.waits⟩ hs hg

/-- `listen`. -/
theorem Inv.listen (hi : w.Inv) {p : Nat} {address : Bytes} {fault : Option CreateFault} (hc : fault ≠ some .spinInit) :
    (w.listen p address fault).2.Inv := by
  unfold Shm.listen
  rcases w.createBuffer_cases (w.connbuff p) address fault with ⟨-, e, h, -⟩ | ⟨⟨-, -, hn⟩, ⟨-, b', h, hb⟩ | ⟨-, h⟩⟩
  · rw [h]
    dsimp only
    rw [Function.update_eq_self]
    exact hi
  · rw [h]
    rcases hb with rfl | hb | hb
    · change ({ w.created address with connbuff := Function.update w.connbuff p (w.connbuff p) } : Shm).Inv
      rw [Function.update_eq_self]
      exact hi.created hn
    · exact (hi.created hn).listening p fun hs => by rw [hb] at hs; cases hs
    · exact absurd hb hc
  · rw [h]
    refine (hi.created hn).listening p fun _ => ⟨Nat.lt_succ_self _, ?_, ?_, ?_, ?_⟩
    · change (Function.update w.segs w.names.made emptySegment w.names.made).guard = false
      rw [Function.update_self]
      rfl
    · exact fun q _ hq => Nat.ne_of_lt (hi.table.listenLt q hq)
    · exact fun i hlt => ⟨Nat.ne_of_lt (hi.table.lt i hlt).1, Nat.ne_of_lt (hi.table.lt i hlt).2.1⟩
    · -- the name of the new buffer has referred to nothing
      intro i hlt ha
      have hne : ∀ {b : MappedBuffer}, w.Stands i b → address ≠ b.segmentname := by
        rintro b hb rfl
        exact hn fun h => nomatch hb.object.symm.trans h
      obtain ⟨h1, h2⟩ := hi.table.stands i hlt ha
      exact ⟨hne h1, hne h2⟩

/-- The end of listening. -/
theorem Inv.endListening (hi : w.Inv) (p : Nat) : (w.endListening p).Inv := by
  unfold Shm.endListening ShmSpace.closeBuffer
  by_cases hs : (w.connbuff p).shmp = true
  · rw [if_neg (by rw [hs]; decide)]
    refine (hi.unlinked fun i hlt ha => ?_).listening p fun h => by cases h
    obtain ⟨h1, h2⟩ := hi.table.stands i hlt ha
    exact ⟨(h1.kept.listens p hs).symm, (h2.kept.listens p hs).symm⟩
  · rw [if_pos (by simpa using hs)]
    dsimp only
    rw [Function.update_eq_self]
    exact hi

/-! ### New handles -/

section

variable {e : ShmEnd} {b : Bool} {k : Nat}

theorem newEnd_of_lt (hk : k < w.allocated) : (w.newEnd e b).ends k = w.ends k ∧ (w.newEnd e b).waits k = w.waits k ∧
    (w.newEnd e b).sent k = w.sent k ∧ (w.newEnd e b).got k = w.got k := by
  have hne := Nat.ne_of_lt hk
  exact ⟨Function.update_of_ne hne .., Function.update_of_ne hne .., Function.update_of_ne hne ..,
    Function.update_of_ne hne ..⟩

theorem newEnd_self : (w.newEnd e b).ends w.allocated = e ∧ (w.newEnd e b).waits w.allocated = b ∧
    (w.newEnd e b).sent w.allocated = [] ∧ (w.newEnd e b).got w.allocated = [] :=
  ⟨Function.update_self .., Function.update_self .., Function.update_self .., Function.update_self ..⟩

/-- What holds of the handles that are there and of the new one. -/
theorem forall_newEnd {P : Nat → ShmEnd → Prop} (hold : ∀ k < w.allocated, P k (w.ends k)) (hnew : P w.allocated e) :
    ∀ k < (w.newEnd e b).allocated, P k ((w.newEnd e b).ends k) := by
  intro k hk
  rcases Nat.lt_succ_iff_lt_or_eq.1 hk with hk | rfl
  · rw [(newEnd_of_lt hk).1]
    exact hold k hk
  · rw [newEnd_self.1]
    exact hnew

/-- A property of two handles. -/
theorem forall₂_newEnd {P : Nat → Nat → ShmEnd → ShmEnd → Prop}
    (hold : ∀ i < w.allocated, ∀ j < w.allocated, P i j (w.ends i) (w.ends j))
    (hleft : ∀ j < w.allocated, P w.allocated j e (w.ends j)) (hright : ∀ i < w.allocated, P i w.allocated (w.ends i) e)
    (hself : P w.allocated w.allocated e e) :
    ∀ i < (w.newEnd e b).allocated, ∀ j < (w.newEnd e b).allocated,
      P i j ((w.newEnd e b).ends i) ((w.newEnd e b).ends j) := by
  refine forall_newEnd (P := fun i x => ∀ j < (w.newEnd e b).allocated, P i j x ((w.newEnd e b).ends j))
    (fun i hi => ?_) ?_
  · exact forall_newEnd (P := fun j y => P i j (w.ends i) y) (hold i hi) (hright i hi)
  · exact forall_newEnd (P := fun j y => P w.allocated j e y) hleft hself

/-- A handle has no counterpart as long as the new one does not read from it. -/
theorem alone_newEnd (hk : k < w.allocated) :
    (w.newEnd e b).Alone k ↔ w.Alone k ∧ e.inBuf.seg ≠ (w.ends k).out.seg := by
  unfold Alone
  rw [(newEnd_of_lt hk).1]
  constructor
  · intro h
    refine ⟨fun j hj => ?_, ?_⟩
    · have hj' := h j (Nat.lt_succ_of_lt hj)
      rwa [(newEnd_of_lt hj).1] at hj'
    · have hself := h w.allocated (Nat.lt_succ_self _)
      rwa [newEnd_self.1] at hself
  · rintro ⟨h, hnew⟩
    exact forall_newEnd (P := fun _ x => x.inBuf.seg ≠ (w.ends k).out.seg) h hnew

theorem Asking.newEnd (ha : w.Asking k) (hne : e.inBuf.seg ≠ (w.ends k).out.seg) : (w.newEnd e b).Asking k :=
  ⟨Nat.lt_succ_of_lt ha.lt, (alone_newEnd ha.lt).2 ⟨ha.alone, hne⟩, (newEnd_of_lt ha.lt).2.1.trans ha.waits⟩

theorem Asking.of_newEnd (ha : (w.newEnd e b).Asking k) (hk : k < w.allocated) : w.Asking k :=
  ⟨hk, ((alone_newEnd hk).1 ha.alone).1, (newEnd_of_lt hk).2.1.symm.trans ha.waits⟩

theorem Stands.newEnd {x : MappedBuffer} (hs : w.Stands k x)
    (hin : e.inBuf.shmp = true → e.inBuf.segmentname ≠ x.segmentname)
    (hout : e.out.shmp = true → e.out.segmentname ≠ x.segmentname) : (w.newEnd e b).Stands k x := by
  refine ⟨hs.mapped, hs.nameable, hs.object, ?_, hs.kept.listens⟩
  exact forall_newEnd (P := fun j y => j ≠ k → (y.inBuf.shmp = true → y.inBuf.segmentname ≠ x.segmentname) ∧
    (y.out.shmp = true → y.out.segmentname ≠ x.segmentname)) hs.kept.ends fun _ => ⟨hin, hout⟩

/-! ### `connect` -/

/-- Two new segments, and the names that the new handle has for them. -/
private structure Opens (w : Shm) (e : ShmEnd) : Prop where
  connects : e.connects = true
  lt : e.inBuf.seg < w.names.made ∧ e.out.seg < w.names.made ∧ e.inBuf.seg ≠ e.out.seg
  fresh : ∀ k < w.allocated, (w.ends k).inBuf.seg ≠ e.inBuf.seg ∧ (w.ends k).inBuf.seg ≠ e.out.seg ∧
    (w.ends k).out.seg ≠ e.inBuf.seg ∧ (w.ends k).out.seg ≠ e.out.seg
  listens : ∀ p, (w.connbuff p).shmp = true → e.inBuf.seg ≠ (w.connbuff p).seg ∧ e.out.seg ≠ (w.connbuff p).seg
  empty : (w.segs e.inBuf.seg).guard = false ∧ (w.segs e.out.seg).guard = false
  asked : e.asked < w.names.made ∧ e.inBuf.seg ≠ e.asked ∧ e.out.seg ≠ e.asked ∧
    ∀ k < w.allocated, (w.ends k).inBuf.seg ≠ e.asked ∧ (w.ends k).out.seg ≠ e.asked
  away : ∀ k < w.allocated, w.waits k = true → e.inBuf.seg ≠ (w.ends k).asked ∧ e.out.seg ≠ (w.ends k).asked
  mapped : e.inBuf.shmp = true ∧ e.out.shmp = true
  nameable : Nameable e.inBuf.segmentname ∧ Nameable e.out.segmentname
  object : w.names.object e.inBuf.segmentname = some e.inBuf.seg ∧ w.names.object e.out.segmentname = some e.out.seg
  maps : ¬w.Maps e.inBuf.segmentname ∧ ¬w.Maps e.out.segmentname

private theorem Opens.table (ho : w.Opens e) (ht : w.Table) : (w.newEnd e true).Table where
  shmname := ht.shmname
  sound := ht.sound
  lt := forall_newEnd (P := fun _ x => x.inBuf.seg < w.names.made ∧ x.out.seg < w.names.made ∧
    x.inBuf.seg ≠ x.out.seg) ht.lt ho.lt
  inOnce := forall₂_newEnd (P := fun i j x y => x.inBuf.seg = y.inBuf.seg → i = j) ht.inOnce
    (fun j hj he => absurd he.symm (ho.fresh j hj).1) (fun i hi he => absurd he (ho.fresh i hi).1) fun _ => rfl
  outOnce := forall₂_newEnd (P := fun i j x y => x.out.seg = y.out.seg → i = j) ht.outOnce
    (fun j hj he => absurd he.symm (ho.fresh j hj).2.2.2) (fun i hi he => absurd he (ho.fresh i hi).2.2.2) fun _ => rfl
  cross := forall₂_newEnd (P := fun _ _ x y => x.out.seg = y.inBuf.seg → y.out.seg = x.inBuf.seg) ht.cross
    (fun j hj he => absurd he.symm (ho.fresh j hj).2.1) (fun i hi he => absurd he (ho.fresh i hi).2.2.1)
    fun he => absurd he.symm ho.lt.2.2
  listenLt := ht.listenLt
  listenOnce := ht.listenOnce
  listenApart := fun p hp => forall_newEnd
    (P := fun _ x => x.inBuf.seg ≠ (w.connbuff p).seg ∧ x.out.seg ≠ (w.connbuff p).seg) (ht.listenApart p hp)
      (ho.listens p hp)
  asked := by
    intro i hi hw
    rcases Nat.lt_succ_iff_lt_or_eq.1 hi with hi | rfl
    · rw [(newEnd_of_lt hi).2.1] at hw
      obtain ⟨h1, h2, h3⟩ := ht.asked i hi hw
      refine ⟨(alone_newEnd hi).2 ⟨h1, (ho.fresh i hi).2.2.1.symm⟩, ?_⟩
      rw [(newEnd_of_lt hi).1]
      exact ⟨h2, forall_newEnd (P := fun _ x => x.inBuf.seg ≠ (w.ends i).asked ∧
        x.out.seg ≠ (w.ends i).asked) h3 (ho.away i hi hw)⟩
    · unfold Alone
      rw [newEnd_self.1]
      exact ⟨forall_newEnd (P := fun _ x => x.inBuf.seg ≠ e.out.seg)
        (fun k hk => (ho.fresh k hk).2.1) ho.lt.2.2, ho.asked.1,
        forall_newEnd (P := fun _ x => x.inBuf.seg ≠ e.asked ∧ x.out.seg ≠ e.asked) ho.asked.2.2.2
        ⟨ho.asked.2.1, ho.asked.2.2.1⟩⟩
  served := by
    refine forall_newEnd (P := fun _ x => x.connects = false → ∃ i < (w.newEnd e true).allocated,
      ((w.newEnd e true).ends i).connects = true ∧ ((w.newEnd e true).ends i).out.seg = x.inBuf.seg ∧
        ((w.newEnd e true).ends i).asked = x.asked) (fun j hj hc => ?_) fun hc => ?_
    · obtain ⟨i, hi, h⟩ := ht.served j hj hc
      refine ⟨i, Nat.lt_succ_of_lt hi, ?_⟩
      rw [(newEnd_of_lt hi).1]
      exact h
    · rw [ho.connects] at hc
      cases hc
  stands := by
    have hne : ∀ {k x name}, w.Stands k x → ¬w.Maps name →
        (∃ k < w.allocated, x = (w.ends k).inBuf ∨ x = (w.ends k).out) → name ≠ x.segmentname := by
      rintro k x name hs hm ⟨k', hk', hx⟩ rfl
      refine hm (Or.inl ⟨k', hk', ?_⟩)
      rcases hx with rfl | rfl
      · exact Or.inl ⟨hs.mapped, rfl⟩
      · exact Or.inr ⟨hs.mapped, rfl⟩
    intro i hi ha
    rcases Nat.lt_succ_iff_lt_or_eq.1 hi with hi | rfl
    · obtain ⟨h1, h2⟩ := ht.stands i hi ((alone_newEnd hi).1 ha).1
      rw [(newEnd_of_lt hi).1]
      exact ⟨h1.newEnd (fun _ => hne h1 ho.maps.1 ⟨i, hi, Or.inl rfl⟩) fun _ => hne h1 ho.maps.2 ⟨i, hi, Or.inl rfl⟩,
        h2.newEnd (fun _ => hne h2 ho.maps.1 ⟨i, hi, Or.inr rfl⟩) fun _ => hne h2 ho.maps.2 ⟨i, hi, Or.inr rfl⟩⟩
    · rw [newEnd_self.1]
      have hkept : ∀ {name}, ¬w.Maps name → (w.newEnd e true).Kept w.allocated name := by
        intro name hm
        refine ⟨?_, fun p hp he => hm (Or.inr ⟨p, hp, he⟩)⟩
        refine forall_newEnd (P := fun k y => k ≠ w.allocated → (y.inBuf.shmp = true → y.inBuf.segmentname ≠ name) ∧
          (y.out.shmp = true → y.out.segmentname ≠ name)) (fun k hk _ => ?_) fun hne => absurd rfl hne
        exact ⟨fun hs he => hm (Or.inl ⟨k, hk, Or.inl ⟨hs, he⟩⟩), fun hs he => hm (Or.inl ⟨k, hk, Or.inr ⟨hs, he⟩⟩)⟩
      exact ⟨⟨ho.mapped.1, ho.nameable.1, ho.object.1, hkept ho.maps.1⟩,
        ⟨ho.mapped.2, ho.nameable.2, ho.object.2, hkept ho.maps.2⟩⟩

private theorem Opens.mail (ho : w.Opens e) (hm : w.Mail) : (w.newEnd e true).Mail := by
  have hold : ∀ {k}, (w.newEnd e true).Asking k → w.Asking k := by
    intro k ha
    rcases Nat.lt_succ_iff_lt_or_eq.1 ha.lt with hk | rfl
    · exact ha.of_newEnd hk
    · have hw := ha.waits
      rw [newEnd_self.2.1] at hw
      cases hw
  refine ⟨fun p hp hg => ?_, fun p s msg h => ?_, hm.once, fun p q s i h ha hq hg => ?_⟩
  · obtain ⟨i, ha, h⟩ := hm.full p hp hg
    refine ⟨i, ha.newEnd (ho.fresh i ha.lt).2.2.1.symm, ?_⟩
    rw [(newEnd_of_lt ha.lt).1]
    exact h
  · obtain ⟨i, ha, h⟩ := hm.taken p s msg h
    refine ⟨i, ha.newEnd (ho.fresh i ha.lt).2.2.1.symm, ?_⟩
    rw [(newEnd_of_lt ha.lt).1]
    exact h
  · have ha' := hold ha
    rw [(newEnd_of_lt ha'.lt).1] at h ⊢
    exact hm.gone p q s i h ha' hq hg

private theorem Opens.traffic (ho : w.Opens e) (hf : w.Traffic) : (w.newEnd e true).Traffic := by
  refine ⟨fun i hi j hj he => ?_, fun i hi ha => ?_⟩
  · rcases Nat.lt_succ_iff_lt_or_eq.1 hi with hi | rfl <;> rcases Nat.lt_succ_iff_lt_or_eq.1 hj with hj | rfl
    · rw [(newEnd_of_lt hi).1, (newEnd_of_lt hj).1] at he
      rw [(newEnd_of_lt hj).1, (newEnd_of_lt hj).2.2.2, (newEnd_of_lt hi).2.2.1]
      exact hf.received i hi j hj he
    · rw [(newEnd_of_lt hi).1, newEnd_self.1] at he
      exact absurd he (ho.fresh i hi).2.2.1
    · rw [(newEnd_of_lt hj).1, newEnd_self.1] at he
      exact absurd he.symm (ho.fresh j hj).2.1
    · rw [newEnd_self.1] at he
      exact absurd he.symm ho.lt.2.2
  · rcases Nat.lt_succ_iff_lt_or_eq.1 hi with hi | rfl
    · obtain ⟨h1, h2, h3, h4⟩ := hf.quiet i hi ((alone_newEnd hi).1 ha).1
      obtain ⟨he, -, hs, hg⟩ := newEnd_of_lt (e := e) (b := true) hi
      exact ⟨hg.trans h1, he ▸ h2, he ▸ hs ▸ h3, hs ▸ h4⟩
    · obtain ⟨he, -, hs, hg⟩ := newEnd_self (w := w) (e := e) (b := true)
      refine ⟨hg, ?_, ?_, ?_⟩
      · rw [he]
        exact ho.empty.1
      · rw [he, hs]
        unfold content
        rw [show ((w.newEnd e true).segs e.out.seg).guard = false from ho.empty.2, if_neg Bool.false_ne_true]
        exact .nil
      · rw [hs]
        exact nofun

private theorem Inv.opens (hi : w.Inv) (ho : w.Opens e) : (w.newEnd e true).Inv :=
  ⟨ho.table hi.table, ho.mail hi.mail, ho.traffic hi.traffic⟩

end

private theorem nameable_of {s mid : Bytes} (hs : UInt8.ofNat ':'.toNat ∉ s ∧ 0 ∉ s)
    (hmid : UInt8.ofNat ':'.toNat ∉ mid ∧ 0 ∉ mid) {n : Nat}
    (hlen : (literal ['/'] ++ s ++ mid ++ literal (Nat.toDigits 10 n)).length ≤ shmNameMax) :
    Nameable (literal ['/'] ++ s ++ mid ++ literal (Nat.toDigits 10 n)) := by
  have hnot : ∀ {c : UInt8}, c ∉ literal ['/'] → c ∉ s → c ∉ mid → (c.toNat < 48 ∨ 57 < c.toNat) →
      c ∉ literal ['/'] ++ s ++ mid ++ literal (Nat.toDigits 10 n) := by
    intro c h1 h2 h3 h4 hm
    rcases List.mem_append.1 hm with hm | hm
    · rcases List.mem_append.1 hm with hm | hm
      · exact (List.mem_append.1 hm).elim h1 h2
      · exact h3 hm
    · have := mem_numeral hm
      omega
  exact ⟨hnot (by decide) hs.1 hmid.1 (by decide), hnot (by decide) hs.2 hmid.2 (by decide), hlen⟩

private theorem Inv.twoCreated (hi : w.Inv) {a b : Bytes} {s : Nat} (p : Nat) (hs : s < w.names.made)
    (happ : ∀ k < w.allocated, (w.ends k).inBuf.seg ≠ s ∧ (w.ends k).out.seg ≠ s)
    (hb : ¬(w.created a).Named b) (hmaps : ¬w.Maps a ∧ ¬w.Maps b) (hnames : Nameable a ∧ Nameable b) :
    ((w.created a).created b).Opens
      { owner := p
        connects := true
        asked := s
        inBuf := ⟨w.names.made, true, a, true⟩
        out := ⟨w.names.made + 1, true, b, true⟩ } := by
  obtain ⟨ht, -, -⟩ := hi
  have hends : ∀ k < w.allocated, (w.ends k).inBuf.seg < w.names.made ∧ (w.ends k).out.seg < w.names.made :=
    fun k hk => ⟨(ht.lt k hk).1, (ht.lt k hk).2.1⟩
  constructor
  · rfl
  · exact ⟨Nat.lt_succ_of_lt (Nat.lt_succ_self _), Nat.lt_succ_self _, Nat.ne_of_lt (Nat.lt_succ_self _)⟩
  · intro k hk
    have := hends k hk
    dsimp only
    change (w.ends k).inBuf.seg ≠ _ ∧ (w.ends k).inBuf.seg ≠ _ ∧ (w.ends k).out.seg ≠ _ ∧ (w.ends k).out.seg ≠ _
    omega
  · intro q hq
    have := ht.listenLt q hq
    dsimp only
    change _ ≠ (w.connbuff q).seg ∧ _ ≠ (w.connbuff q).seg
    omega
  · refine ⟨?_, ?_⟩
    · change (Function.update (w.created a).segs (w.names.made + 1) emptySegment w.names.made).guard = false
      rw [Function.update_of_ne (Nat.ne_of_lt (Nat.lt_succ_self _))]
      change (Function.update w.segs w.names.made emptySegment w.names.made).guard = false
      rw [Function.update_self]
      rfl
    · change (Function.update (w.created a).segs (w.names.made + 1) emptySegment (w.names.made + 1)).guard = false
      rw [Function.update_self]
      rfl
  · refine ⟨?_, ?_, ?_, happ⟩
    · exact Nat.lt_succ_of_lt (Nat.lt_succ_of_lt hs)
    · exact Nat.ne_of_gt hs
    · exact Nat.ne_of_gt (Nat.lt_succ_of_lt hs)
  · intro k hk hw
    have := (ht.asked k hk hw).2.1
    dsimp only
    change _ ≠ (w.ends k).asked ∧ _ ≠ (w.ends k).asked
    omega
  · exact ⟨rfl, rfl⟩
  · exact hnames
  · exact ⟨Names.create_keeps (not_not.1 hb) (Names.create_self _ _), Names.create_self _ _⟩
  · exact hmaps

private theorem Inv.counted (hi : w.Inv) (ids : Nat → BitVec 32) : ({ w with shmconnid := ids } : Shm).Inv := by
  obtain ⟨ht, hm, hf⟩ := hi
  exact ⟨ht.frame, hm.frame fun _ _ => rfl, hf.frame fun _ _ => ⟨rfl, rfl⟩⟩

/-- `connect`. -/
theorem Inv.connect (hi : w.Inv) {p : Nat} {address : Bytes} {f : ConnectFaults}
    (hc : w.Careful (.connect p address f)) : (w.connect p address f).2.Inv := by
  obtain ⟨hin, hout, haddr⟩ := hc
  unfold Shm.connect
  have hnext : ∀ id, ({ w with shmconnid := Function.update w.shmconnid p id } : Shm).Inv := fun id => hi.counted _
  rcases w.connectBuffers_cases (w.shmname p) (w.shmconnid p) address f with ⟨-, e, id, h, -⟩ |
    ⟨⟨-, -, -, hlen, hn⟩, ⟨-, e, sp, h, hsp⟩ | ⟨⟨-, -, -, hlen', hn'⟩, s, hobj, h⟩⟩
  · rw [h]
    exact hnext id
  · rw [h]
    rcases hsp with rfl | ⟨hn', rfl⟩
    · exact (hnext _).created hn
    · exact ((hnext _).created hn).created hn'
  · rw [h]
    have hi1 := hnext (w.shmconnid p + 1)
    have hn'' : ¬(w.toShmSpace.created (w.inname p)).Named (w.outname p) :=
      fun hnamed => hn' ((ShmSpace.named_created_of_ne (ShmSpace.shmOutname_ne_shmInname _ _)).1 hnamed)
    refine ((hi1.created hn).created hn'').opens
      (hi1.twoCreated p (hi.table.sound.lt hobj) (haddr s hobj) hn'' ⟨hin, hout⟩ ⟨?_, ?_⟩)
    · exact nameable_of (hi.table.shmname p) (by decide) hlen
    · exact nameable_of (hi.table.shmname p) (by decide) hlen'

/-! ### Connection messages -/

/-- A message of one chunk is found whole in the slot. -/
theorem get_one {seg : ShmSegment} {m : Bytes} (hg : seg.guard = true) (h : seg.Holds (.next m.length m)) (hm : m ≠ [])
    (hlen : m.length ≤ shmSmallMsgSize) :
    ({ seg := seg } : ShmBuffer).get shmSmallMsgSize = .ok (.ok m.length, m, { seg := seg.release }) := by
  obtain ⟨hsize, hdata⟩ := h
  change seg.size = m.length at hsize
  have hchunk : (Fill.next m.length m).chunk = m := List.take_of_length_le hlen
  rw [hchunk] at hdata
  have hpos := List.length_pos_iff.2 hm
  have hone : Rounding.ceilDiv m.length shmSmallMsgSize = 1 := by
    have h1 : Rounding.ceilDiv m.length shmSmallMsgSize ≤ 1 :=
      (Rounding.ceilDiv_le_iff shmSmallMsgSize_pos).2 (by rwa [Nat.one_mul])
    have h2 := Rounding.ceilDiv_pos shmSmallMsgSize_pos hpos
    omega
  unfold ShmBuffer.get ShmBuffer.await
  rw [if_neg (fun h => by cases h), if_pos hg, bind_ok]
  unfold ShmBuffer.takeMessage
  dsimp only
  rw [hsize, if_neg (Nat.ne_of_gt hpos), nmsgs_exact (hlen.trans (by decide)), hone, bind_ok, ShmBuffer.getLoop]
  dsimp only
  rw [if_pos rfl, bind_ok, Nat.min_eq_left hlen, hdata]
  rfl

theorem asks_ne_nil (e : ShmEnd) : request e ≠ [] := by
  unfold request connectMessage
  rw [List.append_assoc]
  exact List.append_ne_nil_of_right_ne_nil _ (List.cons_ne_nil _ _)

namespace Table

variable (ht : w.Table)
include ht

theorem request_length (hi : i < w.allocated) (ha : w.Alone i) : (request (w.ends i)).length ≤ shmSmallMsgSize := by
  obtain ⟨h1, h2⟩ := ht.stands i hi ha
  have hin := h1.nameable.2.2
  have hout := h2.nameable.2.2
  have hlen : (request (w.ends i)).length = (w.ends i).inBuf.segmentname.length + 1 +
      (w.ends i).out.segmentname.length := by
    unfold request connectMessage
    rw [List.length_append, List.length_append]
    rfl
  have : shmNameMax + 1 + shmNameMax ≤ shmSmallMsgSize := by decide
  omega

/-- A slot holds the connection message of one handle. -/
theorem holds_injective (hi : i < w.allocated) (hai : w.Alone i) (hj : j < w.allocated) (haj : w.Alone j)
    {seg : ShmSegment} (h : seg.Holds (asks (w.ends i))) (h' : seg.Holds (asks (w.ends j))) : i = j := by
  have hchunk : ∀ {k}, k < w.allocated → w.Alone k → seg.Holds (asks (w.ends k)) →
      seg.size = (request (w.ends k)).length ∧ seg.data.take (request (w.ends k)).length = request (w.ends k) := by
    intro k hk ha hh
    have htake : (asks (w.ends k)).chunk = request (w.ends k) := List.take_of_length_le (ht.request_length hk ha)
    have hdata := hh.2
    rw [htake] at hdata
    exact ⟨hh.1, hdata⟩
  obtain ⟨hs, hd⟩ := hchunk hi hai h
  obtain ⟨hs', hd'⟩ := hchunk hj haj h'
  refine ht.request_injective hi hai hj haj ?_
  rw [← hd, ← hd', ← hs, ← hs']

end Table

/-- The end of `connect`. -/
theorem Inv.ask (hi : w.Inv) (hp : w.Possible (.ask i)) (h : w.ask i = .ok w') : w'.Inv := by
  obtain ⟨ht, hm, hf⟩ := hi
  obtain ⟨hlt, hw⟩ := hp
  obtain ⟨halone, hasked, happ⟩ := ht.asked i hlt hw
  unfold Shm.ask at h
  dsimp only at h
  by_cases hg : (w.segs (w.ends i).asked).guard = true
  · rw [if_pos hg] at h
    cases h
  · rw [if_neg hg] at h
    cases h
    have hne : ∀ {k}, w.Asking k → k ≠ i := by
      rintro k ha rfl
      rw [ha.waits] at hw
      cases hw
    have hkeep : ∀ {k}, k ≠ i → Function.update w.waits i false k = w.waits k := fun hk => Function.update_of_ne hk ..
    refine ⟨?_, ⟨?_, ?_, hm.once, ?_⟩, hf.frame fun k hk => ?_⟩
    · refine ⟨ht.shmname, ht.sound, ht.lt, ht.inOnce, ht.outOnce, ht.cross, ht.listenLt, ht.listenOnce,
        ht.listenApart, ?_, ht.served, ?_⟩
      · intro k hk hwk
        have hki : k ≠ i := by
          rintro rfl
          dsimp only at hwk
          rw [Function.update_self] at hwk
          cases hwk
        exact ht.asked k hk ((hkeep hki).symm.trans hwk)
      · intro k hk ha
        obtain ⟨h1, h2⟩ := ht.stands k hk ha
        exact ⟨⟨h1.1, h1.2, h1.3, h1.kept.1, h1.kept.2⟩, ⟨h2.1, h2.2, h2.3, h2.kept.1, h2.kept.2⟩⟩
    · intro p hp hgp
      dsimp only at hp hgp ⊢
      by_cases hs : (w.connbuff p).seg = (w.ends i).asked
      · refine ⟨i, ⟨hlt, halone, Function.update_self ..⟩, hs.symm, ?_⟩
        rw [hs, Function.update_self]
        exact ⟨rfl, List.take_left' rfl⟩
      · rw [Function.update_of_ne hs] at hgp ⊢
        obtain ⟨k, ha, hk⟩ := hm.full p hp hgp
        exact ⟨k, ⟨ha.lt, ha.alone, (hkeep (hne ha)).trans ha.waits⟩, hk⟩
    · intro p s msg hacc
      obtain ⟨k, ha, hk⟩ := hm.taken p s msg hacc
      exact ⟨k, ⟨ha.lt, ha.alone, (hkeep (hne ha)).trans ha.waits⟩, hk⟩
    · intro p q s k hacc ha hq hgq
      -- the message that has been taken is not that of `i`
      have hki : k ≠ i := by
        rintro rfl
        obtain ⟨k', ha', -, hreq⟩ := hm.taken p s _ hacc
        exact hne ha' (ht.request_injective ha'.lt ha'.alone hlt halone hreq.symm)
      have hold : w.Asking k := ⟨ha.lt, ha.alone, (hkeep hki).symm.trans ha.waits⟩
      dsimp only at hq hgq ⊢
      by_cases hs : (w.connbuff q).seg = (w.ends i).asked
      · rw [hs, Function.update_self]
        intro hh
        refine hki (ht.holds_injective hold.lt hold.alone hlt halone hh ?_)
        exact ⟨rfl, List.take_left' rfl⟩
      · rw [Function.update_of_ne hs] at hgq ⊢
        exact hm.gone p q s k hacc hold hq hgq
    · exact ⟨Function.update_of_ne (happ k hk).1 .., Function.update_of_ne (happ k hk).2 ..⟩

/-- `update` looks into its listening buffer: nothing happens, or it gets what is there. -/
private theorem look_cases (hi : w.Inv) (p : Nat) : w.look p = .ok w ∨ ∃ i, (w.connbuff p).shmp = true ∧
    (w.segs (w.connbuff p).seg).guard = true ∧ w.Asking i ∧ (w.ends i).asked = (w.connbuff p).seg ∧
    (w.segs (w.connbuff p).seg).Holds (asks (w.ends i)) ∧ w.look p = .ok { w with
      segs := Function.update w.segs (w.connbuff p).seg (w.segs (w.connbuff p).seg).release
      accepting := Function.update w.accepting p (some ((w.connbuff p).seg, request (w.ends i))) } := by
  unfold Shm.look
  dsimp only
  cases hopen : (w.connbuff p).opened with
  | false => exact Or.inl rfl
  | true =>
    rw [if_neg (by decide)]
    unfold ShmBuffer.trygetsize ShmBuffer.look
    cases hs : (w.connbuff p).shmp with
    | false => exact Or.inl rfl
    | true =>
      dsimp only
      rw [if_neg (by decide)]
      by_cases hg : (w.segs (w.connbuff p).seg).guard = true
      · right
        obtain ⟨i, ha, hasked, hh⟩ := hi.mail.full p hs hg
        refine ⟨i, rfl, hg, ha, hasked, hh, ?_⟩
        rw [if_pos hg]
        dsimp only
        rw [if_pos hg]
        dsimp only
        rw [get_one hg hh (asks_ne_nil _) (hi.table.request_length ha.lt ha.alone)]
        rfl
      · left
        rw [if_neg hg]
        dsimp only
        rw [if_neg hg]

theorem Inv.look (hi : w.Inv) {p : Nat} (hp : w.Possible (.look p)) (h : w.look p = .ok w') : w'.Inv := by
  rcases look_cases hi p with he | ⟨i, hs, hg, ha, hasked, hh, he⟩
  · rw [he] at h
    cases h
    exact hi
  · rw [he] at h
    cases h
    obtain ⟨ht, hm, hf⟩ := hi
    have hacc : w.accepting p = none := hp
    have hseg : ∀ {q}, q ≠ p → (w.connbuff q).shmp = true →
        Function.update w.segs (w.connbuff p).seg (w.segs (w.connbuff p).seg).release (w.connbuff q).seg =
          w.segs (w.connbuff q).seg :=
      fun hqp hq => Function.update_of_ne (fun e => hqp (ht.listenOnce _ _ hq hs e)) ..
    have hguard : ∀ {q}, (w.connbuff q).shmp = true →
        (Function.update w.segs (w.connbuff p).seg (w.segs (w.connbuff p).seg).release
          (w.connbuff q).seg).guard = true → q ≠ p := by
      rintro q hq hgq rfl
      rw [Function.update_self] at hgq
      cases hgq
    have hcases : ∀ {q s msg}, Function.update w.accepting p (some ((w.connbuff p).seg, request (w.ends i))) q =
        some (s, msg) →
        (q = p ∧ s = (w.connbuff p).seg ∧ msg = request (w.ends i)) ∨ q ≠ p ∧ w.accepting q = some (s, msg) := by
      intro q s msg h
      by_cases hqp : q = p
      · subst hqp
        rw [Function.update_self] at h
        cases h
        exact Or.inl ⟨rfl, rfl, rfl⟩
      · rw [Function.update_of_ne hqp] at h
        exact Or.inr ⟨hqp, h⟩
    refine ⟨ht.frame, ⟨?_, ?_, ?_, ?_⟩, hf.frame fun k hk => ?_⟩
    · intro q hq hgq
      dsimp only at hq hgq ⊢
      have hqp := hguard hq hgq
      rw [hseg hqp hq] at hgq ⊢
      obtain ⟨k, hk, h⟩ := hm.full q hq hgq
      exact ⟨k, ⟨hk.lt, hk.alone, hk.waits⟩, h⟩
    · intro q s msg h
      rcases hcases h with ⟨-, rfl, rfl⟩ | ⟨-, h⟩
      · exact ⟨i, ⟨ha.lt, ha.alone, ha.waits⟩, hasked, rfl⟩
      · obtain ⟨k, hk, h⟩ := hm.taken q s msg h
        exact ⟨k, ⟨hk.lt, hk.alone, hk.waits⟩, h⟩
    · intro q r s t msg h h'
      rcases hcases h with ⟨hqp, -, hmsg⟩ | ⟨-, hq⟩ <;> rcases hcases h' with ⟨hrp, -, hmsg'⟩ | ⟨-, hr⟩
      · rw [hqp, hrp]
      · exact absurd hh (hm.gone r p t i (hmsg ▸ hr) ha hs hg)
      · exact absurd hh (hm.gone q p s i (hmsg' ▸ hq) ha hs hg)
      · exact hm.once q r s t msg hq hr
    · intro q r s k h hk hr hgr
      dsimp only at hr hgr ⊢
      have hrp := hguard hr hgr
      have hk' : w.Asking k := ⟨hk.lt, hk.alone, hk.waits⟩
      rw [hseg hrp hr] at hgr ⊢
      rcases hcases h with ⟨-, -, hmsg⟩ | ⟨-, h⟩
      · -- a message that is found in two buffers has been asked for in both
        intro hh'
        obtain ⟨k', ha', hasked', hh''⟩ := hm.full r hr hgr
        have hkk := ht.holds_injective hk'.lt hk'.alone ha'.lt ha'.alone hh' hh''
        have hki := ht.request_injective hk'.lt hk'.alone ha.lt ha.alone hmsg
        rw [← hkk, hki, hasked] at hasked'
        exact hrp (ht.listenOnce r p hr hs hasked'.symm)
      · exact hm.gone q r s k h hk' hr hgr
    · exact ⟨Function.update_of_ne (ht.listenApart p hs k hk).1 ..,
        Function.update_of_ne (ht.listenApart p hs k hk).2 ..⟩

end Mtcl.Shm
