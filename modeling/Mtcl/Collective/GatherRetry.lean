import Mathlib.Algebra.Order.BigOperators.Group.List
import Mtcl.Collective.Gather
import Mtcl.EndOfStream

/-!
# A gather that has failed

The root of a gather reads a rank and a block from one participant after the other.  When there is no room for a
block the call fails, and what has been read until then is gone: the participants before that one have given
their round, and this one its rank.

`retriable_iff` says that a root can call again after such a failure, and get the round it has asked for,
exactly when there is none: whenever the block of some participant is too large, no further call delivers that
round.
-/

namespace Mtcl

open Blocks Sources

variable {H W : Type}

/-- A participant that is between two messages is in no other phase as well. -/
def Telling (I : H → Phase (List Bytes) Bytes → W → Prop) : Prop :=
  ∀ {h : H} {ph : Phase (List Bytes) Bytes} {q : List Bytes} {w : W}, I h ph w → I h (.idle q) w → ph = .idle q

/-- What arrives is what comes first, and all of it when the peer has not closed. -/
theorem Arrives.lead {closed : Bool} {s : List SockArrival} {bs : Bytes} (h : Arrives closed s bs) :
    ∃ x, bs ++ x = Arrivals.lead s ∧ (closed = false → x = []) := by
  obtain ⟨-, htake, -⟩ := h.1.take (Nat.le_refl _)
  rw [Arrivals.length_loose, Arrivals.map_fst_loose, List.take_length] at htake
  have hsplit := List.take_append_drop bs.length (Arrivals.lead s)
  rw [htake] at hsplit
  refine ⟨_, hsplit, fun hc => ?_⟩
  rw [(h.2 hc).1, List.drop_length]

/-- A TCP handle that is between two messages knows nothing of the next, and what arrives is one list of messages. -/
theorem tcp_telling (closed : Nat → Bool) : Telling fun id => Attending (Arrives (closed id)) (closed id) id := by
  intro id ph q p hph hidle
  obtain ⟨-, hprobed, hq, hA⟩ := hidle
  cases ph with
  | idle q' =>
    obtain ⟨-, -, hq', hA'⟩ := hph
    obtain ⟨x, hx, hnil⟩ := hA.lead
    obtain ⟨y, hy, hnil'⟩ := hA'.lead
    obtain ⟨-, rfl⟩ := encode_append_injective hq' hq hnil' hnil (hy.trans hx.symm)
    rfl
  | opened m q' =>
    obtain ⟨-, hprobed', -⟩ := hph
    rw [hprobed'] at hprobed
    cases hprobed
  | ended q' =>
    obtain ⟨-, -, hprobed', -⟩ := hph
    rw [hprobed'] at hprobed
    cases hprobed

namespace GatherGeneric

/-- A call of the root returns with the block of every participant at the place of its rank, and each of them
stands behind the round. -/
def Delivered (I : H → Phase (List Bytes) Bytes → W → Prop) (ps : List H) (rank : H → Nat) (D : Nat → Bytes)
    (rest : H → List Bytes) (size : Nat)
    (r : Except Stop ((Ret × Bytes) × (CollectiveContext (GatherGeneric H) × W))) : Prop :=
  ∃ buff s, r = .ok ((.ok sizeofSizeT, buff), s) ∧
    ∀ h ∈ ps, (block size (rank h) buff).take (D (rank h)).length = D (rank h) ∧ I h (.idle (rest h)) s.2

section

variable {vt : H → CommunicationHandle W} {closed : H → Bool} {I : H → Phase (List Bytes) Bytes → W → Prop}
  {garbage : Nat → UInt8} {n s : Nat} {rank : H → Nat} {D : Nat → Bytes} {rest : H → List Bytes} {w : W}

/-- What the loop does not read from stays in its phase. -/
theorem receiveLoop_keeps (hp : Participants vt (fun h => queue (closed h)) I) {hs : List H} {j : H} (hj : j ∉ hs)
    {ph : Phase (List Bytes) Bytes} {buff buff' : Bytes} {r : Ret} {w' : W} (hI : I j ph w)
    (he : receiveLoop vt garbage s hs buff w = .ok (r, buff', w')) : I j ph w' := by
  induction hs generalizing buff w with
  | nil =>
    cases he
    exact hI
  | cons h hs ih =>
    have hjh : j ≠ h := fun e => hj (e ▸ List.mem_cons_self ..)
    have hkeep : ∀ {cap r bs w w'}, I j ph w → receiveFromHandle vt h cap w = .ok (r, bs, w') → I j ph w' :=
      fun hI he => receiveFromHandle_keeps (hp.apart hjh ph) hI he
    unfold receiveLoop at he
    obtain ⟨⟨r1, bs1, w1⟩, h1, he⟩ := bind_eq_ok.1 he
    have hI1 := hkeep hI h1
    rcases r1 with e | _ | k
    · cases he
      exact hI1
    · cases he
      exact hI1
    · obtain ⟨⟨r2, bs2, w2⟩, h2, he⟩ := bind_eq_ok.1 he
      obtain ⟨buff2, -, he⟩ := bind_eq_ok.1 he
      have hI2 := hkeep hI1 h2
      rcases r2 with e | _ | k
      · cases he
        exact hI2
      · cases he
        exact hI2
      · exact ih (fun hmem => hj (List.mem_cons_of_mem _ hmem)) hI2 he

/-- A loop that succeeds has taken two messages from every participant. -/
theorem receiveLoop_takes (hp : Participants vt (fun h => queue (closed h)) I) {hs : List H} (hnodup : hs.Nodup) {k : H}
    (hk : k ∈ hs) {ph : Phase (List Bytes) Bytes} {q : List Bytes} (hq : ph.queue = (q, false))
    {buff buff' : Bytes} {m : Nat} {w' : W} (hI : I k ph w)
    (he : receiveLoop vt garbage s hs buff w = .ok (.ok (m + 1), buff', w')) :
    ∃ a b q' ph', q = a :: b :: q' ∧ ph'.queue = (q', false) ∧ I k ph' w' := by
  induction hs generalizing buff w with
  | nil => cases hk
  | cons h hs ih =>
    obtain ⟨hh, hnodup⟩ := List.nodup_cons.1 hnodup
    unfold receiveLoop at he
    obtain ⟨⟨r1, bs1, w1⟩, h1, he1⟩ := bind_eq_ok.1 he
    rcases r1 with e | _ | k1
    · cases he1
    · cases he1
    · obtain ⟨⟨r2, bs2, w2⟩, h2, he2⟩ := bind_eq_ok.1 he1
      obtain ⟨buff2, -, hloop⟩ := bind_eq_ok.1 he2
      rcases r2 with e | _ | k2
      · cases hloop
      · cases hloop
      · by_cases hkh : k = h
        · subst hkh
          -- its rank and its block; the rest of the loop reads from the others
          have htake : ∀ {ph : Phase (List Bytes) Bytes} {q cap r bs w w'}, ph.queue = (q, false) → I k ph w →
              receiveFromHandle vt k cap w = .ok (.ok (r + 1), bs, w') →
              ∃ q' ph', q = bs :: q' ∧ ph'.queue = (q', false) ∧ I k ph' w' := by
            intro ph q cap r bs w w' hq hI he
            rcases receiveFromHandle_queue (hp.reads k).hears hI hq he with
              ⟨q', ph', hq', -, -, -, hph', hI'⟩ | ⟨_, _, _, _, _, hr, _⟩ | ⟨_, _, hr, _⟩
            · exact ⟨q', ph', hq', hph', hI'⟩
            · cases hr
            · cases hr
          obtain ⟨q1, ph1, rfl, hq1, hI1⟩ := htake hq hI h1
          obtain ⟨q2, ph2, rfl, hq2, hI2⟩ := htake hq1 hI1 h2
          exact ⟨_, _, q2, ph2, rfl, hq2, receiveLoop_keeps hp hh hI2 hloop⟩
        · have hkeep := hp.apart hkh ph
          have hI2 := receiveFromHandle_keeps hkeep (receiveFromHandle_keeps hkeep hI h1) h2
          exact ih hnodup ((List.mem_cons.1 hk).resolve_left hkh) hI2 hloop

/-- When there is room for every block, the loop stores them all. -/
theorem receiveLoop_delivers (hp : Participants vt (fun h => queue (closed h)) I) (hn : n ≤ 2 ^ 31)
    (hsize : n * s < 2 ^ 64) {hs : List H} (hnodup : (hs.map rank).Nodup) (hrank : ∀ h ∈ hs, rank h < n)
    (hsmall : ∀ h ∈ hs, (D (rank h)).length ≤ s) {buff : Bytes} (hlen : n * s ≤ buff.length)
    (hI : ∀ h ∈ hs, I h (.idle (Words.toLE sizeofInt (rank h) :: D (rank h) :: rest h)) w) :
    ∃ buff' w', receiveLoop vt garbage s hs buff w = .ok (.ok sizeofSizeT, buff', w') ∧
      (∀ i, i ∉ hs.map rank → block s i buff' = block s i buff) ∧
      ∀ h ∈ hs, (block s (rank h) buff').take (D (rank h)).length = D (rank h) ∧ I h (.idle (rest h)) w' := by
  induction hs generalizing buff w with
  | nil => exact ⟨buff, w, rfl, fun _ _ => rfl, nofun⟩
  | cons h hs ih =>
    obtain ⟨hh, hnodup⟩ := List.nodup_cons.1 hnodup
    have hD := hsmall h (List.mem_cons_self ..)
    obtain ⟨w2, hturn, hroom, hI2, hkeep⟩ :=
      receiveLoop_cons hp hn hsize garbage hs (hrank h (List.mem_cons_self ..)) hD hlen
      (hI h (List.mem_cons_self ..))
    have hlen' : n * s ≤ (splice (rank h * s) (D (rank h)) buff).length := by
      rw [length_splice hroom]
      exact hlen
    have hne : ∀ j ∈ hs, j ≠ h := fun j hj e => hh (e ▸ List.mem_map_of_mem hj)
    obtain ⟨buff', w3, h3, hsame, hdone⟩ := ih hnodup (fun j hj => hrank j (List.mem_cons_of_mem _ hj))
      (fun j hj => hsmall j (List.mem_cons_of_mem _ hj)) hlen' fun j hj =>
      hkeep j (hne j hj) _ (hI j (List.mem_cons_of_mem _ hj))
    refine ⟨buff', w3, hturn.trans h3, fun i hi => ?_, fun j hj => ?_⟩
    · obtain ⟨hih, hi⟩ := not_or.1 fun h => hi (List.mem_cons.2 h)
      exact (hsame i hi).trans (block_splice_of_ne hD hroom hih)
    · rcases List.mem_cons.1 hj with rfl | hj
      · rw [hsame _ hh]
        exact ⟨take_block_splice hD hroom, receiveLoop_keeps hp (fun hj => hne j hj rfl) hI2 h3⟩
      · exact hdone j hj

/-- When the block of some participant is too large, the loop fails, and leaves one with its rank taken and its
block to come. -/
theorem receiveLoop_fails (hp : Participants vt (fun h => queue (closed h)) I) (hn : n ≤ 2 ^ 31)
    (hsize : n * s < 2 ^ 64) {hs : List H} (hnodup : hs.Nodup) (hrank : ∀ h ∈ hs, rank h < n)
    (hbig : ∃ h ∈ hs, s < (D (rank h)).length) {buff : Bytes} (hlen : n * s ≤ buff.length)
    (hI : ∀ h ∈ hs, I h (.idle (Words.toLE sizeofInt (rank h) :: D (rank h) :: rest h)) w) :
    ∃ buff' w', receiveLoop vt garbage s hs buff w = .ok (.error .ENOMEM, buff', w') ∧
      ∃ k ∈ hs, I k (.opened (D (rank k)) (rest k)) w' := by
  induction hs generalizing buff w with
  | nil =>
    obtain ⟨h, hh, -⟩ := hbig
    cases hh
  | cons h hs ih =>
    obtain ⟨hh, hnodup⟩ := List.nodup_cons.1 hnodup
    have hr := hrank h (List.mem_cons_self ..)
    have hIh := hI h (List.mem_cons_self ..)
    by_cases hbigh : s < (D (rank h)).length
    · obtain ⟨w1, h1, hI1, -⟩ := receiveFromHandle_message (hp.reads h) hIh
        (Nat.le_of_eq (Words.length_toLE sizeofInt (rank h)))
      obtain ⟨w2, h2, hI2⟩ := receiveFromHandle_noRoom (hp.reads h) hI1 hbigh
      unfold receiveLoop
      rw [h1, bind_ok, Words.length_toLE]
      dsimp only
      rw [h2]
      exact ⟨buff, w2, rfl, h, List.mem_cons_self .., hI2⟩
    · obtain ⟨w2, hturn, hroom, -, hkeep⟩ :=
        receiveLoop_cons hp hn hsize garbage hs hr (Nat.le_of_not_lt hbigh) hlen hIh
      have hlen' : n * s ≤ (splice (rank h * s) (D (rank h)) buff).length := by
        rw [length_splice hroom]
        exact hlen
      have hbig' : ∃ h ∈ hs, s < (D (rank h)).length := by
        obtain ⟨k, hk, hbigk⟩ := hbig
        rcases List.mem_cons.1 hk with rfl | hk
        · exact absurd hbigk hbigh
        · exact ⟨k, hk, hbigk⟩
      obtain ⟨buff', w', hloop, k, hk, hIk⟩ := ih hnodup (fun j hj => hrank j (List.mem_cons_of_mem _ hj)) hbig' hlen'
        fun j hj => hkeep j (fun e => hh (e ▸ hj)) _ (hI j (List.mem_cons_of_mem _ hj))
      exact ⟨buff', w', hturn.trans hloop, k, List.mem_cons_of_mem _ hk, hIk⟩

/-- The root before a round, with the messages of the round on the streams of the participants. -/
structure AtRound (I : H → Phase (List Bytes) Bytes → W → Prop) (n : Nat) (rank : H → Nat) (own : Nat) (ps : List H)
    (D : Nat → Bytes) (rest : H → List Bytes) (x : CollectiveContext (GatherGeneric H) × W) : Prop where
  ranks : (own :: ps.map rank).Perm (List.range n)
  coll : x.1.coll = { participants := ps, root := true, rank := own }
  deleted : x.1.deleted = false
  idle : ∀ h ∈ ps, I h (.idle (Words.toLE sizeofInt (rank h) :: D (rank h) :: rest h)) x.2

variable {own : Nat} {ps : List H} {x : CollectiveContext (GatherGeneric H) × W} {b buff : Bytes}

theorem AtRound.rank_lt (h : AtRound I n rank own ps D rest x) : own < n ∧ ∀ k ∈ ps, rank k < n := by
  have hmem : ∀ i, i ∈ own :: ps.map rank → i < n := fun i hi => List.mem_range.1 (h.ranks.mem_iff.1 hi)
  exact ⟨hmem own (List.mem_cons_self ..), fun k hk => hmem _ (List.mem_cons_of_mem _ (List.mem_map_of_mem hk))⟩

theorem AtRound.nodup (h : AtRound I n rank own ps D rest x) : (ps.map rank).Nodup :=
  (List.nodup_cons.1 (h.ranks.nodup_iff.2 List.nodup_range)).2

private theorem store_own (hn : n ≤ 2 ^ 31) (hsize : n * s < 2 ^ 64) (hown : own < n) (hb : b.length ≤ s)
    (hlen : n * s ≤ buff.length) :
    ∃ buff0, store buff (blockOffset own b.length) b = .ok buff0 ∧ n * s ≤ buff0.length := by
  by_cases hne : b = []
  · exact ⟨buff, if_pos hne, hlen⟩
  · have hle := Nat.mul_le_mul_left n hb
    obtain ⟨hstore, hroom⟩ := store_inside hn (Nat.lt_of_le_of_lt hle hsize) hown (Nat.le_refl _) hne
      (Nat.le_trans hle hlen)
    refine ⟨_, hstore, ?_⟩
    rw [length_splice hroom]
    exact hlen

/-- With room for every block, a call delivers the round. -/
theorem AtRound.delivers (h : AtRound I n rank own ps D rest x) (garbage : Nat → UInt8)
    (hp : Participants vt (fun h => queue (closed h)) I) (hn : n ≤ 2 ^ 31) (hsize : n * s < 2 ^ 64)
    (hb : b.length ≤ s) (hlen : n * s ≤ buff.length) (hsmall : ∀ k ∈ ps, (D (rank k)).length ≤ s) :
    Delivered I ps rank D rest s (call vt garbage s (b, buff) x) := by
  obtain ⟨hown, hrank⟩ := h.rank_lt
  obtain ⟨buff0, hstore, hlen0⟩ := store_own hn hsize hown hb hlen
  obtain ⟨buff', w', hloop, -, hdone⟩ := receiveLoop_delivers hp hn hsize h.nodup hrank hsmall hlen0 h.idle
  exact ⟨buff', _, call_of_loop h.coll h.deleted hstore hloop, hdone⟩

/-- Without room for some block, a call fails, with the block of a participant to come where the next call reads
a rank. -/
theorem AtRound.fails (h : AtRound I n rank own ps D rest x) (garbage : Nat → UInt8)
    (hp : Participants vt (fun h => queue (closed h)) I) (hn : n ≤ 2 ^ 31) (hsize : n * s < 2 ^ 64)
    (hb : b.length ≤ s) (hlen : n * s ≤ buff.length) (hbig : ∃ k ∈ ps, s < (D (rank k)).length) :
    ∃ buff' x', call vt garbage s (b, buff) x = .ok ((.error .ENOMEM, buff'), x') ∧
      x'.1.coll = { participants := ps, root := true, rank := own } ∧ ∃ k ∈ ps,
        I k (.opened (D (rank k)) (rest k)) x'.2 := by
  obtain ⟨hown, hrank⟩ := h.rank_lt
  obtain ⟨buff0, hstore, hlen0⟩ := store_own hn hsize hown hb hlen
  obtain ⟨buff', w', hloop, hk⟩ := receiveLoop_fails hp hn hsize h.nodup.of_map hrank hbig hlen0 h.idle
  exact ⟨buff', _, call_of_loop h.coll h.deleted hstore hloop, h.coll, hk⟩

/-- From there no call delivers the round: one that succeeds has taken a message of a later round. -/
theorem not_delivered (hp : Participants vt (fun h => queue (closed h)) I) (htell : Telling I) (hnodup : ps.Nodup)
    (hcoll : x.1.coll = { participants := ps, root := true, rank := own }) {k : H} (hk : k ∈ ps)
    (hI : I k (.opened (D (rank k)) (rest k)) x.2) (size : Nat) (b buff : Bytes) :
    ¬Delivered I ps rank D rest size (call vt garbage size (b, buff) x) := by
  rintro ⟨buff', x', hcall, hdone⟩
  obtain ⟨⟨r, buff1, x1⟩, hcall, heq⟩ := bind_eq_ok.1 hcall
  cases heq
  obtain ⟨coll, hcall, -⟩ := HandleUser.sendrecv_cases hcall
  rw [hcoll] at hcall
  obtain ⟨buff0, -, hcall⟩ := bind_eq_ok.1 hcall
  obtain ⟨⟨r, buff1, w1⟩, hloop, heq⟩ := bind_eq_ok.1 hcall
  cases heq
  obtain ⟨m, m', q, ph, hq, hph, hIk⟩ := receiveLoop_takes hp hnodup hk rfl hI hloop
  obtain ⟨-, hrest⟩ := List.cons.inj hq
  have hidle := htell hIk (hdone k hk).2
  rw [hidle] at hph
  obtain rfl := (Prod.mk.inj hph).1
  exact absurd (congrArg List.length hrest) (Nat.ne_of_lt (Nat.lt_succ_self _))

/-- When a call of the root has failed for want of room, one with room for every block delivers the same round. -/
def Retriable (vt : H → CommunicationHandle W) (garbage : Nat → UInt8)
    (I : H → Phase (List Bytes) Bytes → W → Prop) (n : Nat) (rank : H → Nat) (ps : List H) (D : Nat → Bytes)
    (rest : H → List Bytes) (s : Nat) (b buff : Bytes) (x : CollectiveContext (GatherGeneric H) × W) : Prop :=
  ∀ buff1 x1, call vt garbage s (b, buff) x = .ok ((.error .ENOMEM, buff1), x1) →
    ∀ size buff2, b.length ≤ size → (∀ h ∈ ps, (D (rank h)).length ≤ size) → n * size ≤ buff2.length →
      Delivered I ps rank D rest size (call vt garbage size (b, buff2) x1)

private theorem AtRound.retry_iff (hp : Participants vt (fun h => queue (closed h)) I) (htell : Telling I)
    (hn : n ≤ 2 ^ 31) (hsize : n * s < 2 ^ 64) (h : AtRound I n rank own ps D rest x) (hb : b.length ≤ s)
    (hlen : n * s ≤ buff.length) :
    (Retriable vt garbage I n rank ps D rest s b buff x ↔ ∀ k ∈ ps, (D (rank k)).length ≤ s) ∧
    ((∀ k ∈ ps, (D (rank k)).length ≤ s) → Delivered I ps rank D rest s (call vt garbage s (b, buff) x)) ∧
    ((∃ k ∈ ps, s < (D (rank k)).length) → ∃ buff1 x1, call vt garbage s
      (b, buff) x = .ok ((.error .ENOMEM, buff1), x1) ∧
      ∀ size b' buff2, ¬Delivered I ps rank D rest size (call vt garbage size (b', buff2) x1)) := by
  have hbig : (∃ k ∈ ps, s < (D (rank k)).length) → ∃ buff1 x1,
      call vt garbage s (b, buff) x = .ok ((.error .ENOMEM, buff1), x1) ∧
      ∀ size b' buff2, ¬Delivered I ps rank D rest size (call vt garbage size (b', buff2) x1) := by
    intro hbig
    obtain ⟨buff1, x1, hcall, hcoll, k, hk, hI⟩ := h.fails garbage hp hn hsize hb hlen hbig
    exact ⟨buff1, x1, hcall, not_delivered hp htell h.nodup.of_map hcoll hk hI⟩
  refine ⟨⟨fun hretry => ?_, fun hsmall => ?_⟩, h.delivers garbage hp hn hsize hb hlen, hbig⟩
  · by_contra hno
    push Not at hno
    obtain ⟨buff1, x1, hcall, hnot⟩ := hbig hno
    -- a size that is sufficient for all of them
    let size := b.length + (ps.map fun k => (D (rank k)).length).sum
    refine hnot size b (List.replicate (n * size) 0) ?_
    refine hretry buff1 x1 hcall size _ (Nat.le_add_right _ _) (fun k hk => ?_)
      (Nat.le_of_eq List.length_replicate.symm)
    exact Nat.le_add_left_of_le (List.le_sum_of_mem (List.mem_map_of_mem hk))
  · obtain ⟨buff', x', hcall, -⟩ := h.delivers garbage hp hn hsize hb hlen hsmall
    intro buff1 x1 hfail
    cases hcall.symm.trans hfail

end

/-- A gather that has failed cannot be retried.  TCP handles are participants, and what is to come on them is
one list of messages.  Over any participants of which the second holds as well, a call of the root delivers its
round when there is room for every block.  When there is not, it fails with `ENOMEM`, and no further call
delivers that round, whatever its size; so a call with a sufficient size does exactly if there has been no such
failure. -/
theorem retriable_iff {garbage : Nat → UInt8} {n s : Nat} (hn : n ≤ 2 ^ 31) (hsize : n * s < 2 ^ 64) {b buff : Bytes}
    (hb : b.length ≤ s) (hlen : n * s ≤ buff.length) :
    (∀ closed : Nat → Bool, Participants tcpHandle (fun id => queue (closed id))
        (fun id => Attending (Arrives (closed id)) (closed id) id) ∧
      Telling fun id => Attending (Arrives (closed id)) (closed id) id) ∧
    ∀ {H W : Type} {vt : H → CommunicationHandle W} {closed : H → Bool} {I : H → Phase (List Bytes) Bytes → W → Prop},
      Participants vt (fun h => queue (closed h)) I → Telling I →
      ∀ {rank : H → Nat} {own : Nat} {ps : List H} {D : Nat → Bytes} {rest : H → List Bytes}
      {x : CollectiveContext (GatherGeneric H) × W}, AtRound I n rank own ps D rest x →
      (Retriable vt garbage I n rank ps D rest s b buff x ↔ ∀ k ∈ ps, (D (rank k)).length ≤ s) ∧
      ((∀ k ∈ ps, (D (rank k)).length ≤ s) → Delivered I ps rank D rest s (call vt garbage s (b, buff) x)) ∧
      ((∃ k ∈ ps, s < (D (rank k)).length) → ∃ buff1 x1, call vt garbage s
        (b, buff) x = .ok ((.error .ENOMEM, buff1), x1) ∧
        ∀ size b' buff2, ¬Delivered I ps rank D rest size (call vt garbage size (b', buff2) x1)) :=
  ⟨fun closed => ⟨tcp_participants closed, tcp_telling closed⟩,
    fun hp htell _ _ _ _ _ _ h => AtRound.retry_iff hp htell hn hsize h hb hlen⟩

/-- The root of a team of two. -/
private def rootOfTwo : CollectiveContext (GatherGeneric Nat) :=
  .mk' true true { participants := [0], root := true, rank := 0 }

/-- A process on whose only handle the messages of a member with rank 1 arrive. -/
private def memberSends (pieces : List SockArrival) : Process :=
  { handles := fun _ => { fd := some 3, incoming := pieces }, allocated := 1 }

/-- The member with rank 1 passes two bytes, where there is room for one. -/
theorem retriable_iff_run :
    ∃ buff1 x1, call tcpHandle (fun _ => 0) 1 ([9], [0, 0])
        (rootOfTwo, memberSends [.piece 0 [0, 0, 0, 0, 0, 0, 4, 1, 0, 0, 0, 0, 0, 0, 0, 0, 0, 0, 2, 1, 0]]) =
      .ok ((.error .ENOMEM, buff1), x1) := by
  obtain ⟨htcp, hroot⟩ := @retriable_iff (fun _ => 0) 2 1 (by decide) (by decide) [9] [0, 0] (by decide) (by decide)
  obtain ⟨hp, htell⟩ := htcp fun _ => false
  obtain ⟨-, -, hbig⟩ := @hroot Nat Process tcpHandle (fun _ => false) _ hp htell (fun _ => 1) 0 [0] (fun _ => [1, 0])
    (fun _ => []) (rootOfTwo, memberSends [.piece 0 [0, 0, 0, 0, 0, 0, 4, 1, 0, 0, 0, 0, 0, 0, 0, 0, 0, 0, 2, 1, 0]])
    ⟨by decide, rfl, rfl, by
      intro h hh
      obtain rfl := List.mem_singleton.1 hh
      refine ⟨⟨⟨Nat.one_pos, rfl, Option.some_ne_none _⟩, rfl, rfl, rfl⟩, rfl, ?_, ?_, fun _ => ⟨by decide, rfl⟩⟩
      · exact (by decide : ∀ m ∈ ([Words.toLE sizeofInt 1, [1, 0]] : List Bytes), m ≠ [] ∧ m.length < 2 ^ 63)
      · exact Or.inr ⟨by decide, by decide, rfl⟩⟩
  obtain ⟨buff1, x1, hcall, -⟩ := hbig ⟨0, List.mem_cons_self .., by decide⟩
  exact ⟨buff1, x1, hcall⟩

/-- A block of two bytes that there is no room for is the rank of the retry.  With a second round on the stream,
the retry succeeds, but it has put the rank of that round at the place 0, and nothing at the place 1; another
block makes it write outside the buffer. -/
theorem not_retriable :
    (∃ x1 x2, call tcpHandle (fun _ => 0) 1 ([9], [0, 0])
        (rootOfTwo, memberSends [.piece 0 [0, 0, 0, 0, 0, 0, 4, 1, 0, 0, 0, 0, 0, 0, 0, 0, 0, 0, 2, 0, 0],
          .piece 0 [0, 0, 0, 0, 0, 0, 4, 1, 0, 0, 0, 0, 0, 0, 0, 0, 0, 0, 1, 7]]) = .ok ((.error .ENOMEM, [9, 0]), x1) ∧
      call tcpHandle (fun _ => 0) 4 ([9], [5, 5, 5, 5, 5, 5, 5, 5]) x1 = .ok ((.ok 8, [1, 0, 0, 0, 5, 5, 5, 5]), x2)) ∧
    (∃ x1, call tcpHandle (fun _ => 0) 1 ([9], [0, 0])
        (rootOfTwo, memberSends [.piece 0 [0, 0, 0, 0, 0, 0, 4, 1, 0, 0, 0, 0, 0, 0, 0, 0, 0, 0, 2, 0, 1],
          .piece 0 [0, 0, 0, 0, 0, 0, 4, 1, 0, 0, 0, 0, 0, 0, 0, 0, 0, 0, 1, 7]]) = .ok ((.error .ENOMEM, [9, 0]), x1) ∧
      call tcpHandle (fun _ => 0) 4 ([9], [0, 0, 0, 0, 0, 0, 0, 0]) x1 = .error .undefined) :=
  ⟨⟨_, _, rfl, rfl⟩, _, rfl, rfl⟩

end GatherGeneric

end Mtcl
