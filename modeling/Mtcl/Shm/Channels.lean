import Mathlib.Data.List.Forall2
import Mtcl.Shm.Invariant

/-!
# Connections over shared memory

Every connection has two segments of its own: what is taken through a handle is what has been put through the
handle at the other side, in order and without a gap, and a connection message that waits names the segments of
the connection that has been asked for.
-/

namespace Mtcl.Shm

variable {w w' : Shm} {i j : Nat}

/-! ### `update` accepts -/

/-- The handle that `update` makes for the connection of `i`: it has the two segments the other way round. -/
private structure Crosses (w : Shm) (i : Nat) (e : ShmEnd) : Prop where
  connects : e.connects = false
  asked : e.asked = (w.ends i).asked
  inBuf : e.inBuf.seg = (w.ends i).out.seg ∧ e.inBuf.segmentname = (w.ends i).out.segmentname
  out : e.out.seg = (w.ends i).inBuf.seg ∧ e.out.segmentname = (w.ends i).inBuf.segmentname

section

variable {e : ShmEnd} {k : Nat}

private theorem Crosses.alone (hc : w.Crosses i e) (ht : w.Table) (hi : i < w.allocated) (hk : k < w.allocated) :
    (w.newEnd e false).Alone k ↔ w.Alone k ∧ k ≠ i := by
  rw [alone_newEnd hk, hc.inBuf.1]
  refine and_congr_right fun _ => not_congr ⟨fun he => (ht.outOnce i hi k hk he).symm, ?_⟩
  rintro rfl
  rfl

private theorem Crosses.not_alone (hc : w.Crosses i e) (hi : i < w.allocated) :
    ¬(w.newEnd e false).Alone w.allocated := by
  intro ha
  have hin := ha i (Nat.lt_succ_of_lt hi)
  rw [newEnd_self.1, (newEnd_of_lt hi).1] at hin
  exact hin hc.out.1.symm

private theorem Crosses.counterparts (hc : w.Crosses i e) (hi : i < w.allocated) :
    (w.newEnd e false).Counterparts i w.allocated := by
  refine ⟨Nat.lt_succ_of_lt hi, Nat.lt_succ_self _, ?_, ?_⟩
  · rw [(newEnd_of_lt hi).1, newEnd_self.1]
    exact hc.inBuf.1.symm
  · rw [(newEnd_of_lt hi).1, newEnd_self.1]
    exact hc.out.1

private theorem Crosses.table (hc : w.Crosses i e) (ht : w.Table) (ha : w.Asking i) : (w.newEnd e false).Table := by
  have hi := ha.lt
  obtain ⟨hlt1, hlt2, hne⟩ := ht.lt i hi
  refine ⟨ht.shmname, ht.sound, ?_, ?_, ?_, ?_, ht.listenLt, ht.listenOnce, ?_, ?_, ?_, ?_⟩
  · refine forall_newEnd (P := fun _ x => x.inBuf.seg < w.names.made ∧ x.out.seg < w.names.made ∧
      x.inBuf.seg ≠ x.out.seg) ht.lt ?_
    rw [hc.inBuf.1, hc.out.1]
    exact ⟨hlt2, hlt1, hne.symm⟩
  · refine forall₂_newEnd (P := fun i j x y => x.inBuf.seg = y.inBuf.seg → i = j) ht.inOnce ?_ ?_ fun _ => rfl
    · exact fun j hj he => absurd (he.symm.trans hc.inBuf.1) (ha.alone j hj)
    · exact fun j hj he => absurd (he.trans hc.inBuf.1) (ha.alone j hj)
  · refine forall₂_newEnd (P := fun i j x y => x.out.seg = y.out.seg → i = j) ht.outOnce ?_ ?_ fun _ => rfl
    · exact fun j hj he => absurd (hc.out.1.symm.trans he) (ht.in_ne_of_alone hi ha.alone hj)
    · exact fun j hj he => absurd (hc.out.1.symm.trans he.symm) (ht.in_ne_of_alone hi ha.alone hj)
  · refine forall₂_newEnd (P := fun _ _ x y => x.out.seg = y.inBuf.seg → y.out.seg = x.inBuf.seg) ht.cross ?_ ?_ ?_
    · intro j hj he
      have hij := ht.inOnce i hi j hj (hc.out.1.symm.trans he)
      subst hij
      exact hc.inBuf.1.symm
    · intro j hj he
      have hij := ht.outOnce j hj i hi (he.trans hc.inBuf.1)
      subst hij
      exact hc.out.1
    · intro he
      rw [hc.inBuf.1, hc.out.1] at he
      exact absurd he hne
  · intro p hp
    refine forall_newEnd (P := fun _ x => x.inBuf.seg ≠ (w.connbuff p).seg ∧ x.out.seg ≠ (w.connbuff p).seg)
      (ht.listenApart p hp) ?_
    rw [hc.inBuf.1, hc.out.1]
    exact (ht.listenApart p hp i hi).symm
  · intro k hk hw
    rcases Nat.lt_succ_iff_lt_or_eq.1 hk with hk | rfl
    · rw [(newEnd_of_lt hk).2.1] at hw
      obtain ⟨h1, h2, h3⟩ := ht.asked k hk hw
      have hki : k ≠ i := by
        rintro rfl
        rw [ha.waits] at hw
        cases hw
      refine ⟨(hc.alone ht hi hk).2 ⟨h1, hki⟩, ?_⟩
      rw [(newEnd_of_lt hk).1]
      refine ⟨h2, forall_newEnd (P := fun _ x => x.inBuf.seg ≠ (w.ends k).asked ∧ x.out.seg ≠ (w.ends k).asked) h3 ?_⟩
      rw [hc.inBuf.1, hc.out.1]
      exact (h3 i hi).symm
    · rw [newEnd_self.2.1] at hw
      cases hw
  · refine forall_newEnd (P := fun _ x => x.connects = false → ∃ i < (w.newEnd e false).allocated,
      ((w.newEnd e false).ends i).connects = true ∧ ((w.newEnd e false).ends i).out.seg = x.inBuf.seg ∧
        ((w.newEnd e false).ends i).asked = x.asked) (fun j hj hcj => ?_) fun _ => ?_
    · obtain ⟨k, hk, h⟩ := ht.served j hj hcj
      refine ⟨k, Nat.lt_succ_of_lt hk, ?_⟩
      rw [(newEnd_of_lt hk).1]
      exact h
    · refine ⟨i, Nat.lt_succ_of_lt hi, ?_⟩
      rw [(newEnd_of_lt hi).1]
      exact ⟨ht.connects_of_alone hi ha.alone, hc.inBuf.1.symm, hc.asked.symm⟩
  · intro k hk hka
    rcases Nat.lt_succ_iff_lt_or_eq.1 hk with hk | rfl
    · obtain ⟨hka, hki⟩ := (hc.alone ht hi hk).1 hka
      obtain ⟨h1, h2⟩ := ht.stands k hk hka
      obtain ⟨hin, hout⟩ := ht.stands i hi ha.alone
      have hne : ∀ {x}, w.Stands k x → e.inBuf.segmentname ≠ x.segmentname ∧ e.out.segmentname ≠ x.segmentname := by
        intro x hx
        have hkept := hx.kept.ends i hi (Ne.symm hki)
        rw [hc.inBuf.2, hc.out.2]
        exact ⟨hkept.2 hout.mapped, hkept.1 hin.mapped⟩
      rw [(newEnd_of_lt hk).1]
      exact ⟨h1.newEnd (fun _ => (hne h1).1) fun _ => (hne h1).2, h2.newEnd (fun _ => (hne h2).1) fun _ => (hne h2).2⟩
    · exact absurd hka (hc.not_alone hi)

private theorem Crosses.traffic (hc : w.Crosses i e) (ht : w.Table) (hf : w.Traffic) (ha : w.Asking i) :
    (w.newEnd e false).Traffic := by
  have hi := ha.lt
  obtain ⟨h1, h2, h3, -⟩ := hf.quiet i hi ha.alone
  refine ⟨fun k hk j hj he => ?_, fun k hk hka => ?_⟩
  · rcases Nat.lt_succ_iff_lt_or_eq.1 hk with hk | rfl <;> rcases Nat.lt_succ_iff_lt_or_eq.1 hj with hj | rfl
    · rw [(newEnd_of_lt hk).1, (newEnd_of_lt hj).1] at he
      rw [(newEnd_of_lt hj).1, (newEnd_of_lt hj).2.2.2, (newEnd_of_lt hk).2.2.1]
      exact hf.received k hk j hj he
    · -- what has been put through `i` so far
      rw [(newEnd_of_lt hk).1, newEnd_self.1] at he
      have hki := ht.outOnce k hk i hi (he.trans hc.inBuf.1)
      subst hki
      rw [newEnd_self.1, newEnd_self.2.2.2, (newEnd_of_lt hk).2.2.1, hc.inBuf.1]
      exact h3
    · rw [(newEnd_of_lt hj).1, newEnd_self.1] at he
      have hji := ht.inOnce j hj i hi (he.symm.trans hc.out.1)
      subst hji
      rw [(newEnd_of_lt hj).1, (newEnd_of_lt hj).2.2.2, newEnd_self.2.2.1, h1]
      unfold content
      rw [show ((w.newEnd e false).segs (w.ends j).inBuf.seg).guard = false from h2, if_neg Bool.false_ne_true]
      exact .nil
    · rw [newEnd_self.1, hc.inBuf.1, hc.out.1] at he
      exact absurd he (ht.lt i hi).2.2
  · rcases Nat.lt_succ_iff_lt_or_eq.1 hk with hk | rfl
    · obtain ⟨g1, g2, g3, g4⟩ := hf.quiet k hk ((alone_newEnd hk).1 hka).1
      obtain ⟨he, -, hs, hg⟩ := newEnd_of_lt (e := e) (b := false) hk
      exact ⟨hg.trans g1, he ▸ g2, he ▸ hs ▸ g3, hs ▸ g4⟩
    · exact absurd hka (hc.not_alone hi)

end

/-- `update` has worked on the message of `i`, and its connection is accepted. -/
private theorem Inv.crosses (hi : w.Inv) {e : ShmEnd} {p s : Nat} (ha : w.Asking i)
    (hacc : w.accepting p = some (s, request (w.ends i))) (hc : w.Crosses i e) :
    ({ w with accepting := Function.update w.accepting p none } : Shm).newEnd e false |>.Inv := by
  obtain ⟨ht, hm, hf⟩ := hi
  let w0 : Shm := { w with accepting := Function.update w.accepting p none }
  have ht0 : w0.Table := ht.frame
  have hc0 : w0.Crosses i e := ⟨hc.1, hc.2, hc.3, hc.4⟩
  have ha0 : w0.Asking i := ⟨ha.lt, ha.alone, ha.waits⟩
  have hold : ∀ {q s msg}, w0.accepting q = some (s, msg) → q ≠ p ∧ w.accepting q = some (s, msg) := by
    intro q s msg h
    by_cases hqp : q = p
    · subst hqp
      change Function.update w.accepting q none q = _ at h
      rw [Function.update_self] at h
      cases h
    · exact ⟨hqp, (Function.update_of_ne hqp ..).symm.trans h⟩
  have hkeep : ∀ {k}, w.Asking k → k ≠ i → (w0.newEnd e false).Asking k ∧ (w0.newEnd e false).ends k = w.ends k := by
    intro k hk hki
    exact ⟨⟨Nat.lt_succ_of_lt hk.lt, (hc0.alone ht0 ha.lt hk.lt).2 ⟨hk.alone, hki⟩,
      (newEnd_of_lt (w := w0) hk.lt).2.1.trans hk.waits⟩, (newEnd_of_lt (w := w0) hk.lt).1⟩
  refine ⟨hc0.table ht0 ha0, ⟨?_, ?_, ?_, ?_⟩, hc0.traffic ht0 (hf.frame fun _ _ => ⟨rfl, rfl⟩) ha0⟩
  · intro q hq hg
    obtain ⟨k, hk, hasked, hh⟩ := hm.full q hq hg
    have hki : k ≠ i := by
      rintro rfl
      exact hm.gone p q s k hacc ha hq hg hh
    obtain ⟨hk', he⟩ := hkeep hk hki
    exact ⟨k, hk', he ▸ hasked, he ▸ hh⟩
  · intro q t msg h
    obtain ⟨hqp, h⟩ := hold h
    obtain ⟨k, hk, hasked, hmsg⟩ := hm.taken q t msg h
    have hki : k ≠ i := by
      rintro rfl
      exact hqp (hm.once q p t s _ (hmsg ▸ h) hacc)
    obtain ⟨hk', he⟩ := hkeep hk hki
    exact ⟨k, hk', he ▸ hasked, he ▸ hmsg⟩
  · exact fun q r t t' msg h h' => hm.once q r t t' msg (hold h).2 (hold h').2
  · intro q r t k h hk hr hg
    have hlt : k < w.allocated := by
      rcases Nat.lt_succ_iff_lt_or_eq.1 hk.lt with hlt | rfl
      · exact hlt
      · exact absurd hk.alone (hc0.not_alone ha.lt)
    have hk' : w.Asking k := by
      have := hk.of_newEnd hlt
      exact ⟨this.lt, this.alone, this.waits⟩
    have he : (w0.newEnd e false).ends k = w.ends k := (newEnd_of_lt (w := w0) hlt).1
    rw [he] at h ⊢
    exact hm.gone q r t k (hold h).2 hk' hr hg

/-- What `update` finds in the message of a handle that waits. -/
private theorem accept_eq (hi : w.Inv) {p s : Nat} (ha : w.Asking i) (failsIn failsOut : Bool) :
    (failsIn || failsOut) = true ∧ w.accept p s (request (w.ends i)) failsIn failsOut =
        { w with accepting := Function.update w.accepting p none } ∨
      (failsIn || failsOut) = false ∧ w.accept p s (request (w.ends i)) failsIn failsOut =
        ({ w with accepting := Function.update w.accepting p none } : Shm).newEnd
          { owner := p
            asked := s
            inBuf := ⟨(w.ends i).out.seg, true, (w.ends i).out.segmentname, true⟩
            out := ⟨(w.ends i).inBuf.seg, true, (w.ends i).inBuf.segmentname, true⟩ } false := by
  obtain ⟨h1, h2⟩ := hi.table.stands i ha.lt ha.alone
  have hbefore := beforeColon_request h1.nameable
  have hafter := afterColon_request h1.nameable
  have hcolon : UInt8.ofNat ':'.toNat ∈ request (w.ends i) := by
    unfold request connectMessage
    exact List.mem_append_left _ (List.mem_append_right _ (List.mem_singleton_self _))
  have hcstr : cstr (request (w.ends i)) = request (w.ends i) := by
    refine cstr_eq fun hm => ?_
    unfold request connectMessage at hm
    rcases List.mem_append.1 hm with hm | hm
    · rcases List.mem_append.1 hm with hm | hm
      · exact h1.nameable.2.1 hm
      · exact absurd hm (by decide)
    · exact h2.nameable.2.1 hm
  unfold accept ShmSpace.openBuffer
  dsimp only
  rw [hcstr, if_neg (not_not.2 hcolon), hbefore, hafter, h1.object, h2.object]
  dsimp only
  cases failsIn with
  | true => exact Or.inl ⟨rfl, rfl⟩
  | false =>
    cases failsOut with
    | true => exact Or.inl ⟨rfl, rfl⟩
    | false => exact Or.inr ⟨rfl, rfl⟩

private theorem Inv.accept (hi : w.Inv) {p s : Nat} {msg : Bytes} {failsIn failsOut : Bool}
    (hp : w.Possible (.accept p s msg failsIn failsOut)) : (w.accept p s msg failsIn failsOut).Inv := by
  have hacc : w.accepting p = some (s, msg) := hp
  obtain ⟨i, ha, hasked, rfl⟩ := hi.mail.taken p s msg hacc
  rcases accept_eq hi (p := p) (s := s) ha failsIn failsOut with ⟨-, he⟩ | ⟨-, he⟩
  · rw [he]
    obtain ⟨ht, hm, hf⟩ := hi
    have hold : ∀ {q t msg}, Function.update w.accepting p none q = some (t, msg) → w.accepting q = some (t, msg) := by
      intro q t msg h
      by_cases hqp : q = p
      · subst hqp
        rw [Function.update_self] at h
        cases h
      · rwa [Function.update_of_ne hqp] at h
    refine ⟨ht.frame, ⟨?_, ?_, ?_, ?_⟩, hf.frame fun _ _ => ⟨rfl, rfl⟩⟩
    · intro q hq hg
      obtain ⟨k, hk, h⟩ := hm.full q hq hg
      exact ⟨k, ⟨hk.lt, hk.alone, hk.waits⟩, h⟩
    · intro q t msg h
      obtain ⟨k, hk, h⟩ := hm.taken q t msg (hold h)
      exact ⟨k, ⟨hk.lt, hk.alone, hk.waits⟩, h⟩
    · exact fun q r t t' msg h h' => hm.once q r t t' msg (hold h) (hold h')
    · exact fun q r t k h hk => hm.gone q r t k (hold h) ⟨hk.lt, hk.alone, hk.waits⟩
  · rw [he]
    exact hi.crosses ha hacc ⟨rfl, hasked.symm, ⟨rfl, rfl⟩, ⟨rfl, rfl⟩⟩

/-! ### What is put and taken -/

private theorem content_of_guard {seg : ShmSegment} (h : seg.guard = false) : content seg = [] := by
  unfold content
  rw [if_neg (by rw [h]; decide)]

private theorem Inv.put (hi : w.Inv) {f : Fill} (hp : w.Possible (.put i f)) : (w.put i f).Inv := by
  obtain ⟨ht, hm, hf⟩ := hi
  obtain ⟨hlt, -, -, hg, hflag⟩ := hp
  have hseg : ∀ {s}, s ≠ (w.ends i).out.seg →
      Function.update w.segs (w.ends i).out.seg ((w.segs (w.ends i).out.seg).fill f) s = w.segs s :=
    fun hs => Function.update_of_ne hs ..
  have hself : content (Function.update w.segs (w.ends i).out.seg ((w.segs (w.ends i).out.seg).fill f)
      (w.ends i).out.seg) = [(w.segs (w.ends i).out.seg).fill f] := by
    rw [Function.update_self]
    rfl
  have hholds : ((w.segs (w.ends i).out.seg).fill f).Holds f := ⟨rfl, List.take_left' rfl⟩
  refine ⟨ht.frame, hm.frame fun p hs => hseg (ht.listenApart p hs i hlt).2.symm, ?_⟩
  unfold Shm.put
  refine ⟨fun k hk j hj he => ?_, fun k hk ha => ?_⟩
  · have h := hf.received k hk j hj he
    change (w.ends k).out.seg = (w.ends j).inBuf.seg at he
    change List.Forall₂ _ (w.got j ++ content (Function.update w.segs _ _ (w.ends j).inBuf.seg))
      (Function.update w.sent i _ k)
    by_cases hki : k = i
    · subst hki
      rw [Function.update_self, ← he, hself]
      rw [← he, content_of_guard hg, List.append_nil] at h
      exact List.rel_append h (.cons hholds .nil)
    · rw [Function.update_of_ne hki, hseg fun e => hki (ht.outOnce k hk i hlt (he.trans e))]
      exact h
  · obtain ⟨h1, h2, h3, h4⟩ := hf.quiet k hk ha
    have hin : (w.ends k).inBuf.seg ≠ (w.ends i).out.seg := ht.in_ne_of_alone hk ha hlt
    refine ⟨h1, ?_, ?_, ?_⟩
    · change (Function.update w.segs _ _ (w.ends k).inBuf.seg).guard = false
      rw [hseg hin]
      exact h2
    · change List.Forall₂ _ (content (Function.update w.segs _ _ (w.ends k).out.seg)) (Function.update w.sent i _ k)
      by_cases hki : k = i
      · subst hki
        rw [content_of_guard hg] at h3
        rw [hself, Function.update_self, List.forall₂_nil_left_iff.1 h3]
        exact .cons hholds .nil
      · rw [Function.update_of_ne hki, hseg fun e => hki (ht.outOnce k hk i hlt e)]
        exact h3
    · intro g hgm
      change g ∈ Function.update w.sent i _ k at hgm
      by_cases hki : k = i
      · subst hki
        rw [content_of_guard hg] at h3
        have hnil := List.forall₂_nil_left_iff.1 h3
        rw [Function.update_self, hnil] at hgm
        rw [List.mem_singleton.1 hgm]
        exact hflag (ht.connects_of_alone hk ha) hnil
      · rw [Function.update_of_ne hki] at hgm
        exact h4 g hgm

private theorem Inv.take (hi : w.Inv) (hp : w.Possible (.take i)) : (w.take i).Inv := by
  obtain ⟨ht, hm, hf⟩ := hi
  obtain ⟨hlt, -, -, hg⟩ := hp
  have hseg : ∀ {s}, s ≠ (w.ends i).inBuf.seg →
      Function.update w.segs (w.ends i).inBuf.seg (w.segs (w.ends i).inBuf.seg).release s = w.segs s :=
    fun hs => Function.update_of_ne hs ..
  refine ⟨ht.frame, hm.frame fun p hs => hseg (ht.listenApart p hs i hlt).1.symm, ?_⟩
  unfold Shm.take
  refine ⟨fun k hk j hj he => ?_, fun k hk ha => ?_⟩
  · have h := hf.received k hk j hj he
    change List.Forall₂ _ (Function.update w.got i _ j ++
      content (Function.update w.segs _ _ (w.ends j).inBuf.seg)) (w.sent k)
    by_cases hji : j = i
    · subst hji
      have hfull : content (w.segs (w.ends j).inBuf.seg) = [w.segs (w.ends j).inBuf.seg] := if_pos hg
      have hempty : content (w.segs (w.ends j).inBuf.seg).release = [] := content_of_guard rfl
      rw [hfull] at h
      rw [Function.update_self, Function.update_self, hempty, List.append_nil]
      exact h
    · rw [Function.update_of_ne hji, hseg fun e => hji (ht.inOnce j hj i hlt e)]
      exact h
  · obtain ⟨h1, h2, h3, h4⟩ := hf.quiet k hk ha
    have hki : k ≠ i := by
      rintro rfl
      rw [h2] at hg
      cases hg
    refine ⟨(Function.update_of_ne hki ..).trans h1, ?_, ?_, h4⟩
    · change (Function.update w.segs _ _ (w.ends k).inBuf.seg).guard = false
      rw [hseg fun e => hki (ht.inOnce k hk i hlt e)]
      exact h2
    · change List.Forall₂ _ (content (Function.update w.segs _ _ (w.ends k).out.seg)) (w.sent k)
      rw [hseg (ha i hlt).symm]
      exact h3

/-! ### Closing -/

private theorem Inv.not_alone (hi : w.Inv) {closeWr closeRd : Bool} (hp : w.Possible (.notifyClose i closeWr closeRd))
    (hc : closeWr = true ∨ closeRd = true) : ¬w.Alone i := by
  intro ha
  obtain ⟨hlt, -, hwr, hrd⟩ := hp
  obtain ⟨h1, h2⟩ := hi.table.stands i hlt ha
  obtain ⟨hgot, hguard, -, hflag⟩ := hi.traffic.quiet i hlt ha
  have hmapped : (w.ends i).out.shmp ≠ false := by
    rw [h2.mapped]
    decide
  have hended : ¬w.Ended i := by
    rintro ⟨f, hf, hsize⟩
    exact hflag f (List.mem_of_getLast? hf) hsize
  rcases hc with hc | hc
  · exact (hwr hc).elim hmapped hended
  · rcases hrd hc with h | h | h | h | h
    · rw [hi.table.connects_of_alone hlt ha] at h
      cases h
    · exact hmapped h
    · exact hended h
    · exact h hgot
    · rw [hguard] at h
      cases h

/-- The handle has become one with the same segments, of which fewer may be mapped. -/
private structure Unmaps (e e' : ShmEnd) : Prop where
  connects : e'.connects = e.connects
  asked : e'.asked = e.asked
  inSeg : e'.inBuf.seg = e.inBuf.seg
  outSeg : e'.out.seg = e.out.seg
  inBuf : e'.inBuf.shmp = true → e.inBuf.shmp = true ∧ e'.inBuf.segmentname = e.inBuf.segmentname
  out : e'.out.shmp = true → e.out.shmp = true ∧ e'.out.segmentname = e.out.segmentname

private theorem Inv.unmapped (hi : w.Inv) (ha : ¬w.Alone i) {e : ShmEnd} (hu : Unmaps (w.ends i) e) :
    ({ w with ends := Function.update w.ends i e } : Shm).Inv := by
  obtain ⟨ht, hm, hf⟩ := hi
  let w1 : Shm := { w with ends := Function.update w.ends i e }
  have hne : ∀ {k}, k ≠ i → w1.ends k = w.ends k := fun hk => Function.update_of_ne hk ..
  have hends : ∀ k, Unmaps (w.ends k) (w1.ends k) := by
    intro k
    by_cases hk : k = i
    · subst hk
      rw [show w1.ends k = e from Function.update_self ..]
      exact hu
    · rw [hne hk]
      exact ⟨rfl, rfl, rfl, rfl, fun h => ⟨h, rfl⟩, fun h => ⟨h, rfl⟩⟩
  have halone : ∀ {k}, w1.Alone k ↔ w.Alone k := by
    intro k
    unfold Alone
    simp only [(hends _).inSeg, (hends _).outSeg]
    rfl
  have hold : ∀ {k}, w.Alone k → w1.ends k = w.ends k := fun hk => hne fun h => ha (h ▸ hk)
  have hasking : ∀ {k}, w1.Asking k ↔ w.Asking k :=
    ⟨fun h => ⟨h.lt, halone.1 h.alone, h.waits⟩, fun h => ⟨h.lt, halone.2 h.alone, h.waits⟩⟩
  refine ⟨?_, ⟨?_, ?_, hm.once, ?_⟩, ⟨?_, ?_⟩⟩
  · refine ⟨ht.shmname, ht.sound, ?_, ?_, ?_, ?_, ht.listenLt, ht.listenOnce, ?_, ?_, ?_, ?_⟩
    · intro k hk
      rw [show _ = _ from (hends k).inSeg, show _ = _ from (hends k).outSeg]
      exact ht.lt k hk
    · intro k hk j hj h
      rw [show _ = _ from (hends k).inSeg, show _ = _ from (hends j).inSeg] at h
      exact ht.inOnce k hk j hj h
    · intro k hk j hj h
      rw [show _ = _ from (hends k).outSeg, show _ = _ from (hends j).outSeg] at h
      exact ht.outOnce k hk j hj h
    · intro k hk j hj h
      rw [show _ = _ from (hends k).outSeg, show _ = _ from (hends j).inSeg] at h
      rw [show _ = _ from (hends j).outSeg, show _ = _ from (hends k).inSeg]
      exact ht.cross k hk j hj h
    · intro p hp k hk
      rw [show _ = _ from (hends k).inSeg, show _ = _ from (hends k).outSeg]
      exact ht.listenApart p hp k hk
    · intro k hk hw
      obtain ⟨h1, h2, h3⟩ := ht.asked k hk hw
      refine ⟨halone.2 h1, ?_⟩
      rw [show _ = _ from (hends k).asked]
      refine ⟨h2, fun j hj => ?_⟩
      rw [show _ = _ from (hends j).inSeg, show _ = _ from (hends j).outSeg]
      exact h3 j hj
    · intro j hj hc
      rw [show _ = _ from (hends j).connects] at hc
      obtain ⟨k, hk, h1, h2, h3⟩ := ht.served j hj hc
      refine ⟨k, hk, (hends k).connects.trans h1, ?_, ?_⟩
      · rw [show _ = _ from (hends k).outSeg, show _ = _ from (hends j).inSeg]
        exact h2
      · rw [show _ = _ from (hends k).asked, show _ = _ from (hends j).asked]
        exact h3
    · intro k hk hka
      have hka := halone.1 hka
      have hkept : ∀ {b}, w.Stands k b → w1.Stands k b := by
        intro b hb
        refine ⟨hb.mapped, hb.nameable, hb.object, fun j hj hjk => ?_, hb.kept.listens⟩
        obtain ⟨h1, h2⟩ := hb.kept.ends j hj hjk
        refine ⟨fun h => ?_, fun h => ?_⟩
        · obtain ⟨hs, hn⟩ := (hends j).inBuf h
          rw [show _ = _ from hn]
          exact h1 hs
        · obtain ⟨hs, hn⟩ := (hends j).out h
          rw [show _ = _ from hn]
          exact h2 hs
      rw [show _ = _ from hold hka]
      exact ⟨hkept (ht.stands k hk hka).1, hkept (ht.stands k hk hka).2⟩
  · intro p hp hg
    obtain ⟨k, hk, h⟩ := hm.full p hp hg
    refine ⟨k, hasking.2 hk, ?_⟩
    rw [show _ = _ from hold hk.alone]
    exact h
  · intro p s msg h
    obtain ⟨k, hk, h⟩ := hm.taken p s msg h
    refine ⟨k, hasking.2 hk, ?_⟩
    rw [show _ = _ from hold hk.alone]
    exact h
  · intro p q s k h hk hq hg
    have hk := hasking.1 hk
    rw [show _ = _ from hold hk.alone] at h ⊢
    exact hm.gone p q s k h hk hq hg
  · intro k hk j hj h
    rw [show _ = _ from (hends k).outSeg, show _ = _ from (hends j).inSeg] at h
    rw [show _ = _ from (hends j).inSeg]
    exact hf.received k hk j hj h
  · intro k hk hka
    have hka := halone.1 hka
    obtain ⟨h1, h2, h3, h4⟩ := hf.quiet k hk hka
    refine ⟨h1, ?_, ?_, h4⟩
    · rw [show _ = _ from hold hka]
      exact h2
    · rw [show _ = _ from hold hka]
      exact h3

/-- `closeBuffer`, when it is asked for, takes no name away that a handle without a counterpart has. -/
private theorem Inv.closes (hi : w.Inv) (c : Bool) {b : MappedBuffer}
    (hb : b.shmp = true → ∀ k < w.allocated, w.Alone k →
      (w.ends k).inBuf.segmentname ≠ b.segmentname ∧ (w.ends k).out.segmentname ≠ b.segmentname) :
    ∃ b' names, (if c then w.closeBuffer b else (b, w.toShmSpace)) = (b', { w.toShmSpace with names := names }) ∧
      ({ w with names := names } : Shm).Inv ∧ b'.seg = b.seg ∧
      (b'.shmp = true → b.shmp = true ∧ b'.segmentname = b.segmentname) := by
  unfold ShmSpace.closeBuffer
  cases c with
  | false => exact ⟨b, w.names, rfl, hi, rfl, fun h => ⟨h, rfl⟩⟩
  | true =>
    by_cases hs : b.shmp = true
    · rw [if_pos rfl, if_neg (by rw [hs]; decide)]
      exact ⟨_, _, rfl, hi.unlinked (hb hs), rfl, nofun⟩
    · rw [if_pos rfl, if_pos (by simpa using hs)]
      exact ⟨b, w.names, rfl, hi, rfl, fun h => ⟨h, rfl⟩⟩

private theorem Inv.notifyClose (hi : w.Inv) {closeWr closeRd : Bool}
    (hp : w.Possible (.notifyClose i closeWr closeRd)) : (w.notifyClose i closeWr closeRd).Inv := by
  by_cases hc : closeWr = true ∨ closeRd = true
  · have hna := hi.not_alone hp hc
    have hlt := hp.1
    -- the names of a handle without a counterpart are not those of the buffers that are closed
    have hother : ∀ {k}, k < w.allocated → w.Alone k → ∀ {b : MappedBuffer}, w.Stands k b →
        ((w.ends i).inBuf.shmp = true → b.segmentname ≠ (w.ends i).inBuf.segmentname) ∧
          ((w.ends i).out.shmp = true → b.segmentname ≠ (w.ends i).out.segmentname) := by
      intro k hk ha b hb
      have hik : i ≠ k := by
        rintro rfl
        exact hna ha
      obtain ⟨h1, h2⟩ := hb.kept.ends i hlt hik
      exact ⟨fun hs => (h1 hs).symm, fun hs => (h2 hs).symm⟩
    obtain ⟨out, names, hout, hi1, hseg, hmap⟩ := hi.closes closeWr (b := (w.ends i).out) fun hs k hk ha =>
      ⟨(hother hk ha (hi.table.stands k hk ha).1).2 hs, (hother hk ha (hi.table.stands k hk ha).2).2 hs⟩
    obtain ⟨inBuf, names', hin, hi2, hseg', hmap'⟩ := hi1.closes closeRd (b := (w.ends i).inBuf) fun hs k hk ha =>
      ⟨(hother hk ha (hi.table.stands k hk ha).1).1 hs, (hother hk ha (hi.table.stands k hk ha).2).1 hs⟩
    unfold Shm.notifyClose ShmSpace.closeBuffers
    dsimp only
    rw [hout]
    dsimp only
    rw [hin]
    exact hi2.unmapped hna ⟨rfl, rfl, hseg', hseg, hmap', hmap⟩
  · rw [not_or, Bool.not_eq_true, Bool.not_eq_true] at hc
    obtain ⟨rfl, rfl⟩ := hc
    have hsame : w.notifyClose i false false = w := by
      unfold Shm.notifyClose ShmSpace.closeBuffers
      dsimp only
      rw [if_neg Bool.false_ne_true]
      dsimp only
      rw [if_neg Bool.false_ne_true]
      dsimp only
      rw [Function.update_eq_self]
    rw [hsame]
    exact hi

/-! ### Runs -/

theorem Starts.inv (h : w.Starts) : w.Inv := by
  have hnone : ∀ {k}, ¬k < w.allocated := by
    intro k
    rw [h.allocated]
    exact Nat.not_lt_zero k
  have hlisten : ∀ {p}, (w.connbuff p).shmp ≠ true := by
    intro p
    rw [(h.connbuff p).1]
    exact Bool.false_ne_true
  have hacc : ∀ {p x}, w.accepting p ≠ some x := by
    intro p x
    rw [h.accepting p]
    exact nofun
  refine ⟨⟨h.shmname, h.names, ?_, ?_, ?_, ?_, ?_, ?_, ?_, ?_, ?_, ?_⟩, ⟨?_, ?_, ?_, ?_⟩, ⟨?_, ?_⟩⟩
  · exact fun _ hk => absurd hk hnone
  · exact fun _ hk => absurd hk hnone
  · exact fun _ hk => absurd hk hnone
  · exact fun _ hk => absurd hk hnone
  · exact fun _ hp => absurd hp hlisten
  · exact fun _ _ hp => absurd hp hlisten
  · exact fun _ hp => absurd hp hlisten
  · exact fun _ hk => absurd hk hnone
  · exact fun _ hk => absurd hk hnone
  · exact fun _ hk => absurd hk hnone
  · exact fun _ hp => absurd hp hlisten
  · exact fun _ _ _ hp => absurd hp hacc
  · exact fun _ _ _ _ _ hp => absurd hp hacc
  · exact fun _ _ _ _ hp => absurd hp hacc
  · exact fun _ hk => absurd hk hnone
  · exact fun _ hk => absurd hk hnone

theorem Inv.step (hi : w.Inv) {o : Op} (hc : w.Careful o) (hs : w.Step o w') : w'.Inv := by
  obtain ⟨hp, he⟩ := hs
  cases o with
  | listen p address fault =>
    cases he
    exact hi.listen hc
  | endListening p =>
    cases he
    exact hi.endListening p
  | connect p address f =>
    cases he
    exact hi.connect hc
  | ask i => exact hi.ask hp he
  | look p => exact hi.look hp he
  | accept p s msg failsIn failsOut =>
    cases he
    exact hi.accept hp
  | put i f =>
    cases he
    exact hi.put hp
  | take i =>
    cases he
    exact hi.take hp
  | notifyClose i closeWr closeRd =>
    cases he
    exact hi.notifyClose hp

theorem Inv.private (hi : w.Inv) : w.Private := by
  obtain ⟨ht, hm, hf⟩ := hi
  refine ⟨fun i hlt j hj => ?_, fun i j h => ?_, fun i hlt hno => ?_, fun j hj hc => ?_, fun p s msg h => ?_⟩
  · exact ⟨ht.inOnce i hlt j hj, ht.outOnce i hlt j hj, fun he => ⟨hlt, hj, he, ht.cross i hlt j hj he⟩⟩
  · exact hf.received i h.1 j h.2.1 h.2.2.1
  · have ha : w.Alone i := fun j hj he => hno j ⟨hlt, hj, he.symm, ht.cross i hlt j hj he.symm⟩
    obtain ⟨hgot, hguard, hsent, -⟩ := hf.quiet i hlt ha
    exact ⟨ht.connects_of_alone hlt ha, hgot, content_of_guard hguard, hsent⟩
  · obtain ⟨i, hlt, hic, hseg, hasked⟩ := ht.served j hj hc
    exact ⟨i, ⟨hlt, hj, hseg, ht.cross i hlt j hj hseg⟩, hic, hasked⟩
  · obtain ⟨i, ha, hasked, rfl⟩ := hm.taken p s msg h
    refine ⟨i, ha.lt, ht.connects_of_alone ha.lt ha.alone, hasked, fun j hij => ha.alone j hij.2.1 hij.2.2.1.symm, ?_⟩
    rcases accept_eq ⟨ht, hm, hf⟩ (p := p) (s := s) ha false false with ⟨hfails, -⟩ | ⟨-, he⟩
    · cases hfails
    · rw [he]
      exact Crosses.counterparts ⟨rfl, hasked.symm, ⟨rfl, rfl⟩, ⟨rfl, rfl⟩⟩ ha.lt

/-- In every run of processes that give no name to a segment while a buffer of that name is mapped, every
connection has two segments of its own, through which all that is put comes in order, and it is one that was
asked for at the listening buffer that it was taken from. -/
theorem shm_private (h : Runs.Reach Starts (fun o w w' => w.Careful o ∧ w.Step o w') w) : w.Private := by
  have hinv : w.Inv := Runs.Reach.invariant Inv (fun _ hs => hs.inv) (fun _ _ _ hi hs => hi.step hs.1 hs.2) h
  exact hinv.private

/-! ### Two processes -/

/-- The processes `a` and `b`. -/
private def ab : Shm := { shmname := fun p => if p = 0 then literal ['a'] else literal ['b'] }

/-- The second one listens on `m`. -/
private def abListens : Shm := (ab.listen 1 (literal ['m']) none).2

private def abConnects : Shm := (abListens.connect 0 (literal ['m']) {}).2

private def abAsks : Shm :=
  { abConnects with
    segs := Function.update abConnects.segs 0 ((abConnects.segs 0).fill (asks (abConnects.ends 0)))
    waits := Function.update abConnects.waits 0 false }

/-- The flag of the handshake is put before the connection is accepted. -/
private def abPuts : Shm := abAsks.put 0 (.next 1 [7])

private def abLooks : Shm :=
  { abPuts with
    segs := Function.update abPuts.segs 0 (abPuts.segs 0).release
    accepting := Function.update abPuts.accepting 1 (some (0, request (abPuts.ends 0))) }

private def abTakes : Shm := (abLooks.accept 1 0 (request (abPuts.ends 0)) false false).take 1

/-- What has been put through the handle of the first process is taken by the second one. -/
theorem shm_private_run :
    abTakes.Private ∧ abTakes.Counterparts 0 1 ∧ (abTakes.got 1).map (·.size) = (abTakes.sent 0).map (·.size) := by
  have hstart : Starts ab := by
    refine ⟨fun p => ?_, fun _ => ⟨rfl, rfl⟩, fun _ => rfl, ⟨nofun, nofun⟩, rfl⟩
    unfold ab
    dsimp only
    split
    · decide
    · decide
  have hmaps : ∀ name, name ≠ literal ['m'] → ¬abListens.Maps name := by
    rintro name hname (⟨i, hi, -⟩ | ⟨p, hs, hn⟩)
    · exact absurd hi (Nat.not_lt_zero i)
    · by_cases hp : p = 1
      · subst hp
        exact hname hn.symm
      · have hnone : abListens.connbuff p = {} := Function.update_of_ne hp ..
        rw [hnone] at hs
        cases hs
  have hask : abConnects.ask 0 = .ok abAsks := rfl
  have hlook : abPuts.look 1 = .ok abLooks := by
    have hholds : (abPuts.segs 0).Holds (.next (request (abPuts.ends 0)).length (request (abPuts.ends 0))) :=
      ⟨rfl, List.take_left' rfl⟩
    have hget : ({ seg := abPuts.segs 0 } : ShmBuffer).get shmSmallMsgSize = .ok (.ok (request (abPuts.ends 0)).length,
        request (abPuts.ends 0), { seg := (abPuts.segs 0).release }) := get_one rfl hholds (asks_ne_nil _) (by decide)
    have hslot : ({ shmp := (abPuts.connbuff 1).shmp, seg := abPuts.segs (abPuts.connbuff 1).seg } : ShmBuffer) =
        { seg := abPuts.segs 0 } := rfl
    have hfull : ({ seg := abPuts.segs 0 } : ShmBuffer).trygetsize.1 = .ok (request (abPuts.ends 0)).length := rfl
    unfold Shm.look
    dsimp only
    rw [if_neg (by decide), hslot, hfull]
    dsimp only
    rw [hget]
    rfl
  have hpossible : abAsks.Possible (.put 0 (.next 1 [7])) :=
    ⟨Nat.zero_lt_one, rfl, rfl, rfl, fun _ _ => Nat.one_ne_zero⟩
  have h1 : Runs.Reach Starts (fun o w w' => w.Careful o ∧ w.Step o w') abListens :=
    .next (.listen 1 (literal ['m']) none) (.start hstart) ⟨nofun, trivial, rfl⟩
  have h2 : Runs.Reach Starts (fun o w w' => w.Careful o ∧ w.Step o w') abConnects :=
    .next (.connect 0 (literal ['m']) {}) h1
      ⟨⟨hmaps _ (by decide), hmaps _ (by decide), fun _ _ i hi => absurd hi (Nat.not_lt_zero i)⟩, trivial, rfl⟩
  have h3 : Runs.Reach Starts (fun o w w' => w.Careful o ∧ w.Step o w') abAsks :=
    .next (.ask 0) h2 ⟨trivial, ⟨Nat.zero_lt_one, rfl⟩, hask⟩
  have h4 : Runs.Reach Starts (fun o w w' => w.Careful o ∧ w.Step o w') abPuts :=
    .next (.put 0 (.next 1 [7])) h3 ⟨trivial, hpossible, rfl⟩
  have h5 : Runs.Reach Starts (fun o w w' => w.Careful o ∧ w.Step o w') abLooks :=
    .next (.look 1) h4 ⟨trivial, rfl, hlook⟩
  have h6 : Runs.Reach Starts (fun o w w' => w.Careful o ∧ w.Step o w')
      (abLooks.accept 1 0 (request (abPuts.ends 0)) false false) :=
    .next (.accept 1 0 (request (abPuts.ends 0)) false false) h5 ⟨trivial, rfl, rfl⟩
  have h7 : Runs.Reach Starts (fun o w w' => w.Careful o ∧ w.Step o w') abTakes :=
    .next (.take 1) h6 ⟨trivial, ⟨by decide, by decide, by decide, by decide⟩, rfl⟩
  exact ⟨shm_private h7, ⟨by decide, by decide, by decide, by decide⟩, by decide⟩

end Mtcl.Shm
