import Mtcl.Base.Arrivals
import Mtcl.Handle

/-!
# `HandleTCP`

The loops over `read`, `write` and `writev`, and the virtual functions of a TCP handle built on them.  A handle carries
both ends of what the kernel decides: `incoming` is what the receiving side of its socket will meet, `answers` what
the kernel will say to the next writes (after the last of them it takes every request whole), and `wire` what has been
put on the stream so far.

`readn_eq` says in closed form what `readn` returns for every segmentation, and `writen_moved`, `writevn_moved` that a
kernel that always moves something gets every byte on the stream once and in order.
-/

namespace Mtcl

open Arrivals

/-- What the receiving side of a socket meets. -/
abbrev SockArrival := Arrival UInt8 Errno

/-- The answer of one `write` or `writev`: how much was moved, at most what was asked, a failure, or the failure
of this write and of every later one. -/
inductive WriteAnswer
  | moved (k : Nat)
  | failed (e : Errno)
  | broken (e : Errno)
  deriving DecidableEq, Repr

/-- An object of class `HandleTCP`; `fd` is `none` for `-1`. -/
structure HandleTCP extends CommBase where
  fd : Option Nat := none
  deleted : Bool := false
  incoming : List SockArrival := []
  answers : List WriteAnswer := []
  wire : Bytes := []
  eos : List (List WriteAnswer × Bytes) := []
  deriving DecidableEq, Repr

/-- The bytes of a variable of `k` bytes of which the first ones have been overwritten. -/
def overlay (garbage : Nat → UInt8) (k : Nat) (bs : Bytes) : Bytes :=
  bs ++ (List.range' bs.length (k - bs.length)).map garbage

@[simp] theorem overlay_full (garbage : Nat → UInt8) (bs : Bytes) : overlay garbage bs.length bs = bs := by
  simp [overlay]

/-! ### The loops -/

/-- The loop of `readn`; every turn but the last brings a byte, so `n` turns are enough. -/
def readnLoop (n : Nat) : Nat → Bytes → List SockArrival → Except Stop (Ret × Bytes × List SockArrival)
  | 0, got, s => .ok (.ok got.length, got, s)
  | fuel + 1, got, s =>
    if got.length < n then
      match Arrivals.read (n - got.length) s with
      | none => .error .blocked
      | some (.items bs, s) => readnLoop n fuel (got ++ bs) s
      | some (.eof, s) => .ok (.ok got.length, got, s)
      | some (.error e, s) => .ok (if got.length = 0 then .error e else .ok got.length, got, s)
    else
      .ok (.ok got.length, got, s)

/-- `HandleTCP::readn`: the result, the bytes stored through `ptr`, and the rest of the stream. -/
def readn (n : Nat) (s : List SockArrival) : Except Stop (Ret × Bytes × List SockArrival) := readnLoop n n [] s

/-- The loop of `writen` over the bytes still to write. -/
def writenLoop (n : Nat) : List WriteAnswer → Bytes → Bytes → Ret × Bytes × List WriteAnswer
  | [], buf, sent => (.ok n, sent ++ buf, [])
  | .moved k :: as, buf, sent =>
    if buf.length = 0 then (.ok n, sent, .moved k :: as)
    else if min k buf.length = 0 then (.ok (n - buf.length), sent, as)
    else writenLoop n as (buf.drop (min k buf.length)) (sent ++ buf.take (min k buf.length))
  | .failed e :: as, buf, sent =>
    if buf.length = 0 then (.ok n, sent, .failed e :: as)
    else (if buf.length = n then .error e else .ok (n - buf.length), sent, as)
  | .broken e :: as, buf, sent =>
    if buf.length = 0 then (.ok n, sent, .broken e :: as)
    else (if buf.length = n then .error e else .ok (n - buf.length), sent, .broken e :: as)

/-- `HandleTCP::writen`: the result, the bytes put on the stream, and the answers left. -/
def writen (as : List WriteAnswer) (buf : Bytes) : Ret × Bytes × List WriteAnswer := writenLoop buf.length as buf []

/-- The buffers from `v + cur` on after `written` bytes of them have been moved: whole buffers are passed over, and the
first one that is not whole is cut. -/
def advance : Nat → List Bytes → List Bytes
  | _, [] => []
  | written, b :: v => if b.length ≤ written then advance (written - b.length) v else b.drop written :: v

/-- The loop of `writevn` over the buffers from `v + cur` on. -/
def writevnLoop : List WriteAnswer → List Bytes → Bytes → Ret × Bytes × List WriteAnswer
  | [], v, sent => (.ok 1, sent ++ v.flatten, [])
  | .moved k :: as, v, sent =>
    let written := min k v.flatten.length
    let sent := sent ++ v.flatten.take written
    match advance written v with
    | [] => (.ok 1, sent, as)
    | v => writevnLoop as v sent
  | .failed e :: as, _, sent => (.error e, sent, as)
  | .broken e :: as, _, sent => (.error e, sent, .broken e :: as)

/-- `HandleTCP::writevn`. -/
def writevn (as : List WriteAnswer) (v : List Bytes) : Ret × Bytes × List WriteAnswer := writevnLoop as v []

/-! ### The virtual functions -/

namespace HandleTCP

/-- `HandleTCP::sendEOS`. -/
def sendEOS (h : HandleTCP) : Ret × HandleTCP :=
  match h.fd with
  | none => (.error .EBADF, h)
  | some _ =>
    let (r, sent, as) := writen h.answers (List.replicate sizeofSizeT 0)
    (r, { h with wire := h.wire ++ sent, answers := as, eos := h.eos ++ [(h.answers, sent)] })

/-- What the kernel was going to say when EOS was sent, or will say when it is. -/
def eosAnswers (h : HandleTCP) : List WriteAnswer :=
  match h.eos with
  | [] => h.answers
  | (as, _) :: _ => as

/-- `HandleTCP::send`. -/
def send (h : HandleTCP) (buff : Bytes) : Ret × HandleTCP :=
  match h.fd with
  | none => (.error .EBADF, h)
  | some _ =>
    let (r, sent, as) := writevn h.answers [Words.toBE sizeofSizeT buff.length, buff]
    let h := { h with wire := h.wire ++ sent, answers := as }
    match r with
    | .error e => (.error e, h)
    | .ok _ => (.ok buff.length, h)

/-- `HandleTCP::probe`.  Any positive count of `readn` or `recv` counts as a header; the bytes of `sz` that were not
read keep what the memory held. -/
def probe (garbage : Nat → UInt8) (h : HandleTCP) (size : Nat) (blocking : Bool) :
    Except Stop (Ret × Nat × HandleTCP) :=
  match h.fd with
  | none => .ok (.error .EBADF, size, h)
  | some _ =>
    if blocking then
      match readn sizeofSizeT h.incoming with
      | .error st => .error st
      | .ok (.ok (_ + 1), bs, s) =>
        .ok (.ok sizeofSizeT, Words.ofBE (overlay garbage sizeofSizeT bs), { h with incoming := s })
      | .ok (r, _, s) => .ok (r, size, { h with incoming := s })
    else
      match poll sizeofSizeT h.incoming with
      | (none, s) => .ok (.error .EWOULDBLOCK, size, { h with incoming := s })
      | (some (.items bs), s) =>
        .ok (.ok sizeofSizeT, Words.ofBE (overlay garbage sizeofSizeT bs), { h with incoming := s })
      | (some .eof, s) => .ok (.ok 0, size, { h with incoming := s })
      | (some (.error e), s) => .ok (.error e, size, { h with incoming := s })

/-- `HandleTCP::receive`. -/
def receive (h : HandleTCP) (size : Nat) : Except Stop (Ret × Bytes × HandleTCP) :=
  match h.fd with
  | none => .ok (.error .EBADF, [], h)
  | some _ =>
    match readn size h.incoming with
    | .error st => .error st
    | .ok (r, bs, s) => .ok (r, bs, { h with incoming := s })

end HandleTCP

/-! ### What the functions change -/

namespace HandleTCP

/-- On a socket, a blocking `probe` is a `readn` of a header. -/
theorem probe_blocking {h : HandleTCP} (hfd : h.fd ≠ none) (garbage : Nat → UInt8) (size : Nat) :
    h.probe garbage size true =
      match readn sizeofSizeT h.incoming with
      | .error st => .error st
      | .ok (.ok (_ + 1), bs, s) =>
        .ok (.ok sizeofSizeT, Words.ofBE (overlay garbage sizeofSizeT bs), { h with incoming := s })
      | .ok (r, _, s) => .ok (r, size, { h with incoming := s }) := by
  unfold probe
  split
  · exact absurd ‹_› hfd
  · rfl

/-- On a socket, a non-blocking `probe` is one `recv`. -/
theorem probe_nonblocking {h : HandleTCP} (hfd : h.fd ≠ none) (garbage : Nat → UInt8) (size : Nat) :
    h.probe garbage size false =
      match poll sizeofSizeT h.incoming with
      | (none, s) => .ok (.error .EWOULDBLOCK, size, { h with incoming := s })
      | (some (.items bs), s) =>
        .ok (.ok sizeofSizeT, Words.ofBE (overlay garbage sizeofSizeT bs), { h with incoming := s })
      | (some .eof, s) => .ok (.ok 0, size, { h with incoming := s })
      | (some (.error e), s) => .ok (.error e, size, { h with incoming := s }) := by
  unfold probe
  split
  · exact absurd ‹_› hfd
  · rfl

theorem receive_socket {h : HandleTCP} (hfd : h.fd ≠ none) (n : Nat) :
    h.receive n =
      match readn n h.incoming with
      | .error st => .error st
      | .ok (r, bs, s) => .ok (r, bs, { h with incoming := s }) := by
  unfold receive
  split
  · exact absurd ‹_› hfd
  · rfl

theorem probe_incoming {garbage : Nat → UInt8} {h h' : HandleTCP} {size size' : Nat} {blocking : Bool} {r : Ret}
    (he : h.probe garbage size blocking = .ok (r, size', h')) : ∃ s, h' = { h with incoming := s } := by
  unfold probe at he
  split at he
  · cases he
    exact ⟨_, rfl⟩
  · split at he
    · split at he <;> cases he <;> exact ⟨_, rfl⟩
    · split at he <;> cases he <;> exact ⟨_, rfl⟩

theorem receive_incoming {h h' : HandleTCP} {n : Nat} {r : Ret} {bs : Bytes} (he : h.receive n = .ok (r, bs, h')) :
    ∃ s, h' = { h with incoming := s } := by
  unfold receive at he
  split at he
  · cases he
    exact ⟨_, rfl⟩
  · split at he <;> cases he
    exact ⟨_, rfl⟩

theorem send_wire (h : HandleTCP) (bs : Bytes) :
    ∃ sent answers, (h.send bs).2 = { h with wire := h.wire ++ sent, answers := answers } := by
  unfold send
  split
  · refine ⟨[], h.answers, ?_⟩
    rw [List.append_nil]
  · dsimp only
    split <;> exact ⟨_, _, rfl⟩

end HandleTCP

/-! ### What the loops do -/

private theorem readnLoop_eq (n fuel : Nat) (got : Bytes) (s : List SockArrival) (hgot : got.length ≤ n)
    (hfuel : n ≤ got.length + fuel) :
    readnLoop n fuel got s =
      if n ≤ got.length + (lead s).length then
        .ok (.ok n, got ++ (lead s).take (n - got.length), dropItems (n - got.length) s)
      else
        match afterLead s with
        | [] => .error .blocked
        | .error e :: t =>
          .ok (if got.length + (lead s).length = 0 then .error e else .ok (got.length + (lead s).length),
            got ++ lead s, t)
        | t => .ok (.ok (got.length + (lead s).length), got ++ lead s, t) := by
  induction fuel generalizing got s with
  | zero =>
    have : n = got.length := by omega
    subst this
    simp [readnLoop, dropItems]
  | succ fuel ih =>
    unfold readnLoop
    by_cases hn : got.length < n
    · rw [if_pos hn]
      by_cases hl : lead s = []
      · -- nothing of the stream is left before the end of file or the error
        rw [read_afterLead _ hl, hl, List.length_nil, if_neg (by omega)]
        rcases afterLead_cases s with h | ⟨t, h⟩ | ⟨e, t, h⟩ <;> simp [h, Arrivals.read]
      · obtain ⟨k, hk0, hkn, hkl, hread⟩ := read_lead (show 0 < n - got.length by omega) hl
        obtain ⟨hd, ha⟩ := dropItems_lead hkl
        have hlen : (got ++ (lead s).take k).length = got.length + k := by
          rw [List.length_append, List.length_take, Nat.min_eq_left hkl]
        rw [hread]
        simp only
        rw [ih _ _ (by omega) (by omega), hd, ha, hlen, List.length_drop]
        by_cases hle : n ≤ got.length + (lead s).length
        · rw [if_pos (by omega), if_pos hle, ← dropItems_add _ _ _ (by omega), List.append_assoc, ← List.take_add]
          congr 4
          · congr 1
            omega
          · omega
        · rw [if_neg (by omega), if_neg hle, List.append_assoc, List.take_append_drop,
            show got.length + k + ((lead s).length - k) = got.length + (lead s).length by omega]
    · have : n = got.length := by omega
      subst this
      simp [dropItems]

/-- `readn` returns the `n` bytes when they arrive before an end of file or an error, waits when the stream dries up
before, and else returns what there was; an error is reported only when there was nothing. -/
theorem readn_eq (n : Nat) (s : List SockArrival) :
    readn n s =
      if n ≤ (lead s).length then .ok (.ok n, (lead s).take n, dropItems n s)
      else
        match afterLead s with
        | [] => .error .blocked
        | .error e :: t => .ok (if (lead s).length = 0 then .error e else .ok (lead s).length, lead s, t)
        | t => .ok (.ok (lead s).length, lead s, t) := by
  rw [readn, readnLoop_eq n n [] s (Nat.zero_le _) (by simp)]
  simp only [List.length_nil, Nat.zero_add, List.nil_append, Nat.sub_zero]

/-- On a stream that delivers, `readn` returns the next items. -/
theorem readn_delivers {s : List SockArrival} {x w : List (UInt8 × Bool)} (h : Delivers s (x ++ w)) :
    ∃ s', readn x.length s = .ok (.ok x.length, x.map Prod.fst, s') ∧ Delivers s' w := by
  obtain ⟨h1, h2, h3⟩ := h.take (n := x.length) (by simp)
  refine ⟨dropItems x.length s, ?_, ?_⟩
  · rw [readn_eq, if_pos h1, h2, List.map_append, List.take_append_of_le_length (by simp),
      List.take_of_length_le (by simp)]
  · simpa using h3

/-- Every answer of the kernel moves something. -/
def Moves (as : List WriteAnswer) : Prop := ∀ a ∈ as, ∃ k, 0 < k ∧ a = .moved k

private theorem writenLoop_moved {as : List WriteAnswer} (h : Moves as) (n : Nat) (buf sent : Bytes) :
    ∃ as', writenLoop n as buf sent = (.ok n, sent ++ buf, as') ∧ Moves as' := by
  induction as generalizing buf sent with
  | nil => exact ⟨[], rfl, h⟩
  | cons a as ih =>
    obtain ⟨k, hk, rfl⟩ := h _ (List.mem_cons_self ..)
    have has : Moves as := fun b hb => h b (List.mem_cons_of_mem _ hb)
    unfold writenLoop
    split
    · rename_i hb
      exact ⟨_, by rw [List.length_eq_zero_iff.1 hb, List.append_nil], h⟩
    · rw [if_neg (by omega)]
      obtain ⟨as', h1, h2⟩ := ih has (buf.drop (min k buf.length)) (sent ++ buf.take (min k buf.length))
      refine ⟨as', ?_, h2⟩
      rw [h1, List.append_assoc, List.take_append_drop]

/-- A kernel that always moves something puts the whole buffer on the stream. -/
theorem writen_moved {as : List WriteAnswer} (h : Moves as) (buf : Bytes) :
    ∃ as', writen as buf = (.ok buf.length, buf, as') ∧ Moves as' :=
  writenLoop_moved h buf.length buf []

/-- The kernel takes the next `n` bytes, in whatever pieces. -/
def TakesAll : Nat → List WriteAnswer → Prop
  | _, [] => True
  | n, .moved k :: as => n = 0 ∨ 0 < k ∧ TakesAll (n - k) as
  | n, .failed _ :: _ => n = 0
  | n, .broken _ :: _ => n = 0

private theorem writenLoop_whole_iff (n : Nat) (as : List WriteAnswer) (buf sent : Bytes) :
    (writenLoop n as buf sent).2.1 = sent ++ buf ↔ TakesAll buf.length as := by
  induction as generalizing buf sent with
  | nil => exact iff_of_true rfl trivial
  | cons a as ih =>
    by_cases hb : buf.length = 0
    · -- everything has been written
      have hnil : buf = [] := List.length_eq_zero_iff.1 hb
      subst hnil
      rw [List.append_nil]
      cases a with
      | failed e => exact iff_of_true rfl rfl
      | broken e => exact iff_of_true rfl rfl
      | moved k => exact iff_of_true rfl (Or.inl rfl)
    · have hstop : sent = sent ++ buf ↔ buf.length = 0 := by
        rw [List.self_eq_append_right, List.length_eq_zero_iff]
      cases a with
      | failed e =>
        rw [writenLoop, if_neg hb]
        exact hstop
      | broken e =>
        rw [writenLoop, if_neg hb]
        exact hstop
      | moved k =>
        rw [writenLoop, if_neg hb, TakesAll]
        by_cases hk : min k buf.length = 0
        · rw [if_pos hk, hstop]
          omega
        · have hrest := ih (buf.drop (min k buf.length)) (sent ++ buf.take (min k buf.length))
          rw [List.append_assoc, List.take_append_drop, List.length_drop,
            show buf.length - min k buf.length = buf.length - k by omega] at hrest
          rw [if_neg hk, hrest]
          exact ⟨fun h => Or.inr ⟨by omega, h⟩, fun h => (h.resolve_left hb).2⟩

/-- `writen` puts the whole buffer on the stream just when the kernel takes it. -/
theorem writen_whole_iff (as : List WriteAnswer) (buf : Bytes) : (writen as buf).2.1 = buf ↔ TakesAll buf.length as :=
  writenLoop_whole_iff buf.length as buf []

theorem flatten_advance (n : Nat) (v : List Bytes) : (advance n v).flatten = v.flatten.drop n := by
  induction v generalizing n with
  | nil => simp [advance]
  | cons b v ih =>
    unfold advance
    split
    · rename_i hb
      rw [ih, List.flatten_cons, List.drop_append, List.drop_eq_nil_of_le hb, List.nil_append]
    · rw [List.flatten_cons, List.flatten_cons, List.drop_append_of_le_length (by omega)]

private theorem writevnLoop_moved {as : List WriteAnswer} (h : Moves as) (v : List Bytes) (sent : Bytes) :
    ∃ as', writevnLoop as v sent = (.ok 1, sent ++ v.flatten, as') ∧ Moves as' := by
  induction as generalizing v sent with
  | nil => exact ⟨[], rfl, h⟩
  | cons a as ih =>
    obtain ⟨k, hk, rfl⟩ := h _ (List.mem_cons_self ..)
    have has : Moves as := fun b hb => h b (List.mem_cons_of_mem _ hb)
    have hf := flatten_advance (min k v.flatten.length) v
    unfold writevnLoop
    dsimp only
    split
    · rename_i hadv
      rw [hadv, List.flatten_nil] at hf
      refine ⟨as, ?_, has⟩
      have := List.take_append_drop (min k v.flatten.length) v.flatten
      rw [← hf, List.append_nil] at this
      rw [this]
    · obtain ⟨as', h1, h2⟩ := ih has (advance (min k v.flatten.length) v)
        (sent ++ v.flatten.take (min k v.flatten.length))
      refine ⟨as', ?_, h2⟩
      rw [h1, hf, List.append_assoc, List.take_append_drop]

/-- A kernel that always moves something puts all the buffers on the stream, in order. -/
theorem writevn_moved {as : List WriteAnswer} (h : Moves as) (v : List Bytes) :
    ∃ as', writevn as v = (.ok 1, v.flatten, as') ∧ Moves as' :=
  writevnLoop_moved h v []

theorem advance_eq_nil {n : Nat} {v : List Bytes} : advance n v = [] ↔ v.flatten.length ≤ n := by
  induction v generalizing n with
  | nil => simp [advance]
  | cons b v ih =>
    unfold advance
    rw [List.flatten_cons, List.length_append]
    by_cases hb : b.length ≤ n
    · rw [if_pos hb, ih]
      omega
    · rw [if_neg hb]
      exact iff_of_false (List.cons_ne_nil _ _) (by omega)

/-- A turn of `writevn` that moves less than there is goes on with the rest. -/
private theorem writevnLoop_turn {as : List WriteAnswer} {k : Nat} {v : List Bytes} (hk : k < v.flatten.length)
    (sent : Bytes) :
    writevnLoop (.moved k :: as) v sent = writevnLoop as (advance k v) (sent ++ v.flatten.take k) := by
  have hmin : min k v.flatten.length = k := Nat.min_eq_left (Nat.le_of_lt hk)
  conv_lhs => unfold writevnLoop
  dsimp only
  rw [hmin]
  split
  · rename_i hnil
    exact absurd (advance_eq_nil.1 hnil) (Nat.not_le.2 hk)
  · rfl

/-- A write that meets these answers fails; these are left for the next ones. -/
inductive Fails : List WriteAnswer → Errno → List WriteAnswer → Prop
  | failed {e : Errno} {post : List WriteAnswer} : Fails (.failed e :: post) e post
  | broken {e : Errno} {post : List WriteAnswer} : Fails (.broken e :: post) e (.broken e :: post)

private theorem writevnLoop_failed {e : Errno} {as post : List WriteAnswer} (has : Fails as e post) (ks : List Nat)
    (v : List Bytes) (sent : Bytes) (h : ks.sum < v.flatten.length) :
    writevnLoop (ks.map .moved ++ as) v sent = (.error e, sent ++ v.flatten.take ks.sum, post) := by
  induction ks generalizing v sent with
  | nil => cases has <;> simp [writevnLoop]
  | cons k ks ih =>
    rw [List.sum_cons] at h ⊢
    have hrest : (advance k v).flatten = v.flatten.drop k := flatten_advance k v
    rw [List.map_cons, List.cons_append, writevnLoop_turn (by omega), ih _ _ (by rw [hrest, List.length_drop]; omega),
      hrest, List.append_assoc, ← List.take_add]

/-- `writevn` fails when the kernel fails before everything has been moved; what was moved before is on the stream. -/
theorem writevn_failed {e : Errno} {as post : List WriteAnswer} (has : Fails as e post) {ks : List Nat} {v : List Bytes}
    (h : ks.sum < v.flatten.length) :
    writevn (ks.map .moved ++ as) v = (.error e, v.flatten.take ks.sum, post) :=
  writevnLoop_failed has ks v [] h

private theorem writevnLoop_cases (as : List WriteAnswer) (v : List Bytes) (sent : Bytes) (hv : v.flatten ≠ []) :
    (∃ (ks : List Nat) (as' : List WriteAnswer), as = ks.map .moved ++ as' ∧ (as' = [] ∨ v.flatten.length ≤ ks.sum) ∧
        writevnLoop as v sent = (.ok 1, sent ++ v.flatten, as')) ∨
      ∃ (ks : List Nat) (e : Errno) (as' post : List WriteAnswer), as = ks.map .moved ++ as' ∧ Fails as' e post ∧
        ks.sum < v.flatten.length := by
  induction as generalizing v sent with
  | nil => exact Or.inl ⟨[], [], rfl, Or.inl rfl, rfl⟩
  | cons a as ih =>
    cases a with
    | failed e => exact Or.inr ⟨[], e, _, as, rfl, .failed, List.length_pos_iff.2 hv⟩
    | broken e => exact Or.inr ⟨[], e, _, _, rfl, .broken, List.length_pos_iff.2 hv⟩
    | moved k =>
      by_cases hk : k < v.flatten.length
      · have hrest : (advance k v).flatten = v.flatten.drop k := flatten_advance k v
        have hlen : (advance k v).flatten.length = v.flatten.length - k := by rw [hrest, List.length_drop]
        rw [writevnLoop_turn hk]
        rcases ih (advance k v) (sent ++ v.flatten.take k) (List.length_pos_iff.1 (by omega)) with
          ⟨ks, as', has, hend, h⟩ | ⟨ks, e, as', post, has, hfails, hsum⟩
        · left
          refine ⟨k :: ks, as', by rw [has]; rfl, hend.imp_right fun hend => ?_, ?_⟩
          · rw [List.sum_cons]
            omega
          · rw [h, hrest, List.append_assoc, List.take_append_drop]
        · right
          refine ⟨k :: ks, e, as', post, by rw [has]; rfl, hfails, ?_⟩
          rw [List.sum_cons]
          omega
      · left
        have hmin : min k v.flatten.length = v.flatten.length := Nat.min_eq_right (Nat.le_of_not_lt hk)
        have hnil : advance v.flatten.length v = [] := advance_eq_nil.2 (Nat.le_refl _)
        refine ⟨[k], as, rfl, Or.inr (by simpa using Nat.le_of_not_lt hk), ?_⟩
        unfold writevnLoop
        dsimp only
        rw [hmin, hnil, List.take_length]

/-- `writevn` puts all the buffers on the stream, or the kernel fails before. -/
theorem writevn_cases (as : List WriteAnswer) {v : List Bytes} (hv : v.flatten ≠ []) :
    (∃ (ks : List Nat) (as' : List WriteAnswer), as = ks.map .moved ++ as' ∧ (as' = [] ∨ v.flatten.length ≤ ks.sum) ∧
        writevn as v = (.ok 1, v.flatten, as')) ∨
      ∃ (ks : List Nat) (e : Errno) (as' post : List WriteAnswer), as = ks.map .moved ++ as' ∧ Fails as' e post ∧
        ks.sum < v.flatten.length :=
  writevnLoop_cases as v [] hv

namespace HandleTCP

/-- `send` on a socket whose kernel always moves something. -/
theorem send_moved {h : HandleTCP} (hfd : h.fd ≠ none) (hm : Moves h.answers) (bs : Bytes) :
    ∃ as, Moves as ∧ h.send bs = (.ok bs.length,
      { h with wire := h.wire ++ (Words.toBE sizeofSizeT bs.length ++ bs), answers := as }) := by
  obtain ⟨as, hwrite, has⟩ := writevn_moved hm [Words.toBE sizeofSizeT bs.length, bs]
  have hbytes : [Words.toBE sizeofSizeT bs.length, bs].flatten = Words.toBE sizeofSizeT bs.length ++ bs := by simp
  rw [hbytes] at hwrite
  refine ⟨as, has, ?_⟩
  unfold send
  split
  · exact absurd ‹_› hfd
  · rw [hwrite]

theorem sendEOS_moved {h : HandleTCP} (hfd : h.fd ≠ none) (hm : Moves h.answers) :
    ∃ as eos, Moves as ∧ h.sendEOS = (.ok sizeofSizeT,
      { h with wire := h.wire ++ List.replicate sizeofSizeT 0, answers := as, eos := eos }) := by
  obtain ⟨as, hwrite, has⟩ := writen_moved hm (List.replicate sizeofSizeT 0)
  rw [List.length_replicate] at hwrite
  refine ⟨as, h.eos ++ [(h.answers, List.replicate sizeofSizeT 0)], has, ?_⟩
  unfold sendEOS
  split
  · exact absurd ‹_› hfd
  · rw [hwrite]

end HandleTCP

end Mtcl
