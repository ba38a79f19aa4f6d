import Mtcl.HandleTCP

/-!
# The loop of `writevn` over an array

`writevn` of `HandleTCP` is written over the list of buffers that are left.  The source works on an array of
`struct iovec` that it changes in place: `cur` is the index of the first entry that is left, and of that entry
the base and the length are moved behind what has been written.  `writevn_refines` says that the two do the
same, and `writevn_exact` that a kernel which does not answer zero for ever gets all the bytes of the buffers,
once and in order.
-/

namespace Mtcl

/-- A `struct iovec`: the bytes from `iov_base` to the end of the object it points into, and how many of them are to be
written.  No object has 2^63 bytes. -/
structure Iovec where
  iovBase : Bytes
  iovLen : Nat
  fits : iovLen ≤ iovBase.length
  object : iovBase.length < 2 ^ 63

/-- `(ssize_t)n`. -/
def ssizeOf (n : Nat) : Int := if n < 2 ^ 63 then n else n - 2 ^ 64

namespace Iovec

/-- The entry for a whole buffer. -/
def ofBuffer (bs : Bytes) (h : bs.length < 2 ^ 63) : Iovec where
  iovBase := bs
  iovLen := bs.length
  fits := Nat.le_refl _
  object := h

/-- The bytes that an entry asks the kernel to write. -/
def bytes (b : Iovec) : Bytes := b.iovBase.take b.iovLen

/-- The entry after its first `n` bytes have been written. -/
def skip (b : Iovec) (n : Nat) : Iovec where
  iovBase := b.iovBase.drop n
  iovLen := b.iovLen - n
  fits := by
    have := b.fits
    rw [List.length_drop]
    omega
  object := by
    have := b.object
    rw [List.length_drop]
    omega

/-- The entries from `v + cur` on. -/
def left (v : List Iovec) (cur : Nat) : List Bytes := (v.drop cur).map bytes

/-- The inner loop of `writevn`, over the entries that have been written whole.  The array has `count` entries,
and a look behind them is undefined. -/
def passOver (v : List Iovec) (cur written : Nat) : Except Stop (Nat × Nat) :=
  if cur < v.length then
    match v[cur]? with
    | none => .error .undefined
    | some b => if ssizeOf b.iovLen ≤ written then passOver v (cur + 1) (written - b.iovLen) else .ok (cur, written)
  else .ok (cur, written)
termination_by v.length - cur

/-- The outer loop of `writevn`, from its `i`-th call of `writev` on: what it returns, and the bytes the kernel
has taken. -/
def writevnLoop (answers : Nat → WriteAnswer) : Nat → Nat → Nat → List Iovec → Bytes → Except Stop (Ret × Bytes)
  | 0, _, _, _, _ => .error .outOfFuel
  | fuel + 1, i, cur, v, sent =>
    match answers i with
    | .failed e => .ok (.error e, sent)
    | .broken e => .ok (.error e, sent)
    | .moved k =>
      let asked := (left v cur).flatten
      let written := min k asked.length
      let sent := sent ++ asked.take written
      match passOver v cur written with
      | .error st => .error st
      | .ok (cur, rest) =>
        if cur = v.length then .ok (.ok 1, sent)
        else
          match v[cur]? with
          | none => .error .undefined
          | some b => writevnLoop answers fuel (i + 1) cur (v.set cur (b.skip rest)) sent

/-- `HandleTCP::writevn` on an array. -/
def writevn (answers : Nat → WriteAnswer) (fuel : Nat) (v : List Iovec) : Except Stop (Ret × Bytes) :=
  writevnLoop answers fuel 0 0 v []

/-! ### One turn -/

theorem length_bytes (b : Iovec) : b.bytes.length = b.iovLen := by
  rw [bytes, List.length_take, Nat.min_eq_left b.fits]

@[simp] theorem bytes_ofBuffer (bs : Bytes) (h : bs.length < 2 ^ 63) : (ofBuffer bs h).bytes = bs :=
  List.take_length

theorem bytes_skip (b : Iovec) (n : Nat) : (b.skip n).bytes = b.bytes.drop n := by
  rw [bytes, bytes, skip, List.drop_take]

theorem ssizeOf_iovLen (b : Iovec) : ssizeOf b.iovLen = b.iovLen := by
  have := b.fits
  have := b.object
  rw [ssizeOf, if_pos (by omega)]

theorem left_of_getElem? {v : List Iovec} {cur : Nat} {b : Iovec} (h : v[cur]? = some b) :
    left v cur = b.bytes :: left v (cur + 1) := by
  obtain ⟨hlt, rfl⟩ := List.getElem?_eq_some_iff.1 h
  rw [left, List.drop_eq_getElem_cons hlt, List.map_cons, left]

theorem left_eq_nil {v : List Iovec} {cur : Nat} (h : v.length ≤ cur) : left v cur = [] := by
  rw [left, List.drop_eq_nil_of_le h, List.map_nil]

/-- The inner loop stops at the first entry that is not whole, or behind the array. -/
theorem passOver_spec (v : List Iovec) (cur written : Nat) (hcur : cur ≤ v.length) :
    ∃ cur' rest, passOver v cur written = .ok (cur', rest) ∧
      ((cur' = v.length ∧ advance written (left v cur) = []) ∨
        cur' ≠ v.length ∧ ∃ b, v[cur']? = some b ∧
          advance written (left v cur) = b.bytes.drop rest :: left v (cur' + 1)) := by
  induction hn : v.length - cur generalizing cur written with
  | zero =>
    have hend : cur = v.length := by omega
    refine ⟨cur, written, ?_, Or.inl ⟨hend, ?_⟩⟩
    · rw [passOver, if_neg (by omega)]
    · rw [left_eq_nil (by omega), advance]
  | succ n ih =>
    have hlt : cur < v.length := by omega
    obtain ⟨b, hb⟩ : ∃ b, v[cur]? = some b := ⟨v[cur], List.getElem?_eq_getElem hlt⟩
    rw [passOver, if_pos hlt, hb, left_of_getElem? hb, advance, length_bytes]
    dsimp only
    rw [ssizeOf_iovLen]
    by_cases hle : b.iovLen ≤ written
    · rw [if_pos hle, if_pos (by omega)]
      exact ih (cur + 1) (written - b.iovLen) (by omega) (by omega)
    · rw [if_neg hle, if_neg (by omega)]
      exact ⟨cur, written, rfl, Or.inr ⟨by omega, b, hb, rfl⟩⟩

/-- A turn does to the entries that are left what `advance` does to their bytes, and ends the loop when nothing
is left. -/
theorem writevnLoop_turn {answers : Nat → WriteAnswer} {i k cur : Nat} {v : List Iovec} (hi : answers i = .moved k)
    (hcur : cur ≤ v.length) (sent : Bytes) :
    let asked := (left v cur).flatten
    let written := min k asked.length
    (advance written (left v cur) = [] ∧
      ∀ fuel, writevnLoop answers (fuel + 1) i cur v sent = .ok (.ok 1, sent ++ asked.take written)) ∨
    ∃ cur' v', cur' ≤ v'.length ∧ left v' cur' = advance written (left v cur) ∧ left v' cur' ≠ [] ∧
      ∀ fuel, writevnLoop answers (fuel + 1) i cur v sent =
        writevnLoop answers fuel (i + 1) cur' v' (sent ++ asked.take written) := by
  intro asked written
  obtain ⟨cur', rest, hpass, ⟨hend, hnil⟩ | ⟨hne, b, hb, hadv⟩⟩ := passOver_spec v cur written hcur
  · refine Or.inl ⟨hnil, fun fuel => ?_⟩
    rw [writevnLoop, hi]
    dsimp only
    rw [hpass]
    exact if_pos hend
  · obtain ⟨hlt, -⟩ := List.getElem?_eq_some_iff.1 hb
    have hset : (v.set cur' (b.skip rest))[cur']? = some (b.skip rest) := List.getElem?_set_self hlt
    have hleft : left (v.set cur' (b.skip rest)) cur' = advance written (left v cur) := by
      rw [left_of_getElem? hset, hadv, bytes_skip, left, List.drop_set_of_lt (Nat.lt_succ_self cur'), left]
    refine Or.inr ⟨cur', v.set cur' (b.skip rest), ?_, hleft, ?_, fun fuel => ?_⟩
    · rw [List.length_set]
      exact Nat.le_of_lt hlt
    · rw [hleft, hadv]
      exact List.cons_ne_nil _ _
    · rw [writevnLoop, hi]
      dsimp only
      rw [hpass]
      dsimp only
      rw [if_neg hne, hb]

/-! ### The list of buffers -/

private theorem writevnLoop_refines {answers : Nat → WriteAnswer} {n : Nat} (as : List WriteAnswer) {i cur : Nat}
    {v : List Iovec} (hcur : cur ≤ v.length) (hn : (left v cur).flatten.length ≤ n)
    (has : ∀ j, answers (i + j) = as.getD j (.moved n)) (sent : Bytes) :
    ∃ turns, ∀ fuel, turns ≤ fuel → writevnLoop answers fuel i cur v sent =
      .ok ((Mtcl.writevnLoop as (left v cur) sent).1, (Mtcl.writevnLoop as (left v cur) sent).2.1) := by
  induction as generalizing i cur v sent with
  | nil =>
    -- the kernel takes whole what it is asked for
    have hmin : min n (left v cur).flatten.length = (left v cur).flatten.length := Nat.min_eq_right hn
    refine ⟨1, fun fuel hfuel => ?_⟩
    obtain ⟨fuel, rfl⟩ := Nat.exists_eq_add_of_le' hfuel
    have hi : answers i = .moved n := has 0
    rcases writevnLoop_turn hi hcur sent with ⟨-, hturn⟩ | ⟨cur', v', -, hleft, hne, -⟩
    · rw [hturn, hmin, List.take_length, Mtcl.writevnLoop]
    · rw [hmin, advance_eq_nil.2 (Nat.le_refl _)] at hleft
      exact absurd hleft hne
  | cons a as ih =>
    have hnext : ∀ j, answers (i + 1 + j) = as.getD j (.moved n) := by
      intro j
      have := has (j + 1)
      rwa [List.getD_cons_succ, ← Nat.add_assoc, Nat.add_right_comm] at this
    cases a with
    | failed e =>
      refine ⟨1, fun fuel hfuel => ?_⟩
      obtain ⟨fuel, rfl⟩ := Nat.exists_eq_add_of_le' hfuel
      have hi : answers i = .failed e := has 0
      rw [writevnLoop, hi, Mtcl.writevnLoop]
    | broken e =>
      refine ⟨1, fun fuel hfuel => ?_⟩
      obtain ⟨fuel, rfl⟩ := Nat.exists_eq_add_of_le' hfuel
      have hi : answers i = .broken e := has 0
      rw [writevnLoop, hi, Mtcl.writevnLoop]
    | moved k =>
      have hi : answers i = .moved k := has 0
      rcases writevnLoop_turn hi hcur sent with ⟨hnil, hturn⟩ | ⟨cur', v', hcur', hleft, hne, hturn⟩
      · refine ⟨1, fun fuel hfuel => ?_⟩
        obtain ⟨fuel, rfl⟩ := Nat.exists_eq_add_of_le' hfuel
        rw [hturn, Mtcl.writevnLoop, hnil]
      · have hlen : (left v' cur').flatten.length ≤ n := by
          rw [hleft, flatten_advance, List.length_drop]
          omega
        obtain ⟨turns, hrest⟩ := ih hcur' hlen hnext
          (sent ++ (left v cur).flatten.take (min k (left v cur).flatten.length))
        refine ⟨turns + 1, fun fuel hfuel => ?_⟩
        obtain ⟨fuel, rfl⟩ : ∃ f, fuel = f + 1 := ⟨fuel - 1, by omega⟩
        rw [hturn, hrest fuel (by omega), hleft]
        rw [hleft] at hne
        conv_rhs => unfold Mtcl.writevnLoop
        dsimp only
        split
        · exact absurd ‹_› hne
        · rfl

/-- On an array `writevn` does what it does on the list of its buffers, for every list of answers of the kernel,
which takes every request whole behind the last of them. -/
theorem writevn_refines (as : List WriteAnswer) (v : List Iovec) :
    ∃ turns, ∀ fuel, turns ≤ fuel →
      writevn (fun i => as.getD i (.moved (v.map bytes).flatten.length)) fuel v =
        .ok ((Mtcl.writevn as (v.map bytes)).1, (Mtcl.writevn as (v.map bytes)).2.1) :=
  writevnLoop_refines as (Nat.zero_le _) (Nat.le_refl _) (fun j => by rw [Nat.zero_add]; rfl) []

/-! ### A kernel that goes on -/

private theorem writevnLoop_exact {counts : Nat → Nat} (hcounts : ∀ n, ∃ i, n ≤ i ∧ 0 < counts i) {i cur : Nat}
    {v : List Iovec} (hcur : cur ≤ v.length) (sent : Bytes) :
    ∃ turns, ∀ fuel, turns ≤ fuel →
      writevnLoop (fun i => .moved (counts i)) fuel i cur v sent = .ok (.ok 1, sent ++ (left v cur).flatten) := by
  -- by the number of bytes that are left, and then by the number of calls up to the next that moves some of them
  induction hlen : (left v cur).flatten.length using Nat.strong_induction_on generalizing i cur v sent with
  | _ len ih =>
    obtain ⟨j, hij, hj⟩ := hcounts i
    obtain ⟨d, rfl⟩ := Nat.exists_eq_add_of_le hij
    clear hij
    induction d using Nat.strong_induction_on generalizing i cur v sent with
    | _ d ihd =>
      rcases @writevnLoop_turn (fun i => .moved (counts i)) i _ _ _ rfl hcur sent with
        ⟨hnil, hturn⟩ | ⟨cur', v', hcur', hleft, hne, hturn⟩
      · refine ⟨1, fun fuel hfuel => ?_⟩
        obtain ⟨fuel, rfl⟩ := Nat.exists_eq_add_of_le' hfuel
        rw [hturn, List.take_of_length_le (advance_eq_nil.1 hnil)]
      · have hmore : min (counts i) len < len := by
          rw [hleft, hlen] at hne
          have := mt advance_eq_nil.2 hne
          omega
        have hrest : (left v' cur').flatten = (left v cur).flatten.drop (min (counts i) len) := by
          rw [hleft, flatten_advance, hlen]
        have hlen' : (left v' cur').flatten.length = len - min (counts i) len := by
          rw [hrest, List.length_drop, hlen]
        have hsent : sent ++ (left v cur).flatten = sent ++ (left v cur).flatten.take (min (counts i) len) ++
            (left v' cur').flatten := by
          rw [hrest, List.append_assoc, List.take_append_drop]
        rw [hlen] at hturn
        suffices h : ∃ turns, ∀ fuel, turns ≤ fuel → writevnLoop (fun i => .moved (counts i)) fuel (i + 1) cur' v'
            (sent ++ (left v cur).flatten.take (min (counts i) len)) = .ok (.ok 1, sent ++ (left v cur).flatten) by
          obtain ⟨turns, h⟩ := h
          refine ⟨turns + 1, fun fuel hfuel => ?_⟩
          obtain ⟨fuel, rfl⟩ : ∃ f, fuel = f + 1 := ⟨fuel - 1, by omega⟩
          rw [hturn, h fuel (by omega)]
        rw [hsent]
        by_cases hzero : counts i = 0
        · -- nothing was moved, and the next call that moves something is nearer
          have hd : d ≠ 0 := by
            rintro rfl
            exact absurd hj (by rw [Nat.add_zero, hzero]; exact Nat.lt_irrefl 0)
          refine ihd (d - 1) (by omega) hcur' _ (by rw [hlen', hzero, Nat.zero_min, Nat.sub_zero]) ?_
          rw [show i + 1 + (d - 1) = i + d by omega]
          exact hj
        · exact ih (len - min (counts i) len) (by omega) hcur' _ hlen'

/-- A kernel that does not answer zero for ever gets the bytes of all the buffers, each once and in order, and `writevn`
returns; it does not look behind the array. -/
theorem writevn_exact (v : List Iovec) (counts : Nat → Nat) (hcounts : ∀ n, ∃ i, n ≤ i ∧ 0 < counts i) :
    ∃ turns, ∀ fuel, turns ≤ fuel →
      writevn (fun i => .moved (counts i)) fuel v = .ok (.ok 1, (v.map bytes).flatten) :=
  writevnLoop_exact hcounts (Nat.zero_le _) []

/-- A buffer, an empty one and another, to a kernel that moves nothing in every other call and one byte in the rest. -/
theorem writevn_exact_run :
    ∃ turns, ∀ fuel, turns ≤ fuel →
      writevn (fun i => .moved (i % 2)) fuel
        [ofBuffer [1, 2] (by decide), ofBuffer [] (by decide), ofBuffer [3] (by decide)] =
        .ok (.ok 1, [1, 2, 3]) :=
  writevn_exact [ofBuffer [1, 2] (by decide), ofBuffer [] (by decide), ofBuffer [3] (by decide)] (fun i => i % 2)
    fun n => ⟨2 * n + 1, by omega, by omega⟩

end Iovec

/-- `send` calls `writevn` with an array of two entries, the header and the message. -/
theorem HandleTCP.send_vectors {h : HandleTCP} (hfd : h.fd ≠ none) {bs : Bytes} (hbs : bs.length < 2 ^ 63) :
    ∃ r sent turns, (∀ fuel, turns ≤ fuel →
        Iovec.writevn (fun i => h.answers.getD i (.moved (sizeofSizeT + bs.length))) fuel
          [.ofBuffer (Words.toBE sizeofSizeT bs.length) (by rw [Words.length_toBE]; decide), .ofBuffer bs hbs] =
            .ok (r, sent)) ∧
      (h.send bs).1 = r.map (fun _ => bs.length) ∧ (h.send bs).2.wire = h.wire ++ sent := by
  obtain ⟨turns, hturns⟩ := Iovec.writevn_refines h.answers
    [.ofBuffer (Words.toBE sizeofSizeT bs.length) (by rw [Words.length_toBE]; decide), .ofBuffer bs hbs]
  have hlen : ([Words.toBE sizeofSizeT bs.length, bs] : List Bytes).flatten.length = sizeofSizeT + bs.length := by
    simp [Words.length_toBE]
  simp only [List.map_cons, List.map_nil, Iovec.bytes_ofBuffer, hlen] at hturns
  refine ⟨_, _, turns, hturns, ?_⟩
  unfold send
  split
  · exact absurd ‹_› hfd
  · rcases hw : writevn h.answers [Words.toBE sizeofSizeT bs.length, bs] with ⟨e | n, sent, as⟩
    · exact ⟨rfl, rfl⟩
    · exact ⟨rfl, rfl⟩

end Mtcl
