import Mtcl.Base.Rounding
import Mtcl.Handle

/-!
# `shmBuffer`

A shared-memory buffer is one slot for at most `shmSmallMsgSize` bytes, guarded by a spinlock.  The writer cuts a
message into chunks and puts each one into the slot when its guard is null, the reader takes a chunk and resets the
guard.  A critical section of `put` is a `Fill`; the reader meets the fills of the writer in order, `none` standing for
a look at the slot before the next one has come, so a list of `Option Fill` is one way the two sides may interleave.

`put` counts the chunks of a message by what is left of it, `get` and `tryget` by a quotient of `float`s.
`shmBuffer_whole_iff` says for which sizes the two agree, and that then, and only then, a message is read whole and the
slot left empty for the next one.
-/

namespace Mtcl

open Rounding

/-- `SHM_SMALL_MSG_SIZE`. -/
def shmSmallMsgSize : Nat := 2 ^ 22

theorem shmSmallMsgSize_pos : 0 < shmSmallMsgSize := by decide

/-- What one critical section of `put` stores in the slot. -/
structure Fill where
  size : Nat
  chunk : Bytes
  fits : chunk.length ≤ shmSmallMsgSize

/-- The next chunk of a message of `sz` bytes of which `rest` is still to write. -/
def Fill.next (sz : Nat) (rest : Bytes) : Fill where
  size := sz
  chunk := rest.take shmSmallMsgSize
  fits := by simp

/-- `shmSegment`; `guard` says whether the pointer is not null. -/
structure ShmSegment where
  guard : Bool
  size : Nat
  data : Bytes
  length_data : data.length = shmSmallMsgSize

/-- The segment after one critical section of `put`. -/
def ShmSegment.fill (seg : ShmSegment) (f : Fill) : ShmSegment where
  guard := true
  size := f.size
  data := f.chunk ++ seg.data.drop f.chunk.length
  length_data := by
    have := seg.length_data
    have := f.fits
    simp only [List.length_append, List.length_drop]
    omega

/-- The segment after the reader has reset the guard. -/
def ShmSegment.release (seg : ShmSegment) : ShmSegment := { seg with guard := false }

/-- The segment that a new buffer starts with. -/
def emptySegment : ShmSegment := ⟨false, 0, List.replicate shmSmallMsgSize 0, List.length_replicate⟩

/-- An object of class `shmBuffer`: whether its segment is mapped, the segment, what the peer that writes to it
will do, and the fills made through this object. -/
structure ShmBuffer where
  shmp : Bool := true
  seg : ShmSegment
  writer : List (Option Fill) := []
  sent : List Fill := []

/-- The loop of `put` over the bytes still to write. -/
def putLoop (sz : Nat) (rest : Bytes) : List Fill :=
  if rest = [] then [] else Fill.next sz rest :: putLoop sz (rest.drop shmSmallMsgSize)
termination_by rest.length
decreasing_by
  have := List.length_pos_iff.2 ‹_›
  have := shmSmallMsgSize_pos
  simp only [List.length_drop]
  omega

/-- The critical sections of `put(data, sz)`. -/
def fills (data : Bytes) : List Fill :=
  if data = [] then [⟨0, [], Nat.zero_le _⟩] else putLoop data.length data

/-- `std::ceil((float)size / SHM_SMALL_MSG_SIZE)` as an `int`: the quotient is by a power of two, so only the conversion
of `size` rounds; a value that is no `int` leaves the result undefined. -/
def nmsgs (size : Nat) : Except Stop Nat :=
  let n := ceilDiv (significand 24 size) shmSmallMsgSize
  if n < 2 ^ 31 then .ok n else .error .undefined

namespace ShmBuffer

/-- `shmBuffer::put`, which returns when it has made all its fills. -/
def put (b : ShmBuffer) (data : Bytes) : Ret × ShmBuffer :=
  if !b.shmp then (.error .EINVAL, b) else (.ok data.length, { b with sent := b.sent ++ fills data })

/-- One look at the slot, under the spinlock. -/
def look (b : ShmBuffer) : ShmBuffer :=
  if b.seg.guard then b
  else
    match b.writer with
    | [] => b
    | none :: w => { b with writer := w }
    | some f :: w => { b with seg := b.seg.fill f, writer := w }

/-- The loops that look at the slot until its guard is set, over what the writer will do. -/
def awaitLoop (b : ShmBuffer) : List (Option Fill) → Except Stop ShmBuffer
  | [] => .error .blocked
  | none :: w => awaitLoop b w
  | some f :: w => .ok { b with seg := b.seg.fill f, writer := w }

/-- The same from the slot as it is. -/
def await (b : ShmBuffer) : Except Stop ShmBuffer := if b.seg.guard then .ok b else b.awaitLoop b.writer

/-- The loop of `get` and `tryget`, entered with the lock held: what it copies to the caller's buffer, in order. -/
def getLoop : Nat → Nat → Bytes → ShmBuffer → Except Stop (Bytes × ShmBuffer)
  | 0, _, got, b => .ok (got, b)
  | n + 1, sz, got, b =>
    let s := min sz shmSmallMsgSize
    let got := got ++ b.seg.data.take s
    let b := { b with seg := b.seg.release }
    if n = 0 then .ok (got, b)
    else
      match b.await with
      | .error st => .error st
      | .ok b => getLoop n (sz - s) got b

/-- The common part of `get` and `tryget`, once the guard is seen set. -/
def takeMessage (b : ShmBuffer) : Except Stop (Ret × Bytes × ShmBuffer) :=
  if b.seg.size = 0 then .ok (.ok 0, [], { b with seg := b.seg.release })
  else do
    let n ← nmsgs b.seg.size
    let (got, b') ← getLoop n b.seg.size [] b
    return (.ok b.seg.size, got, b')

/-- `shmBuffer::get`. -/
def get (b : ShmBuffer) (sz : Nat) : Except Stop (Ret × Bytes × ShmBuffer) :=
  if !b.shmp || sz == 0 then .ok (.error .EINVAL, [], b)
  else do
    let b ← b.await
    b.takeMessage

/-- `shmBuffer::tryget`. -/
def tryget (b : ShmBuffer) (sz : Nat) : Except Stop (Ret × Bytes × ShmBuffer) :=
  if !b.shmp || sz == 0 then .ok (.error .EINVAL, [], b)
  else if b.look.seg.guard then b.look.takeMessage
  else .ok (.error .EWOULDBLOCK, [], b.look)

/-- `shmBuffer::getsize`. -/
def getsize (b : ShmBuffer) : Except Stop (Ret × ShmBuffer) :=
  if !b.shmp then .ok (.error .EINVAL, b)
  else do
    let b ← b.await
    return (.ok b.seg.size, b)

/-- `shmBuffer::trygetsize`. -/
def trygetsize (b : ShmBuffer) : Ret × ShmBuffer :=
  if !b.shmp then (.error .EINVAL, b)
  else if b.look.seg.guard then (.ok b.look.seg.size, b.look)
  else (.error .EWOULDBLOCK, b.look)

/-- `shmBuffer::close`; what is unlinked is of no concern here. -/
def close (b : ShmBuffer) : Ret × ShmBuffer := if !b.shmp then (.error .EPERM, b) else (.ok 0, { b with shmp := false })

end ShmBuffer

/-- The writer makes the given fills, with any looks of the reader before each of them, and then goes on with `rest`. -/
def Brings : List (Option Fill) → List Fill → List (Option Fill) → Prop
  | w, [], rest => w = rest
  | [], _ :: _, _ => False
  | none :: w, f :: fs, rest => Brings w (f :: fs) rest
  | some g :: w, f :: fs, rest => g = f ∧ Brings w fs rest

@[simp] theorem brings_nil {w rest : List (Option Fill)} : Brings w [] rest ↔ w = rest := by
  rcases w with _ | ⟨_ | _, _⟩ <;> rfl

theorem brings_append {w rest : List (Option Fill)} {xs ys : List Fill} :
    Brings w (xs ++ ys) rest ↔ ∃ mid, Brings w xs mid ∧ Brings mid ys rest := by
  induction xs generalizing w with
  | nil => simp
  | cons x xs ih =>
    induction w with
    | nil => exact iff_of_false id fun h => h.elim fun _ h => h.1
    | cons g w ihw =>
      cases g with
      | none => exact ihw
      | some g =>
        rw [List.cons_append, Brings, ih]
        constructor
        · rintro ⟨rfl, mid, h⟩
          exact ⟨mid, ⟨rfl, h.1⟩, h.2⟩
        · rintro ⟨mid, ⟨rfl, h⟩, h'⟩
          exact ⟨rfl, mid, h, h'⟩

/-- The writer that is never early. -/
theorem brings_map_some (fs : List Fill) : Brings (fs.map some) fs [] := by
  induction fs with
  | nil => rfl
  | cons f fs ih => exact ⟨rfl, ih⟩

/-! ### Counting chunks -/

/-- The sizes whose chunks are counted right.  There are less than `2 ^ 31` chunks; and the last one is more
than half the unit of the `float` the size is converted to (or half of it, when rounding goes up), or, for units
above the chunk size, it ends at a multiple of the unit. -/
def ChunksExact (sz : Nat) : Prop :=
  ceilDiv sz shmSmallMsgSize < 2 ^ 31 ∧
    if ulp 24 sz ≤ shmSmallMsgSize then
      ulp 24 sz < 2 * (sz - (ceilDiv sz shmSmallMsgSize - 1) * shmSmallMsgSize) ∨
        ulp 24 sz = shmSmallMsgSize ∧ 2 * (sz - (ceilDiv sz shmSmallMsgSize - 1) * shmSmallMsgSize) = ulp 24 sz ∧
          ceilDiv sz shmSmallMsgSize % 2 = 0
    else ulp 24 sz ∣ ceilDiv sz shmSmallMsgSize * shmSmallMsgSize

instance (sz : Nat) : Decidable (ChunksExact sz) := inferInstanceAs (Decidable (_ ∧ ite _ (_ ∨ _ ∧ _ ∧ _) _))

theorem length_putLoop (sz : Nat) (rest : Bytes) : (putLoop sz rest).length = ceilDiv rest.length shmSmallMsgSize := by
  have hc := shmSmallMsgSize_pos
  fun_induction putLoop sz rest with
  | case1 => rw [List.length_nil, List.length_nil, ceilDiv_zero hc]
  | case2 rest h ih =>
    have hpos := List.length_pos_iff.2 h
    rw [List.length_cons, ih, List.length_drop]
    rcases Nat.lt_or_ge shmSmallMsgSize rest.length with hlt | hge
    · rw [ceilDiv_sub hc hlt]
    · rw [Nat.sub_eq_zero_of_le hge, ceilDiv_zero hc, ceilDiv_of_le hpos hge]

/-- Where the unit divides the chunk size, rounding never passes the end of the last chunk, and it falls back on the end
of the one before when the last chunk is too small. -/
private theorem exact_of_dvd {u c sz k : Nat} (hu : 0 < u) (hlo : k * (c * u) < sz) (hhi : sz ≤ (k + 1) * (c * u)) :
    (k * (c * u) < nearest u sz ∧ nearest u sz ≤ (k + 1) * (c * u)) ↔
      u < 2 * (sz - k * (c * u)) ∨ 2 * (sz - k * (c * u)) = u ∧ (k * c) % 2 = 1 := by
  rw [← Nat.mul_assoc] at hlo ⊢
  rw [← Nat.mul_assoc] at hhi ⊢
  have h1 := nearest_le_iff hu hlo
  have h2 := nearest_le hu hhi
  rw [and_iff_left h2]
  omega

/-- Where the unit is a multiple of the chunk size, rounding stays in the last chunk when its end is a multiple of the
unit. -/
private theorem exact_of_multiple {d c sz k : Nat} (hc : 0 < c) (hd : 2 ≤ d) (hlo : k * c < sz)
    (hhi : sz ≤ (k + 1) * c) :
    (k * c < nearest (d * c) sz ∧ nearest (d * c) sz ≤ (k + 1) * c) ↔ d * c ∣ (k + 1) * c := by
  have hu : 0 < d * c := Nat.mul_pos (by omega) hc
  constructor
  · rintro ⟨h1, h2⟩
    obtain ⟨q, hq⟩ := dvd_nearest (d * c) sz
    have hq' : nearest (d * c) sz = (q * d) * c := by
      rw [hq, Nat.mul_comm (d * c) q, Nat.mul_assoc]
    rw [hq'] at h1 h2
    have h3 := Nat.lt_of_mul_lt_mul_right h1
    have h4 := Nat.le_of_mul_le_mul_right h2 hc
    have h5 : k + 1 = q * d := by omega
    exact ⟨q, by rw [h5, Nat.mul_comm (d * c) q, Nat.mul_assoc]⟩
  · rintro ⟨q, hq⟩
    rw [Nat.mul_comm (d * c) q] at hq
    have hle : nearest (d * c) sz ≤ (k + 1) * c := by
      rw [hq]
      exact nearest_le hu (hq ▸ hhi)
    refine ⟨?_, hle⟩
    obtain ⟨q, rfl⟩ : ∃ j, q = j + 1 := ⟨q - 1, by
      have : q ≠ 0 := by
        rintro rfl
        have : 0 < (k + 1) * c := Nat.mul_pos (Nat.succ_pos k) hc
        omega
      omega⟩
    have h2c : 2 * c ≤ d * c := Nat.mul_le_mul_right c hd
    rw [Nat.succ_mul, Nat.succ_mul] at hq
    -- the size is more than half a unit above the multiple before the end of the last chunk
    have hbelow : q * (d * c) < sz := by omega
    have hfar := nearest_le_iff hu hbelow
    apply Nat.lt_of_not_le
    intro hge
    obtain ⟨j, hj⟩ := dvd_nearest (d * c) sz
    rw [Nat.mul_comm (d * c) j] at hj
    have hjq : j < q + 1 := by
      apply Nat.lt_of_mul_lt_mul_right (a := d * c)
      rw [← hj, Nat.succ_mul]
      omega
    have hdown := Nat.mul_le_mul_right (d * c) (Nat.le_of_lt_succ hjq)
    rw [← hj] at hdown
    have := hfar.1 hdown
    omega

/-- The reader counts the chunks the writer made exactly for the sizes of `ChunksExact`. -/
theorem nmsgs_eq_iff {sz : Nat} (h0 : 0 < sz) : nmsgs sz = .ok (ceilDiv sz shmSmallMsgSize) ↔ ChunksExact sz := by
  have hc := shmSmallMsgSize_pos
  obtain ⟨k, hk⟩ : ∃ k, ceilDiv sz shmSmallMsgSize = k + 1 := ⟨ceilDiv sz shmSmallMsgSize - 1, by
    have := ceilDiv_pos hc h0
    omega⟩
  obtain ⟨hlo, hhi⟩ := (ceilDiv_eq_iff hc).1 hk
  have hround : nmsgs sz = .ok (k + 1) ↔ k + 1 < 2 ^ 31 ∧
      (k * shmSmallMsgSize < significand 24 sz ∧ significand 24 sz ≤ (k + 1) * shmSmallMsgSize) := by
    rw [← ceilDiv_eq_iff hc]
    simp only [nmsgs]
    split
    · rename_i h
      constructor
      · intro e
        have := Except.ok.inj e
        exact ⟨this ▸ h, this⟩
      · rintro ⟨-, e⟩
        rw [e]
    · rename_i h
      refine iff_of_false (by simp) ?_
      rintro ⟨h1, h2⟩
      omega
  rw [hk, hround]
  simp only [ChunksExact, hk, Nat.add_sub_cancel]
  refine and_congr_right fun _ => ?_
  -- both the unit and the chunk size are powers of two
  obtain ⟨e, he⟩ : ∃ e, ulp 24 sz = 2 ^ e := ⟨_, rfl⟩
  simp only [significand, he]
  split
  · rename_i hle
    have he22 : e ≤ 22 := (Nat.pow_le_pow_iff_right (by decide)).1 hle
    have hdvd : shmSmallMsgSize = 2 ^ (22 - e) * 2 ^ e := by
      rw [← Nat.pow_add, Nat.sub_add_cancel he22]
      rfl
    rw [hdvd] at hlo hhi ⊢
    rw [exact_of_dvd (Nat.pow_pos (by decide)) hlo hhi]
    refine or_congr_right ?_
    rcases Nat.lt_or_eq_of_le he22 with hlt | rfl
    · have h2 : k * 2 ^ (22 - e) % 2 = 0 := by
        rw [show 22 - e = (21 - e) + 1 by omega, Nat.pow_succ, ← Nat.mul_assoc, Nat.mul_mod_left]
      have h3 : (2 : Nat) ^ e ≠ 2 ^ (22 - e) * 2 ^ e := by
        rw [← Nat.pow_add, Nat.sub_add_cancel he22]
        exact Nat.ne_of_lt (Nat.pow_lt_pow_right (by decide) hlt)
      rw [h2]
      exact iff_of_false (by simp) (by simp [h3])
    · simp only [Nat.sub_self, Nat.pow_zero, Nat.one_mul, Nat.mul_one, true_and]
      refine and_congr_right fun _ => ?_
      omega
  · rename_i hlt
    have he22 : 22 < e := (Nat.pow_lt_pow_iff_right (by decide)).1 (Nat.lt_of_not_le hlt)
    have hdvd : 2 ^ e = 2 ^ (e - 22) * shmSmallMsgSize := by
      rw [shmSmallMsgSize, ← Nat.pow_add, Nat.sub_add_cancel (Nat.le_of_lt he22)]
    rw [hdvd]
    refine exact_of_multiple hc ?_ hlo hhi
    calc 2 = 2 ^ 1 := rfl
      _ ≤ 2 ^ (e - 22) := Nat.pow_le_pow_right (by decide) (by omega)

/-! ### Reading a message -/

namespace ShmBuffer

/-- The slot holds the first chunk of `rest`, the one the reader copies next. -/
def HasChunk (b : ShmBuffer) (rest : Bytes) : Prop :=
  b.seg.data.take (min rest.length shmSmallMsgSize) = rest.take shmSmallMsgSize

theorem hasChunk_next (b : ShmBuffer) (w : List (Option Fill)) (sz : Nat) (rest : Bytes) :
    HasChunk { b with seg := b.seg.fill (Fill.next sz rest), writer := w } rest := by
  have hlen : (rest.take shmSmallMsgSize).length = min rest.length shmSmallMsgSize := by
    rw [List.length_take, Nat.min_comm]
  exact List.take_left' hlen

private theorem awaitLoop_brings {b : ShmBuffer} {u w : List (Option Fill)} {f : Fill} {fs : List Fill}
    (h : Brings u (f :: fs) w) :
    ∃ v, b.awaitLoop u = .ok { b with seg := b.seg.fill f, writer := v } ∧ Brings v fs w := by
  induction u with
  | nil => exact absurd h id
  | cons x u ih =>
    cases x with
    | none => exact ih h
    | some g =>
      obtain ⟨rfl, h⟩ := h
      exact ⟨u, rfl, h⟩

theorem await_brings {b : ShmBuffer} {w : List (Option Fill)} {f : Fill} {fs : List Fill}
    (hg : b.seg.guard = false) (h : Brings b.writer (f :: fs) w) :
    ∃ v, b.await = .ok { b with seg := b.seg.fill f, writer := v } ∧ Brings v fs w := by
  rw [await, if_neg (by simp [hg])]
  exact awaitLoop_brings h

/-- With as many turns as there are chunks the loop copies the message and leaves the slot empty. -/
private theorem getLoop_whole (sz : Nat) {rest : Bytes} (h : rest ≠ []) {b : ShmBuffer} (got : Bytes)
    {w : List (Option Fill)} (hb : b.HasChunk rest)
    (hw : Brings b.writer (putLoop sz (rest.drop shmSmallMsgSize)) w) :
    ∃ seg : ShmSegment, seg.guard = false ∧
      getLoop (putLoop sz rest).length rest.length got b = .ok (got ++ rest, { b with seg := seg, writer := w }) := by
  induction hn : rest.length using Nat.strongRecOn generalizing rest b got with
  | _ n ih =>
    have hpos := List.length_pos_iff.2 h
    have hc := shmSmallMsgSize_pos
    rw [putLoop, if_neg h, List.length_cons, getLoop]
    rw [← hn, hb]
    rcases hd : rest.drop shmSmallMsgSize with _ | ⟨x, xs⟩
    · -- the last chunk
      rw [hd, putLoop, if_pos rfl] at hw
      rw [putLoop, if_pos rfl, List.length_nil, if_pos rfl]
      refine ⟨b.seg.release, rfl, ?_⟩
      rw [List.take_of_length_le (List.drop_eq_nil_iff.1 hd), ← brings_nil.1 hw]
    · have hne : rest.drop shmSmallMsgSize ≠ [] := by simp [hd]
      have hlen : (rest.drop shmSmallMsgSize).length = rest.length - min rest.length shmSmallMsgSize := by
        rw [List.length_drop]
        omega
      rw [← hd, if_neg (by rw [putLoop, if_neg hne]; simp)]
      rw [putLoop, if_neg hne] at hw
      obtain ⟨v, e, hv⟩ := await_brings (b := { b with seg := b.seg.release }) rfl hw
      rw [e]
      obtain ⟨seg, hseg, hget⟩ := ih _ (by rw [hlen]; omega) hne (got ++ rest.take shmSmallMsgSize)
        (hasChunk_next { b with seg := b.seg.release } v sz _) hv rfl
      refine ⟨seg, hseg, ?_⟩
      rw [hlen, List.append_assoc, List.take_append_drop] at hget
      exact hget

/-- `get` and `tryget` with room for a message return it whole, and the slot is left empty, the writer going on
with `w`; a `tryget` before the first chunk has come changes nothing else. -/
def ReadsWhole (b : ShmBuffer) (cap : Nat) (data : Bytes) (w : List (Option Fill)) : Prop :=
  (∃ seg : ShmSegment, seg.guard = false ∧
    b.get cap = .ok (.ok data.length, data, { b with seg := seg, writer := w })) ∧
  if b.look.seg.guard then
    ∃ seg : ShmSegment, seg.guard = false ∧
      b.tryget cap = .ok (.ok data.length, data, { b with seg := seg, writer := w })
  else b.tryget cap = .ok (.error .EWOULDBLOCK, [], b.look) ∧ Brings b.look.writer (fills data) w

theorem fills_eq {data : Bytes} (h0 : data ≠ []) : fills data = putLoop data.length data := by
  rw [fills, if_neg h0]

theorem takeMessage_whole {data : Bytes} (h0 : data ≠ [])
    (hx : nmsgs data.length = .ok (fills data).length) {b : ShmBuffer} {w : List (Option Fill)}
    (hsz : b.seg.size = data.length) (hb : b.HasChunk data)
    (hw : Brings b.writer (putLoop data.length (data.drop shmSmallMsgSize)) w) :
    ∃ seg : ShmSegment, seg.guard = false ∧
      b.takeMessage = .ok (.ok data.length, data, { b with seg := seg, writer := w }) := by
  obtain ⟨seg, hseg, hget⟩ := getLoop_whole data.length h0 [] hb hw
  refine ⟨seg, hseg, ?_⟩
  have hne : b.seg.size ≠ 0 := by
    rw [hsz]
    exact Nat.ne_of_gt (List.length_pos_iff.2 h0)
  rw [takeMessage, if_neg hne, hsz, hx, bind_ok, fills_eq h0, hget]
  rfl

private theorem readsWhole {data : Bytes} (h0 : data ≠ []) (hx : nmsgs data.length = .ok (fills data).length)
    {b : ShmBuffer} {cap : Nat} {w : List (Option Fill)} (hs : b.shmp = true) (hg : b.seg.guard = false)
    (hcap : data.length ≤ cap) (hw : Brings b.writer (fills data) w) : b.ReadsWhole cap data w := by
  have hpos := List.length_pos_iff.2 h0
  have hopen : (!b.shmp || cap == 0) = false := by
    simp [hs]
    omega
  have hw' := hw
  rw [fills_eq h0, putLoop, if_neg h0] at hw'
  refine ⟨?_, ?_⟩
  · obtain ⟨v, e, hv⟩ := await_brings hg hw'
    obtain ⟨seg, hseg, ht⟩ := takeMessage_whole h0 hx (b := { b with seg := b.seg.fill _, writer := v }) rfl
      (hasChunk_next b v _ _) hv
    refine ⟨seg, hseg, ?_⟩
    rw [get, hopen, if_neg (by simp), e]
    exact ht
  · -- what a look at the slot finds
    rcases hl : b.writer with _ | ⟨_ | f, u⟩
    · rw [hl] at hw'
      exact absurd hw' id
    · have hlook : b.look = { b with writer := u } := by simp [look, hg, hl]
      rw [if_neg (by simp [hlook, hg])]
      refine ⟨?_, ?_⟩
      · rw [tryget, hopen, if_neg (by simp), if_neg (by simp [hlook, hg])]
      · rw [hl] at hw
        rw [hlook]
        rw [fills_eq h0, putLoop, if_neg h0] at hw ⊢
        exact hw
    · rw [hl] at hw'
      obtain ⟨rfl, hw'⟩ := hw'
      have hlook : b.look = { b with seg := b.seg.fill (Fill.next data.length data), writer := u } := by
        simp [look, hg, hl]
      rw [if_pos (by rw [hlook]; rfl)]
      obtain ⟨seg, hseg, ht⟩ := takeMessage_whole h0 hx (b := b.look) (by rw [hlook]; rfl)
        (by rw [hlook]; exact hasChunk_next b u _ _) (by rw [hlook]; exact hw')
      refine ⟨seg, hseg, ?_⟩
      rw [tryget, hopen, if_neg (by simp), if_pos (by rw [hlook]; rfl), ht, hlook]

/-- For every message, whatever the reader did before and however the two sides interleave: the reader takes as
many chunks as the writer made, and so reads the message whole and leaves the slot empty, exactly for the sizes
of `ChunksExact`. -/
theorem shmBuffer_whole_iff {data : Bytes} (h0 : data ≠ []) :
    (nmsgs data.length = .ok (fills data).length ∧
      ∀ (b : ShmBuffer) (cap : Nat) (w : List (Option Fill)), b.shmp = true → b.seg.guard = false →
        data.length ≤ cap → Brings b.writer (fills data) w → b.ReadsWhole cap data w) ↔
      ChunksExact data.length := by
  have hlen : (fills data).length = ceilDiv data.length shmSmallMsgSize := by
    rw [fills_eq h0, length_putLoop]
  rw [← nmsgs_eq_iff (List.length_pos_iff.2 h0), ← hlen]
  exact ⟨And.left, fun hx => ⟨hx, fun b cap w hs hg hcap hw => readsWhole h0 hx hs hg hcap hw⟩⟩

/-- A message of two chunks, and a reader that looks before each of them has come. -/
theorem shmBuffer_whole_iff_run :
    let data : Bytes := List.replicate (shmSmallMsgSize + 1) 7
    ∃ f g : Fill, fills data = [f, g] ∧ nmsgs data.length = .ok 2 ∧
      let b : ShmBuffer := { seg := emptySegment, writer := [none, some f, none, some g] }
      ∃ seg : ShmSegment, seg.guard = false ∧
        b.get data.length = .ok (.ok data.length, data, { b with seg := seg, writer := [] }) := by
  obtain ⟨data, hdata, hlen⟩ : ∃ data : Bytes, data = List.replicate (shmSmallMsgSize + 1) 7 ∧
      data.length = shmSmallMsgSize + 1 := ⟨_, rfl, List.length_replicate⟩
  dsimp only
  rw [← hdata]
  have h0 : data ≠ [] := by
    rintro rfl
    cases hlen
  obtain ⟨hn, hwhole⟩ := (shmBuffer_whole_iff h0).2 (by rw [hlen]; decide)
  -- the two chunks
  have hd : data.drop shmSmallMsgSize ≠ [] := by
    rw [Ne, List.drop_eq_nil_iff, hlen]
    exact Nat.not_le.2 (Nat.lt_succ_self _)
  have hdd : (data.drop shmSmallMsgSize).drop shmSmallMsgSize = [] := by
    rw [List.drop_eq_nil_iff, List.length_drop, hlen]
    decide
  have hfills : fills data = [Fill.next data.length data, Fill.next data.length (data.drop shmSmallMsgSize)] := by
    rw [fills_eq h0, putLoop, if_neg h0, putLoop, if_neg hd, hdd, putLoop, if_pos rfl]
  generalize Fill.next data.length data = f, Fill.next data.length (data.drop shmSmallMsgSize) = g at hfills
  rw [hfills] at hn
  refine ⟨f, g, hfills, hn, ?_⟩
  have hbrings : Brings [none, some f, none, some g] (fills data) [] := by
    rw [hfills]
    exact ⟨rfl, rfl, rfl⟩
  exact (hwhole { seg := emptySegment, writer := [none, some f, none, some g] } data.length [] rfl rfl (Nat.le_refl _)
    hbrings).1

/-- A message of `2 ^ 24 + 1` bytes is written in five chunks and read in four. -/
theorem shmBuffer_short :
    (fills (List.replicate (2 ^ 24 + 1) 0)).length = 5 ∧
      nmsgs (List.replicate (2 ^ 24 + 1) (0 : UInt8)).length = .ok 4 := by
  refine ⟨?_, ?_⟩
  · rw [fills_eq fun h => absurd ((List.replicate_eq_nil_iff 0).1 h) (by decide), length_putLoop, List.length_replicate]
    decide
  · rw [List.length_replicate]
    rfl

end ShmBuffer

end Mtcl
