import Mtcl.HandleSHM
import Mtcl.Handshake

/-!
# Where `get` and `tryget` write

`get(data, sz)` and `tryget(data, sz)` copy as many bytes as the chunks they count hold, and the size that they
start from is the one the peer has put into the slot: `sz` is looked at only to be zero.  `getWrites` and
`trygetWrites` are the positions of `data` that the calls write to, one after the other, also when a call waits
for ever in the middle of a message.

`receives_inside_iff` says for which sizes all of them are below `sz`, and what that means for the two callers
that read a message of a peer into a buffer of fixed size, `connectionHandshake` and `ConnSHM::update`.
-/

namespace Mtcl

open Rounding

/-- The positions that are written to are inside a buffer of `n` bytes; a call that does what is undefined may write
anywhere. -/
def Inside : Except Stop (List Nat) → Nat → Prop
  | .ok l, n => ∀ i ∈ l, i < n
  | .error _, _ => False

namespace ShmBuffer

/-- The positions that the loop of `get` and `tryget` writes to from the position `p` on. -/
def loopWrites : Nat → Nat → Nat → ShmBuffer → List Nat
  | 0, _, _, _ => []
  | n + 1, sz, p, b =>
    let s := min sz shmSmallMsgSize
    List.range' p s ++
      if n = 0 then []
      else
        match ({ b with seg := b.seg.release } : ShmBuffer).await with
        | .error _ => []
        | .ok b => loopWrites n (sz - s) (p + s) b

/-- Those of the common part of `get` and `tryget`. -/
def takeWrites (b : ShmBuffer) : Except Stop (List Nat) :=
  if b.seg.size = 0 then .ok []
  else do
    let n ← nmsgs b.seg.size
    return loopWrites n b.seg.size 0 b

/-- The positions that `get(data, sz)` writes to. -/
def getWrites (b : ShmBuffer) (sz : Nat) : Except Stop (List Nat) :=
  if !b.shmp || sz == 0 then .ok []
  else
    match b.await with
    | .error _ => .ok []
    | .ok b => b.takeWrites

/-- The positions that `tryget(data, sz)` writes to. -/
def trygetWrites (b : ShmBuffer) (sz : Nat) : Except Stop (List Nat) :=
  if !b.shmp || sz == 0 then .ok [] else if b.look.seg.guard then b.look.takeWrites else .ok []

/-- The positions of `msg` that `ConnSHM::update` writes to, where `get` is called once `trygetsize` has found a
message; the last of them is that of the NUL. -/
def updateWrites (b : ShmBuffer) : Except Stop (List Nat) :=
  if !b.shmp then .ok []
  else
    match b.trygetsize with
    | (.error _, _) => .ok []
    | (.ok _, b) => do
      let l ← b.getWrites shmSmallMsgSize
      match b.get shmSmallMsgSize with
      | .ok (.ok sz, _, _) => return l ++ [sz]
      | _ => return l

/-- A peer has put the message into the buffer: its chunks are still to come, or the first of them is in the slot. -/
def Stored (b : ShmBuffer) (data : Bytes) : Prop :=
  (b.seg.guard = false ∧ ∃ w, Brings b.writer (fills data) w) ∨
    b.seg.guard = true ∧ b.seg.size = data.length ∧
      ∃ w, Brings b.writer (putLoop data.length (data.drop shmSmallMsgSize)) w

/-- The chunks that are counted for `size` bytes are an `int`, and what they hold of the message is no more than
`cap`. -/
def Fits (size cap : Nat) : Prop :=
  ceilDiv (significand 24 size) shmSmallMsgSize < 2 ^ 31 ∧
    min size (ceilDiv (significand 24 size) shmSmallMsgSize * shmSmallMsgSize) ≤ cap

instance (size cap : Nat) : Decidable (Fits size cap) := inferInstanceAs (Decidable (_ ∧ _))

/-! ### The calls that return -/

private theorem getLoop_writes {n sz : Nat} {got bs : Bytes} {b b' : ShmBuffer}
    (h : getLoop n sz got b = .ok (bs, b')) :
    loopWrites n sz got.length b = List.range' got.length (bs.length - got.length) ∧ got.length ≤ bs.length := by
  induction n generalizing sz got b with
  | zero =>
    cases h
    rw [loopWrites, Nat.sub_self]
    exact ⟨rfl, Nat.le_refl _⟩
  | succ n ih =>
    have hlen : (got ++ b.seg.data.take (min sz shmSmallMsgSize)).length = got.length + min sz shmSmallMsgSize := by
      rw [List.length_append, List.length_take, b.seg.length_data, Nat.min_eq_left (Nat.min_le_right _ _)]
    unfold getLoop at h
    dsimp only at h
    rw [loopWrites]
    by_cases hn : n = 0
    · rw [if_pos hn] at h
      cases h
      rw [if_pos hn, List.append_nil, hlen, Nat.add_sub_cancel_left]
      exact ⟨rfl, Nat.le_add_right _ _⟩
    · rw [if_neg hn] at h
      rw [if_neg hn]
      cases hawait : ShmBuffer.await { b with seg := b.seg.release } with
      | error e =>
        rw [hawait] at h
        cases h
      | ok b1 =>
        rw [hawait] at h
        dsimp only at h ⊢
        obtain ⟨hwrites, hle⟩ := ih h
        rw [hlen] at hwrites hle
        rw [hwrites, List.range'_append_1]
        have hsum : min sz shmSmallMsgSize + (bs.length - (got.length + min sz shmSmallMsgSize)) =
            bs.length - got.length := by
          omega
        rw [hsum]
        exact ⟨rfl, by omega⟩

private theorem takeMessage_writes {b b' : ShmBuffer} {r : Ret} {bs : Bytes} (h : b.takeMessage = .ok (r, bs, b')) :
    b.takeWrites = .ok (List.range bs.length) := by
  unfold takeMessage at h
  unfold takeWrites
  by_cases hsize : b.seg.size = 0
  · rw [if_pos hsize] at h ⊢
    cases h
    rfl
  · rw [if_neg hsize] at h ⊢
    obtain ⟨n, hn, h⟩ := bind_eq_ok.1 h
    obtain ⟨⟨got, b1⟩, hloop, h⟩ := bind_eq_ok.1 h
    cases h
    obtain ⟨hwrites, -⟩ := getLoop_writes hloop
    rw [hn, bind_ok, List.range_eq_range']
    exact congrArg _ hwrites

/-- A `get` that returns has written the bytes that it returns, from the start of the buffer on. -/
theorem get_writes {b b' : ShmBuffer} {sz : Nat} {r : Ret} {bs : Bytes} (h : b.get sz = .ok (r, bs, b')) :
    b.getWrites sz = .ok (List.range bs.length) := by
  unfold get at h
  unfold getWrites
  by_cases hinv : (!b.shmp || sz == 0) = true
  · rw [if_pos hinv] at h ⊢
    cases h
    rfl
  · rw [if_neg hinv] at h ⊢
    obtain ⟨b1, hawait, h⟩ := bind_eq_ok.1 h
    rw [hawait]
    exact takeMessage_writes h

/-- The same for `tryget`. -/
theorem tryget_writes {b b' : ShmBuffer} {sz : Nat} {r : Ret} {bs : Bytes} (h : b.tryget sz = .ok (r, bs, b')) :
    b.trygetWrites sz = .ok (List.range bs.length) := by
  unfold tryget at h
  unfold trygetWrites
  by_cases hinv : (!b.shmp || sz == 0) = true
  · rw [if_pos hinv] at h ⊢
    cases h
    rfl
  · rw [if_neg hinv] at h ⊢
    by_cases hg : b.look.seg.guard = true
    · rw [if_pos hg] at h ⊢
      exact takeMessage_writes h
    · rw [if_neg hg] at h ⊢
      cases h
      rfl

/-! ### A message of a peer -/

private theorem loopWrites_zero (n p : Nat) (b : ShmBuffer) : loopWrites n 0 p b = [] := by
  induction n generalizing p b with
  | zero => rfl
  | succ n ih =>
    rw [loopWrites, Nat.zero_min]
    split
    · rfl
    · split
      · rfl
      · exact ih _ _

/-- The loop writes what the chunks that are counted hold of the message; a chunk that does not come is written
nowhere. -/
private theorem loopWrites_stored (sz n p : Nat) {rest : Bytes} {b : ShmBuffer} {w : List (Option Fill)}
    (hw : Brings b.writer (putLoop sz (rest.drop shmSmallMsgSize)) w) :
    loopWrites n rest.length p b = List.range' p (min rest.length (n * shmSmallMsgSize)) := by
  induction n generalizing p rest b with
  | zero => rw [loopWrites, Nat.zero_mul, Nat.min_zero, List.range'_zero]
  | succ n ih =>
    have hc := shmSmallMsgSize_pos
    rw [loopWrites]
    by_cases hn : n = 0
    · rw [if_pos hn, List.append_nil, hn, Nat.zero_add, Nat.one_mul]
    · rw [if_neg hn]
      by_cases hrest : rest.drop shmSmallMsgSize = []
      · -- the last chunk is in the slot
        have hle : rest.length ≤ shmSmallMsgSize := List.drop_eq_nil_iff.1 hrest
        have hmul : shmSmallMsgSize ≤ (n + 1) * shmSmallMsgSize := Nat.le_mul_of_pos_left _ (Nat.succ_pos n)
        rw [Nat.min_eq_left hle, Nat.min_eq_left (Nat.le_trans hle hmul), Nat.sub_self]
        split
        · exact List.append_nil _
        · rw [loopWrites_zero, List.append_nil]
      · rw [putLoop, if_neg hrest] at hw
        obtain ⟨v, hawait, hv⟩ := await_brings (b := { b with seg := b.seg.release }) rfl hw
        have hlt : shmSmallMsgSize < rest.length := by
          rwa [List.drop_eq_nil_iff, Nat.not_le] at hrest
        have hlen : rest.length - min rest.length shmSmallMsgSize = (rest.drop shmSmallMsgSize).length := by
          rw [List.length_drop, Nat.min_eq_right (Nat.le_of_lt hlt)]
        rw [hawait]
        dsimp only
        have hsum : shmSmallMsgSize + min (rest.length - shmSmallMsgSize) (n * shmSmallMsgSize) =
            min rest.length (n * shmSmallMsgSize + shmSmallMsgSize) := by
          omega
        rw [hlen, ih _ hv, Nat.min_eq_right (Nat.le_of_lt hlt), List.range'_append_1, List.length_drop,
          Nat.succ_mul, hsum]

/-- The call finds the message: its first chunk is in the slot then. -/
private def Found (b : ShmBuffer) (data : Bytes) : Prop :=
  b.seg.size = data.length ∧ ∃ w, Brings b.writer (putLoop data.length (data.drop shmSmallMsgSize)) w

private theorem found_fill {b : ShmBuffer} {data : Bytes} {f : Fill} {fs : List Fill} {v w : List (Option Fill)}
    (hf : fills data = f :: fs) (hw : Brings v fs w) : Found { b with seg := b.seg.fill f, writer := v } data := by
  by_cases h0 : data = []
  · subst h0
    cases hf
    refine ⟨rfl, w, ?_⟩
    rw [List.drop_nil, putLoop, if_pos rfl]
    exact hw
  · rw [fills_eq h0, putLoop, if_neg h0] at hf
    obtain ⟨rfl, rfl⟩ := List.cons.inj hf
    exact ⟨rfl, w, hw⟩

private theorem fills_cons (data : Bytes) : ∃ f fs, fills data = f :: fs := by
  by_cases h0 : data = []
  · exact ⟨_, _, if_pos h0⟩
  · exact ⟨_, _, by rw [fills_eq h0, putLoop, if_neg h0]⟩

private theorem Stored.await {b : ShmBuffer} {data : Bytes} (hs : b.Stored data) :
    ∃ b', b.await = .ok b' ∧ b'.shmp = b.shmp ∧ b'.seg.guard = true ∧ Found b' data := by
  rcases hs with ⟨hg, w, hw⟩ | ⟨hg, hfound⟩
  · obtain ⟨f, fs, hf⟩ := fills_cons data
    rw [hf] at hw
    obtain ⟨v, hawait, hv⟩ := await_brings hg hw
    exact ⟨_, hawait, rfl, rfl, found_fill hf hv⟩
  · exact ⟨b, if_pos hg, rfl, hg, hfound⟩

private theorem Stored.look {b : ShmBuffer} {data : Bytes} (hs : b.Stored data) (hg : b.look.seg.guard = true) :
    b.look.shmp = b.shmp ∧ Found b.look data := by
  rcases hs with ⟨hempty, w, hw⟩ | ⟨hfull, hfound⟩
  · unfold ShmBuffer.look at hg ⊢
    rw [if_neg (by simp [hempty])] at hg ⊢
    rcases hl : b.writer with _ | ⟨_ | g, u⟩
    · rw [hl] at hg
      exact absurd (hempty.symm.trans hg) Bool.false_ne_true
    · rw [hl] at hg
      exact absurd (hempty.symm.trans hg) Bool.false_ne_true
    · obtain ⟨f, fs, hf⟩ := fills_cons data
      rw [hf, hl] at hw
      obtain ⟨rfl, hw⟩ := hw
      exact ⟨rfl, found_fill hf hw⟩
  · unfold ShmBuffer.look
    rw [if_pos hfull]
    exact ⟨rfl, hfound⟩

private theorem inside_range' (n cap : Nat) : Inside (.ok (List.range' 0 n)) cap ↔ n ≤ cap := by
  constructor
  · intro h
    by_contra hlt
    have := h cap (List.mem_range'_1.2 ⟨Nat.zero_le _, by omega⟩)
    exact Nat.lt_irrefl _ this
  · intro h i hi
    have := (List.mem_range'_1.1 hi).2
    omega

private theorem Found.inside {b : ShmBuffer} {data : Bytes} (hb : b.Found data) (cap : Nat) :
    Inside b.takeWrites cap ↔ Fits data.length cap := by
  obtain ⟨hsize, w, hw⟩ := hb
  unfold takeWrites
  rw [hsize]
  by_cases h0 : data.length = 0
  · rw [if_pos h0, h0]
    refine iff_of_true nofun ⟨?_, Nat.le_trans (Nat.min_le_left _ _) (Nat.zero_le _)⟩
    rw [significand_of_le (by decide) (Nat.zero_le _), ceilDiv_zero shmSmallMsgSize_pos]
    decide
  · rw [if_neg h0, nmsgs]
    by_cases hn : ceilDiv (significand 24 data.length) shmSmallMsgSize < 2 ^ 31
    · rw [if_pos hn, bind_ok, loopWrites_stored _ _ _ hw]
      exact (inside_range' _ _).trans (and_iff_right hn).symm
    · rw [if_neg hn]
      exact iff_of_false id fun h => hn h.1

/-- Below 2^24 bytes nothing is rounded. -/
theorem fits_iff {size cap : Nat} (h : cap < 2 ^ 24) : Fits size cap ↔ size ≤ cap := by
  have hc := shmSmallMsgSize_pos
  have hcount := (ceilDiv_le_iff (n := significand 24 size) hc).1 (Nat.le_refl _)
  constructor
  · rintro ⟨-, hmin⟩
    rcases Nat.lt_or_ge (2 ^ 24) size with hlt | hle
    · -- the leading digit of the size is no less
      have h0 : size ≠ 0 := by omega
      have hlog : 24 ≤ Nat.log2 size := (Nat.le_log2 h0).2 (Nat.le_of_lt hlt)
      have hpow := Nat.pow_le_pow_right (n := 2) (by decide) hlog
      have := le_significand (p := 24) (by decide) h0
      omega
    · rw [significand_of_le (by decide) hle] at hcount hmin
      omega
  · intro hle
    have hsig := significand_of_le (p := 24) (by decide) (show size ≤ 2 ^ 24 by omega)
    refine ⟨?_, Nat.le_trans (Nat.min_le_left _ _) hle⟩
    have hfour : ceilDiv size shmSmallMsgSize ≤ 4 := (ceilDiv_le_iff hc).2 (Nat.le_trans hle (Nat.le_of_lt h))
    rw [hsig]
    omega

/-! ### The callers -/

theorem getWrites_found {b : ShmBuffer} (hopen : b.shmp = true) (hg : b.seg.guard = true) {cap : Nat} (hcap : cap ≠ 0) :
    b.getWrites cap = b.takeWrites := by
  have hinv : ¬(!b.shmp || cap == 0) = true := by
    simp [hopen, hcap]
  rw [getWrites, if_neg hinv, ShmBuffer.await, if_pos hg]

/-- A `get` that returns has returned the size of the message. -/
private theorem Found.ret {b b' : ShmBuffer} {data bs : Bytes} {r : Ret} (hb : b.Found data)
    (h : b.takeMessage = .ok (r, bs, b')) : r = .ok data.length := by
  obtain ⟨hsize, -⟩ := hb
  unfold takeMessage at h
  by_cases h0 : b.seg.size = 0
  · rw [if_pos h0] at h
    cases h
    rw [← hsize, h0]
  · rw [if_neg h0] at h
    obtain ⟨n, -, h⟩ := bind_eq_ok.1 h
    obtain ⟨p, -, h⟩ := bind_eq_ok.1 h
    cases h
    rw [hsize]

private theorem Found.whole {b : ShmBuffer} {data : Bytes} (hb : b.Found data) (hlen : data.length = shmSmallMsgSize) :
    ∃ bs b', b.takeMessage = .ok (.ok shmSmallMsgSize, bs, b') := by
  obtain ⟨hsize, -⟩ := hb
  have hc := shmSmallMsgSize_pos
  have hn : nmsgs shmSmallMsgSize = .ok 1 := by
    rw [nmsgs, significand_of_le (by decide) (by decide), ceilDiv_of_le hc (Nat.le_refl _)]
    rfl
  unfold takeMessage
  rw [hsize, hlen, if_neg (Nat.ne_of_gt hc), hn]
  exact ⟨_, _, rfl⟩

private theorem Found.update {b : ShmBuffer} {data : Bytes} (hopen : b.shmp = true) (hg : b.look.seg.guard = true)
    (hopen' : b.look.shmp = true) (hb : b.look.Found data) :
    Inside b.updateWrites shmSmallMsgSize ↔ data.length < shmSmallMsgSize := by
  have hc : shmSmallMsgSize ≠ 0 := Nat.ne_of_gt shmSmallMsgSize_pos
  have hsize : b.trygetsize = (.ok b.look.seg.size, b.look) := by
    rw [trygetsize, hopen, if_neg (by decide), if_pos hg]
  have hget : b.look.get shmSmallMsgSize = b.look.takeMessage := by
    rw [ShmBuffer.get, hopen', if_neg (by decide), ShmBuffer.await, if_pos hg]
    rfl
  have hfits : Fits data.length shmSmallMsgSize ↔ data.length ≤ shmSmallMsgSize := fits_iff (by decide)
  have hwrites := hb.inside shmSmallMsgSize
  rw [hfits] at hwrites
  rw [updateWrites, hopen, if_neg (by decide), hsize]
  dsimp only
  rw [getWrites_found hopen' hg hc, hget]
  cases hl : b.look.takeWrites with
  | error e =>
    rw [hl] at hwrites
    have hnot : ¬data.length ≤ shmSmallMsgSize := fun h => hwrites.2 h
    exact iff_of_false id fun h => hnot (Nat.le_of_lt h)
  | ok l =>
    rw [hl] at hwrites
    rw [bind_ok]
    constructor
    · intro hin
      by_contra hlt
      have hle : data.length ≤ shmSmallMsgSize := by
        apply hwrites.1
        intro i hi
        split at hin
        · exact hin i (List.mem_append_left _ hi)
        · exact hin i hi
      -- the NUL goes to the position after the last
      obtain ⟨bs, b', ht⟩ := hb.whole (Nat.le_antisymm hle (Nat.le_of_not_lt hlt))
      rw [ht] at hin
      have := hin shmSmallMsgSize (List.mem_append_right _ (List.mem_singleton_self _))
      exact Nat.lt_irrefl _ this
    · intro hlt
      have hin := hwrites.2 (Nat.le_of_lt hlt)
      split
      · rename_i ht
        have hret := hb.ret ht
        intro i hi
        rcases List.mem_append.1 hi with hi | hi
        · exact hin i hi
        · cases hret
          rw [List.mem_singleton.1 hi]
          exact hlt
      · exact hin

end ShmBuffer

/-- The positions of `collective` that `connectionHandshake` writes to with its first `receive`. -/
def HandleSHM.handshakeWrites (h : HandleSHM) : Except Stop (List Nat) :=
  match h.probe 0 true with
  | .ok (.ok (_ + 1), _, h) => h.inBuf.getWrites sizeofInt
  | _ => .ok []

namespace ShmBuffer

private theorem Stored.getWrites {b : ShmBuffer} {data : Bytes} (hs : b.Stored data)
    (hopen : b.shmp = true) (cap : Nat) : Inside (b.getWrites cap) cap ↔ cap = 0 ∨ Fits data.length cap := by
  by_cases hcap : cap = 0
  · rw [ShmBuffer.getWrites, if_pos (by simp [hcap])]
    exact iff_of_true nofun (Or.inl hcap)
  · obtain ⟨b', hawait, -, -, hb⟩ := hs.await
    rw [ShmBuffer.getWrites, if_neg (by simp [hopen, hcap]), hawait, or_iff_right hcap]
    exact hb.inside cap

private theorem Stored.trygetWrites {b : ShmBuffer} {data : Bytes} (hs : b.Stored data) (hopen : b.shmp = true)
    (cap : Nat) : Inside (b.trygetWrites cap) cap ↔ cap = 0 ∨ b.look.seg.guard = false ∨ Fits data.length cap := by
  by_cases hcap : cap = 0
  · rw [ShmBuffer.trygetWrites, if_pos (by simp [hcap])]
    exact iff_of_true nofun (Or.inl hcap)
  · rw [ShmBuffer.trygetWrites, if_neg (by simp [hopen, hcap]), or_iff_right hcap]
    by_cases hg : b.look.seg.guard = true
    · rw [if_pos hg, or_iff_right (by simp [hg])]
      exact (hs.look hg).2.inside cap
    · rw [if_neg hg]
      exact iff_of_true nofun (Or.inl (Bool.eq_false_iff.2 hg))

private theorem Stored.handshakeWrites {h : HandleSHM} {data : Bytes} (hs : h.inBuf.Stored data)
    (hopen : h.inBuf.shmp = true) : Inside h.handshakeWrites sizeofInt ↔ data.length ≤ sizeofInt := by
  obtain ⟨b', hawait, hopen', hg', hb⟩ := hs.await
  have hprobe : h.probe 0 true = .ok (.ok sizeofSizeT, b'.seg.size, { h with inBuf := b' }) := by
    rw [HandleSHM.probe, if_pos rfl, getsize, hopen, if_neg (by decide), hawait]
    rfl
  rw [HandleSHM.handshakeWrites, hprobe]
  change Inside (b'.getWrites sizeofInt) sizeofInt ↔ _
  rw [getWrites_found (hopen'.trans hopen) hg' (by decide), hb.inside, fits_iff (by decide)]

private theorem Stored.updateWrites {b : ShmBuffer} {data : Bytes} (hs : b.Stored data) (hopen : b.shmp = true) :
    Inside b.updateWrites shmSmallMsgSize ↔ b.look.seg.guard = false ∨ data.length < shmSmallMsgSize := by
  by_cases hg : b.look.seg.guard = true
  · obtain ⟨hopen', hb⟩ := hs.look hg
    rw [or_iff_right (by simp [hg])]
    exact hb.update hopen hg (hopen'.trans hopen)
  · have hsize : b.trygetsize = (.error .EWOULDBLOCK, b.look) := by
      rw [trygetsize, hopen, if_neg (by decide), if_neg hg]
    rw [ShmBuffer.updateWrites, hopen, if_neg (by decide), hsize]
    exact iff_of_true nofun (Or.inl (Bool.eq_false_iff.2 hg))

/-- A message of a peer is written inside the buffer of `get` and `tryget` exactly when it, or what the chunks
that are counted hold of it, is no longer than the buffer (a buffer of no bytes is written to by neither).  For
the handshake it has to be of four bytes at most, and for `update`, which puts a NUL behind it, shorter than a
whole chunk. -/
theorem receives_inside_iff {b : ShmBuffer} {data : Bytes} (hopen : b.shmp = true) (hs : b.Stored data) :
    (∀ cap, Inside (b.getWrites cap) cap ↔ cap = 0 ∨ Fits data.length cap) ∧
    (∀ cap, Inside (b.trygetWrites cap) cap ↔ cap = 0 ∨ b.look.seg.guard = false ∨ Fits data.length cap) ∧
    (∀ cap, cap < 2 ^ 24 → (Fits data.length cap ↔ data.length ≤ cap)) ∧
    (∀ h : HandleSHM, h.inBuf = b → (Inside h.handshakeWrites sizeofInt ↔ data.length ≤ sizeofInt)) ∧
    (Inside b.updateWrites shmSmallMsgSize ↔ b.look.seg.guard = false ∨ data.length < shmSmallMsgSize) := by
  refine ⟨hs.getWrites hopen, hs.trygetWrites hopen, fun _ => fits_iff, ?_, hs.updateWrites hopen⟩
  rintro h rfl
  exact hs.handshakeWrites hopen

/-- A buffer whose slot holds a message of one chunk. -/
def holding (data : Bytes) : ShmBuffer := { seg := emptySegment.fill (Fill.next data.length data) }

theorem stored_holding {data : Bytes} (h : data.length ≤ shmSmallMsgSize) : (holding data).Stored data := by
  have hdrop : data.drop shmSmallMsgSize = [] := List.drop_eq_nil_iff.2 h
  refine Or.inr ⟨rfl, rfl, [], ?_⟩
  rw [hdrop, putLoop, if_pos rfl]
  rfl

theorem receives_inside_run :
    Inside ((holding [1, 0, 0, 0]).getWrites 4) 4 ∧ ¬Inside ((holding [1, 0, 0, 0]).getWrites 3) 3 := by
  obtain ⟨hget, -, hfits, -, -⟩ := @receives_inside_iff (holding [1, 0, 0, 0]) [1, 0, 0, 0] rfl
    (stored_holding (by decide))
  rw [hget, hget, hfits 4 (by decide), hfits 3 (by decide)]
  decide

/-- Five bytes go into the `int` of the handshake, and a whole chunk leaves no room for the NUL. -/
theorem receives_outside :
    ((holding [1, 2, 3, 4, 5]).Stored [1, 2, 3, 4, 5] ∧ ¬Inside ((holding [1, 2, 3, 4, 5]).getWrites 4) 4 ∧
      ¬Inside ((holding [1, 2, 3, 4, 5]).trygetWrites 4) 4 ∧
      ¬Inside (HandleSHM.handshakeWrites { inBuf := holding [1, 2, 3, 4, 5], out := { seg := emptySegment } }) 4) ∧
    (holding (List.replicate shmSmallMsgSize 7)).Stored (List.replicate shmSmallMsgSize 7) ∧
      ¬Inside (holding (List.replicate shmSmallMsgSize 7)).updateWrites shmSmallMsgSize := by
  have hfive : (holding [1, 2, 3, 4, 5]).Stored [1, 2, 3, 4, 5] := stored_holding (by decide)
  have hchunk : (holding (List.replicate shmSmallMsgSize 7)).Stored (List.replicate shmSmallMsgSize 7) :=
    stored_holding (Nat.le_of_eq List.length_replicate)
  have hfits : ¬Fits ([1, 2, 3, 4, 5] : Bytes).length 4 := by
    rw [fits_iff (by decide)]
    decide
  refine ⟨⟨hfive, ?_, ?_, ?_⟩, hchunk, ?_⟩
  · rw [hfive.getWrites rfl]
    exact not_or.2 ⟨by decide, hfits⟩
  · rw [hfive.trygetWrites rfl]
    exact not_or.2 ⟨by decide, not_or.2 ⟨nofun, hfits⟩⟩
  · intro hin
    have hle := (Stored.handshakeWrites (h := { inBuf := holding [1, 2, 3, 4, 5], out := { seg := emptySegment } })
      hfive rfl).1 hin
    exact absurd hle (by decide)
  · rw [hchunk.updateWrites rfl, List.length_replicate]
    exact not_or.2 ⟨nofun, Nat.lt_irrefl _⟩

end ShmBuffer

end Mtcl
