import Mtcl.Base.Runs
import Mtcl.ShmBuffer

/-!
# The protocol of the slot

One writer puts messages into a shared-memory buffer, and EOS behind them; one reader asks for the size of the
next message with `getsize` or `trygetsize` and then takes it with `get` or `tryget`.  Every step is one
critical section of a function of `shmBuffer`, from the lock of the spinlock to its unlock, or the beginning of
a call; the steps of the two sides follow each other in any order.  `written` and `taken` are the chunks that
have been put into the slot and taken out of it, and `log` is what the calls of the reader have returned.

What is still to be read is what is still to be written, with the chunk in the slot in front of it while the
guard is set (`SlotInv.queue`).  `shmSlot_fifo` draws the consequences: the calls return the messages in order
and whole, and the sizes are those of the next message.
-/

namespace Mtcl

open Rounding

/-- Where the reader is: between two calls, in the loop of `getsize`, behind a size that has been reported, in
the first loop of `get`, in the loop of `get` and `tryget` over the chunks of which `n + 1` are to come, or
where there is no going on. -/
inductive SlotReader
  | ready
  | sizing
  | sized (n : Nat)
  | getting (cap : Nat)
  | copying (n sz size : Nat) (got : Bytes)
  | stuck

/-- What a call of the reader returns. -/
inductive SlotOutput
  | size (n : Nat)
  | again
  | invalid
  | message (r : Nat) (bs : Bytes)

/-- The slot with its two sides; `putting` is the size and the rest of the message of the `put` under way. -/
structure SlotState where
  seg : ShmSegment
  todo : List Bytes
  putting : Option (Nat × Bytes) := none
  reader : SlotReader := .ready
  written : List Bytes := []
  taken : List Bytes := []
  log : List SlotOutput := []

namespace SlotState

/-- The critical section of `put` that finds the guard null. -/
def fill (s : SlotState) (sz : Nat) (rest : Bytes) : SlotState :=
  { s with
    seg := s.seg.fill (Fill.next sz rest)
    putting := if rest.drop shmSmallMsgSize = [] then none else some (sz, rest.drop shmSmallMsgSize)
    written := s.written ++ [(Fill.next sz rest).chunk] }

/-- A turn of the loop of `get` and `tryget` over the chunks, behind which `n` are left. -/
def copy (s : SlotState) (n sz size : Nat) (got : Bytes) : SlotState :=
  let k := min sz shmSmallMsgSize
  let chunk := s.seg.data.take k
  let s := { s with seg := s.seg.release, taken := s.taken ++ [chunk] }
  match n with
  | 0 => { s with reader := .ready, log := s.log ++ [.message size (got ++ chunk)] }
  | n + 1 => { s with reader := .copying n (sz - k) size (got ++ chunk) }

/-- The critical section in which `get` and `tryget` find the guard set. -/
def take (s : SlotState) : SlotState :=
  if s.seg.size = 0 then
    { s with
      seg := s.seg.release
      taken := s.taken ++ [[]]
      reader := .ready
      log := s.log ++ [.message 0 []] }
  else
    match nmsgs s.seg.size with
    | .ok (n + 1) => s.copy n s.seg.size s.seg.size []
    | _ => { s with reader := .stuck }

/-- `getsize` and `trygetsize` find the guard set. -/
def reportSize (s : SlotState) : SlotState :=
  { s with reader := .sized s.seg.size, log := s.log ++ [.size s.seg.size] }

end SlotState

inductive SlotSide
  | writer | reader

/-- The steps.  A critical section that finds the slot full, or empty, leaves its side where it is. -/
inductive SlotStep : SlotSide → SlotState → SlotState → Prop
  | put {s : SlotState} {m : Bytes} {ms : List Bytes} (hp : s.putting = none) (ht : s.todo = m :: ms) :
      SlotStep .writer s { s with todo := ms, putting := some (m.length, m) }
  | putFull {s : SlotState} {x : Nat × Bytes} (hp : s.putting = some x) (hg : s.seg.guard = true) : SlotStep .writer s s
  | putFill {s : SlotState} {sz : Nat} {rest : Bytes} (hp : s.putting = some (sz, rest)) (hg : s.seg.guard = false) :
      SlotStep .writer s (s.fill sz rest)
  | getsize {s : SlotState} (hr : s.reader = .ready) : SlotStep .reader s { s with reader := .sizing }
  | getsizeEmpty {s : SlotState} (hr : s.reader = .sizing) (hg : s.seg.guard = false) : SlotStep .reader s s
  | getsizeFull {s : SlotState} (hr : s.reader = .sizing) (hg : s.seg.guard = true) : SlotStep .reader s s.reportSize
  | trygetsizeEmpty {s : SlotState} (hr : s.reader = .ready) (hg : s.seg.guard = false) :
      SlotStep .reader s { s with log := s.log ++ [.again] }
  | trygetsizeFull {s : SlotState} (hr : s.reader = .ready) (hg : s.seg.guard = true) : SlotStep .reader s s.reportSize
  | getInvalid {s : SlotState} (hr : s.reader = .sized 0) :
      SlotStep .reader s { s with reader := .ready, log := s.log ++ [.invalid] }
  | get {s : SlotState} {n cap : Nat} (hr : s.reader = .sized n) (hn : n ≤ cap) (hcap : 0 < cap) :
      SlotStep .reader s { s with reader := .getting cap }
  | getEmpty {s : SlotState} {cap : Nat} (hr : s.reader = .getting cap) (hg : s.seg.guard = false) :
      SlotStep .reader s s
  | getFull {s : SlotState} {cap : Nat} (hr : s.reader = .getting cap) (hg : s.seg.guard = true) :
      SlotStep .reader s s.take
  | trygetEmpty {s : SlotState} {n cap : Nat} (hr : s.reader = .sized n) (hn : n ≤ cap) (hcap : 0 < cap)
      (hg : s.seg.guard = false) : SlotStep .reader s { s with reader := .ready, log := s.log ++ [.again] }
  | trygetFull {s : SlotState} {n cap : Nat} (hr : s.reader = .sized n) (hn : n ≤ cap) (hcap : 0 < cap)
      (hg : s.seg.guard = true) : SlotStep .reader s s.take
  | copyEmpty {s : SlotState} {n sz size : Nat} {got : Bytes} (hr : s.reader = .copying n sz size got)
      (hg : s.seg.guard = false) : SlotStep .reader s s
  | copyFull {s : SlotState} {n sz size : Nat} {got : Bytes} (hr : s.reader = .copying n sz size got)
      (hg : s.seg.guard = true) : SlotStep .reader s (s.copy n sz size got)

/-- The writer is about to put the messages and then EOS into an empty slot. -/
structure SlotStarts (msgs : List Bytes) (s : SlotState) : Prop where
  guard : s.seg.guard = false
  todo : s.todo = msgs ++ [[]]
  putting : s.putting = none
  reader : s.reader = .ready
  written : s.written = []
  taken : s.taken = []
  log : s.log = []

/-- The messages that have been returned, with the results. -/
def returnedMessages (log : List SlotOutput) : List (Nat × Bytes) :=
  log.filterMap fun
    | .message r bs => some (r, bs)
    | _ => none

@[simp] theorem returnedMessages_append (l l' : List SlotOutput) :
    returnedMessages (l ++ l') = returnedMessages l ++ returnedMessages l' := List.filterMap_append

/-! ### The sizes of the messages -/

/-- Up to `2 ^ 24` bytes the conversion to `float` is exact. -/
theorem nmsgs_exact {sz : Nat} (h : sz ≤ 2 ^ 24) : nmsgs sz = .ok (ceilDiv sz shmSmallMsgSize) := by
  have hexact : significand 24 sz = sz := significand_of_le (by decide) h
  have hfour : ceilDiv sz shmSmallMsgSize ≤ 4 := (ceilDiv_le_iff shmSmallMsgSize_pos).2 h
  unfold nmsgs
  rw [hexact]
  exact if_pos (by omega)

/-! ### The queue -/

namespace SlotState

/-- The chunks that are still to be put into the slot. -/
def toWrite (s : SlotState) : List Fill :=
  (match s.putting with
    | none => []
    | some (sz, rest) => if rest = [] then [Fill.next sz rest] else putLoop sz rest) ++
  s.todo.flatMap fills

end SlotState

/-- What is still to be read: the rest of the messages `unread`, of which the first may have been read in part. -/
inductive ToRead (s : SlotState) : List Bytes → List Fill → Prop
  | whole {unread : List Bytes} (hr : s.reader = .ready ∨ s.reader = .sizing ∨ ∃ cap, s.reader = .getting cap) :
      ToRead s unread (unread.flatMap fills)
  | sized {m : Bytes} {unread : List Bytes} (hr : s.reader = .sized m.length) (hg : s.seg.guard = true) :
      ToRead s (m :: unread) ((m :: unread).flatMap fills)
  | part {n : Nat} {got rest : Bytes} {unread : List Bytes}
      (hr : s.reader = .copying n rest.length (got ++ rest).length got)
      (hn : (putLoop (got ++ rest).length rest).length = n + 1) :
      ToRead s ((got ++ rest) :: unread) (putLoop (got ++ rest).length rest ++ unread.flatMap fills)

/-- The slot holds a chunk. -/
def ShmSegment.Holds (seg : ShmSegment) (f : Fill) : Prop := seg.size = f.size ∧ seg.data.take f.chunk.length = f.chunk

/-- Of the messages and EOS, `read` has been returned and `unread` has not, and what is to be read is what is to
be written, with the chunk in the slot in front of it. -/
structure SlotQueue (msgs : List Bytes) (s : SlotState) (read unread : List Bytes) (ahead : List Fill) : Prop where
  split : msgs ++ [[]] = read ++ unread
  returned : returnedMessages s.log = read.map fun m => (m.length, m)
  toRead : ToRead s unread ahead
  taken : s.taken ++ ahead.map Fill.chunk = ((msgs ++ [[]]).flatMap fills).map Fill.chunk
  slot : if s.seg.guard then ∃ f, ahead = f :: s.toWrite ∧ s.seg.Holds f else ahead = s.toWrite

/-- The invariant of the protocol. -/
structure SlotInv (msgs : List Bytes) (s : SlotState) : Prop where
  queue : ∃ read unread ahead, SlotQueue msgs s read unread ahead
  written : s.written ++ s.toWrite.map Fill.chunk = ((msgs ++ [[]]).flatMap fills).map Fill.chunk
  sizes : ∀ l n l', s.log = l ++ .size n :: l' →
    ∃ m, (returnedMessages l).map Prod.snd ++ [m] <+: msgs ++ [[]] ∧ n = m.length

/-! ### The chunks -/

private theorem fills_next (m : Bytes) : fills m = if m = [] then [Fill.next m.length m] else putLoop m.length m := by
  unfold fills
  by_cases hm : m = []
  · subst hm
    rfl
  · rw [if_neg hm, if_neg hm]

private theorem fills_cons (m : Bytes) : ∃ fs, fills m = Fill.next m.length m :: fs := by
  rw [fills_next]
  by_cases hm : m = []
  · rw [if_pos hm]
    exact ⟨[], rfl⟩
  · rw [if_neg hm, putLoop, if_neg hm]
    exact ⟨_, rfl⟩

private theorem holds_fill (seg : ShmSegment) (f : Fill) : (seg.fill f).Holds f := ⟨rfl, List.take_left' rfl⟩

/-- What `get` and `tryget` copy of the next chunk. -/
private theorem holds_chunk {seg : ShmSegment} {sz : Nat} {rest : Bytes} (h : seg.Holds (Fill.next sz rest)) :
    seg.data.take (min rest.length shmSmallMsgSize) = rest.take shmSmallMsgSize := by
  have hlen : (Fill.next sz rest).chunk.length = min rest.length shmSmallMsgSize := by
    change (rest.take shmSmallMsgSize).length = _
    rw [List.length_take, Nat.min_comm]
  rw [← hlen]
  exact h.2

section

variable {s : SlotState} {msgs : List Bytes}

private theorem toWrite_put {m : Bytes} {ms : List Bytes} (hp : s.putting = none) (ht : s.todo = m :: ms) :
    ({ s with todo := ms, putting := some (m.length, m) } : SlotState).toWrite = s.toWrite := by
  unfold SlotState.toWrite
  rw [hp, ht]
  dsimp only
  rw [List.flatMap_cons, ← fills_next]
  rfl

private theorem toWrite_fill {sz : Nat} {rest : Bytes} (hp : s.putting = some (sz, rest)) :
    s.toWrite = Fill.next sz rest :: (s.fill sz rest).toWrite := by
  unfold SlotState.toWrite SlotState.fill
  rw [hp]
  dsimp only
  by_cases hrest : rest = []
  · rw [if_pos hrest, hrest, List.drop_nil, if_pos rfl]
    rfl
  · rw [if_neg hrest, putLoop, if_neg hrest, List.cons_append]
    congr 2
    by_cases hd : rest.drop shmSmallMsgSize = []
    · rw [if_pos hd, hd, putLoop, if_pos rfl]
    · rw [if_neg hd]
      dsimp only
      rw [if_neg hd]

@[simp] private theorem toWrite_copy (n sz size : Nat) (got : Bytes) : (s.copy n sz size got).toWrite = s.toWrite := by
  cases n <;> rfl

private theorem SlotQueue.copy {read unread : List Bytes} {n : Nat} (got : Bytes) {rest : Bytes}
    (hsplit : msgs ++ [[]] = read ++ (got ++ rest) :: unread)
    (hreturned : returnedMessages s.log = read.map fun m => (m.length, m))
    (hn : (putLoop (got ++ rest).length rest).length = n + 1)
    (htaken : s.taken ++ (putLoop (got ++ rest).length rest ++ unread.flatMap fills).map Fill.chunk =
      ((msgs ++ [[]]).flatMap fills).map Fill.chunk)
    (hslot : ∃ f, putLoop (got ++ rest).length rest ++ unread.flatMap fills = f :: s.toWrite ∧ s.seg.Holds f) :
    ∃ read unread ahead, SlotQueue msgs (s.copy n rest.length (got ++ rest).length got) read unread ahead := by
  obtain ⟨f, hq, hf⟩ := hslot
  have hrest : rest ≠ [] := by
    rintro rfl
    rw [putLoop, if_pos rfl] at hn
    cases hn
  generalize hm : (got ++ rest).length = size at hn htaken hq ⊢
  rw [putLoop, if_neg hrest] at hn htaken hq
  obtain ⟨hfill, hq'⟩ := List.cons.inj hq
  subst hfill
  -- what is copied
  have hchunk := holds_chunk hf
  have htaken' : (s.taken ++ [rest.take shmSmallMsgSize]) ++ (putLoop size (rest.drop shmSmallMsgSize) ++
      unread.flatMap fills).map Fill.chunk = ((msgs ++ [[]]).flatMap fills).map Fill.chunk := by
    rw [List.append_assoc]
    exact htaken
  rw [List.length_cons] at hn
  cases n with
  | zero =>
    -- the last chunk
    have hnil : putLoop size (rest.drop shmSmallMsgSize) = [] := List.length_eq_zero_iff.1 (Nat.succ.inj hn)
    have hd : rest.drop shmSmallMsgSize = [] := by
      by_contra hd
      rw [putLoop, if_neg hd] at hnil
      cases hnil
    have hall : rest.take shmSmallMsgSize = rest := List.take_of_length_le (List.drop_eq_nil_iff.1 hd)
    rw [hnil, List.nil_append] at htaken'
    rw [hnil] at hq'
    refine ⟨read ++ [got ++ rest], unread, unread.flatMap fills, ⟨?_, ?_, .whole (Or.inl rfl), ?_, hq'⟩⟩
    · rw [hsplit, List.append_assoc]
      rfl
    · unfold SlotState.copy
      dsimp only
      rw [returnedMessages_append, hreturned, hchunk, hall, List.map_append, ← hm]
      rfl
    · unfold SlotState.copy
      dsimp only
      rw [hchunk]
      exact htaken'
  | succ n =>
    have hsplit' : got ++ rest.take shmSmallMsgSize ++ rest.drop shmSmallMsgSize = got ++ rest := by
      rw [List.append_assoc, List.take_append_drop]
    have hlen : (rest.drop shmSmallMsgSize).length = rest.length - min rest.length shmSmallMsgSize := by
      rw [List.length_drop]
      omega
    refine ⟨read, (got ++ rest.take shmSmallMsgSize ++ rest.drop shmSmallMsgSize) :: unread,
      putLoop (got ++ rest.take shmSmallMsgSize ++ rest.drop shmSmallMsgSize).length (rest.drop shmSmallMsgSize) ++
        unread.flatMap fills, ⟨?_, hreturned, .part (n := n) ?_ ?_, ?_, ?_⟩⟩
    · rw [hsplit', hsplit]
    · unfold SlotState.copy
      dsimp only
      rw [hchunk, hlen, hsplit', hm]
    · rw [hsplit', hm]
      exact Nat.succ.inj hn
    · rw [hsplit', hm]
      unfold SlotState.copy
      dsimp only
      rw [hchunk]
      exact htaken'
    · rw [hsplit', hm]
      exact hq'

/-- `get` and `tryget` find the first chunk of a message in the slot. -/
private theorem SlotQueue.take {read unread : List Bytes} (hsizes : ∀ m ∈ msgs, m.length ≤ 2 ^ 24)
    (hq : SlotQueue msgs s read unread (unread.flatMap fills)) (hg : s.seg.guard = true) :
    ∃ read unread ahead, SlotQueue msgs s.take read unread ahead := by
  obtain ⟨hsplit, hreturned, -, htaken, hslot⟩ := hq
  rw [if_pos hg] at hslot
  obtain ⟨f, hf, hsize, hdata⟩ := hslot
  cases unread with
  | nil => cases hf
  | cons m unread =>
    obtain ⟨fs, hfs⟩ := fills_cons m
    have hfm : f = Fill.next m.length m := by
      rw [List.flatMap_cons, hfs] at hf
      exact (List.cons.inj hf).1.symm
    have hlen : s.seg.size = m.length := by rw [hsize, hfm]; rfl
    unfold SlotState.take
    by_cases hm : m = []
    · -- EOS
      subst hm
      rw [if_pos (show s.seg.size = 0 from hlen)]
      have hnil : fills [] = [f] := by rw [hfm, fills_next]; rfl
      rw [List.flatMap_cons, hnil] at hf htaken
      refine ⟨read ++ [[]], unread, unread.flatMap fills, ⟨?_, ?_, .whole (Or.inl rfl), ?_, (List.cons.inj hf).2⟩⟩
      · rw [hsplit, List.append_assoc]
        rfl
      · rw [returnedMessages_append, hreturned, List.map_append]
        rfl
      · have hchunk : f.chunk = [] := by
          rw [hfm]
          exact List.take_nil
        rw [List.append_assoc, ← htaken, ← hchunk]
        rfl
    · have hpos := List.length_pos_iff.2 hm
      have hmem : m ∈ msgs := by
        have : m ∈ msgs ++ [[]] := by
          rw [hsplit]
          exact List.mem_append_right _ (List.mem_cons_self ..)
        rcases List.mem_append.1 this with h | h
        · exact h
        · exact absurd (List.mem_singleton.1 h) hm
      have hloop : fills m = putLoop m.length m := by rw [fills_next, if_neg hm]
      obtain ⟨n, hn⟩ : ∃ n, ceilDiv m.length shmSmallMsgSize = n + 1 :=
        Nat.exists_eq_succ_of_ne_zero (Nat.ne_of_gt (ceilDiv_pos shmSmallMsgSize_pos hpos))
      rw [if_neg (by omega), hlen, nmsgs_exact (hsizes m hmem), hn]
      rw [List.flatMap_cons, hloop] at hf htaken
      exact SlotQueue.copy [] hsplit hreturned ((length_putLoop ..).trans hn) htaken ⟨f, hf, hsize, hdata⟩

private theorem SlotQueue.next {read unread : List Bytes} (hq : SlotQueue msgs s read unread (unread.flatMap fills))
    (hg : s.seg.guard = true) :
    ∃ m ms, unread = m :: ms ∧ s.seg.size = m.length ∧
      (returnedMessages s.log).map Prod.snd ++ [m] <+: msgs ++ [[]] := by
  obtain ⟨hsplit, hreturned, -, -, hslot⟩ := hq
  rw [if_pos hg] at hslot
  obtain ⟨f, hf, hsize, -⟩ := hslot
  cases unread with
  | nil => cases hf
  | cons m unread =>
    obtain ⟨fs, hfs⟩ := fills_cons m
    rw [List.flatMap_cons, hfs] at hf
    refine ⟨m, unread, rfl, ?_, ?_⟩
    · rw [hsize, ← (List.cons.inj hf).1]
      rfl
    · have hid : (read.map fun m => (m.length, m)).map Prod.snd = read := by
        rw [List.map_map]
        exact List.map_id read
      rw [hreturned, hid, hsplit]
      exact (List.prefix_append_right_inj _).2 (List.prefix_append [m] unread)

/-- Between two messages the rest of the messages is to be read. -/
private theorem ToRead.between {unread : List Bytes} {ahead : List Fill} (h : ToRead s unread ahead)
    (hr : ∀ n sz size got, s.reader ≠ .copying n sz size got) : ahead = unread.flatMap fills := by
  cases h with
  | whole _ => rfl
  | sized _ _ => rfl
  | part hc _ => exact absurd hc (hr _ _ _ _)

private theorem sizes_append {log : List SlotOutput} {o : SlotOutput} (ho : ∀ n, o ≠ .size n)
    (h : ∀ l n l', log = l ++ .size n :: l' → ∃ m, (returnedMessages l).map Prod.snd ++ [m] <+: msgs ++ [[]] ∧
      n = m.length) :
    ∀ l n l', log ++ [o] = l ++ .size n :: l' →
      ∃ m, (returnedMessages l).map Prod.snd ++ [m] <+: msgs ++ [[]] ∧ n = m.length := by
  intro l n l' he
  rcases List.eq_nil_or_concat l' with rfl | ⟨l', x, rfl⟩
  · exact absurd (List.singleton_inj.1 (List.append_inj' he rfl).2) (ho n)
  · rw [List.concat_eq_append, ← List.cons_append, ← List.append_assoc] at he
    exact h l n l' (List.append_inj' he rfl).1

private theorem SlotQueue.congr {read unread : List Bytes} {ahead : List Fill} {s' : SlotState}
    (hq : SlotQueue msgs s read unread ahead) (hlog : returnedMessages s'.log = returnedMessages s.log)
    (hto : ToRead s' unread ahead) (htaken : s'.taken = s.taken) (hseg : s'.seg = s.seg)
    (hwrite : s'.toWrite = s.toWrite) : SlotQueue msgs s' read unread ahead := by
  refine ⟨hq.split, hlog.trans hq.returned, hto, ?_, ?_⟩
  · rw [htaken]
    exact hq.taken
  · rw [hseg, hwrite]
    exact hq.slot

private theorem ToRead.writer {unread : List Bytes} {ahead : List Fill} {s' : SlotState} (h : ToRead s unread ahead)
    (hr : s'.reader = s.reader) (hg : s.seg.guard = true → s'.seg.guard = true) : ToRead s' unread ahead := by
  cases h with
  | whole h => exact .whole (hr ▸ h)
  | sized h hguard => exact .sized (hr.trans h) (hg hguard)
  | part h hn => exact .part (hr.trans h) hn

private theorem SlotInv.reportSize (hi : SlotInv msgs s) (hr : ∀ n sz size got, s.reader ≠ .copying n sz size got)
    (hg : s.seg.guard = true) : SlotInv msgs s.reportSize := by
  obtain ⟨⟨read, unread, ahead, hq⟩, hwritten, hsizes⟩ := hi
  obtain rfl := hq.toRead.between hr
  obtain ⟨m, ms, rfl, hsize, hnext⟩ := hq.next hg
  have hlog : returnedMessages s.reportSize.log = returnedMessages s.log := by
    unfold SlotState.reportSize
    rw [returnedMessages_append]
    exact List.append_nil _
  refine ⟨⟨read, _, _, hq.congr hlog (.sized ?_ hg) rfl rfl rfl⟩, hwritten, fun l n l' he => ?_⟩
  · unfold SlotState.reportSize
    rw [hsize]
  · rcases List.eq_nil_or_concat l' with rfl | ⟨l', x, rfl⟩
    · obtain ⟨rfl, hn⟩ := List.append_inj' he rfl
      have hn := List.singleton_inj.1 hn
      cases hn
      exact ⟨m, hnext, hsize⟩
    · rw [List.concat_eq_append, ← List.cons_append, ← List.append_assoc] at he
      exact hsizes l n l' (List.append_inj' he rfl).1

/-- A call of the reader that brings nothing leaves it between two messages. -/
private theorem SlotInv.giveUp {o : SlotOutput} (ho : o = .again ∨ o = .invalid) (hi : SlotInv msgs s)
    (hr : ∀ n sz size got, s.reader ≠ .copying n sz size got) :
    SlotInv msgs { s with reader := .ready, log := s.log ++ [o] } := by
  obtain ⟨⟨read, unread, ahead, hq⟩, hwritten, hsizes⟩ := hi
  obtain rfl := hq.toRead.between hr
  have hlog : returnedMessages (s.log ++ [o]) = returnedMessages s.log := by
    rw [returnedMessages_append]
    rcases ho with rfl | rfl <;> exact List.append_nil _
  have hnosize : ∀ n, o ≠ .size n := by
    rcases ho with rfl | rfl <;> exact nofun
  exact ⟨⟨read, unread, _, hq.congr hlog (.whole (Or.inl rfl)) rfl rfl rfl⟩, hwritten, sizes_append hnosize hsizes⟩

private theorem SlotInv.take (hm : ∀ m ∈ msgs, m.length ≤ 2 ^ 24) (hi : SlotInv msgs s)
    (hr : ∀ n sz size got, s.reader ≠ .copying n sz size got) (hg : s.seg.guard = true) : SlotInv msgs s.take := by
  obtain ⟨⟨read, unread, ahead, hq⟩, hwritten, hsizes⟩ := hi
  obtain rfl := hq.toRead.between hr
  refine ⟨hq.take hm hg, ?_, ?_⟩
  · unfold SlotState.take
    split
    · exact hwritten
    · split
      · rw [toWrite_copy]
        rename_i n _
        cases n <;> exact hwritten
      · exact hwritten
  · unfold SlotState.take
    split
    · exact sizes_append nofun hsizes
    · split
      · rename_i n _
        cases n with
        | zero => exact sizes_append nofun hsizes
        | succ n => exact hsizes
      · exact hsizes

theorem SlotInv.start (h : SlotStarts msgs s) : SlotInv msgs s := by
  have hwrite : s.toWrite = (msgs ++ [[]]).flatMap fills := by
    unfold SlotState.toWrite
    rw [h.putting, h.todo]
    rfl
  refine ⟨⟨[], msgs ++ [[]], (msgs ++ [[]]).flatMap fills, ⟨rfl, ?_, .whole (Or.inl h.reader), ?_, ?_⟩⟩, ?_,
    fun l n l' he => ?_⟩
  · rw [h.log]
    rfl
  · rw [h.taken]
    rfl
  · rw [h.guard, hwrite]
    rfl
  · rw [h.written, hwrite]
    rfl
  · rw [h.log] at he
    exact absurd he.symm (List.append_ne_nil_of_right_ne_nil _ (List.cons_ne_nil _ _))

/-- Every step keeps the invariant. -/
theorem SlotInv.step (hm : ∀ m ∈ msgs, m.length ≤ 2 ^ 24) {side : SlotSide} {s' : SlotState} (hi : SlotInv msgs s)
    (h : SlotStep side s s') : SlotInv msgs s' := by
  cases h with
  | put hp ht =>
    obtain ⟨⟨read, unread, ahead, hq⟩, hwritten, hsizes⟩ := hi
    have hwrite := toWrite_put hp ht
    refine ⟨⟨read, unread, ahead, hq.congr rfl (hq.toRead.writer rfl fun h => h) rfl rfl hwrite⟩, ?_, hsizes⟩
    rw [hwrite]
    exact hwritten
  | putFull hp hg => exact hi
  | putFill hp hg =>
    obtain ⟨⟨read, unread, ahead, hq⟩, hwritten, hsizes⟩ := hi
    have hwrite := toWrite_fill hp
    have hslot := hq.slot
    rw [hg, if_neg Bool.false_ne_true, hwrite] at hslot
    refine ⟨⟨read, unread, ahead, ⟨hq.split, hq.returned, hq.toRead.writer rfl fun _ => rfl, hq.taken, ?_⟩⟩, ?_, hsizes⟩
    · exact ⟨_, hslot, holds_fill ..⟩
    · rw [hwrite] at hwritten
      change (s.written ++ [_]) ++ _ = _
      rw [List.append_assoc]
      exact hwritten
  | getsize hr =>
    obtain ⟨⟨read, unread, ahead, hq⟩, hwritten, hsizes⟩ := hi
    obtain rfl := hq.toRead.between fun _ _ _ _ => by rw [hr]; exact nofun
    exact ⟨⟨read, unread, _, hq.congr rfl (.whole (Or.inr (Or.inl rfl))) rfl rfl rfl⟩, hwritten, hsizes⟩
  | getsizeEmpty hr hg => exact hi
  | getsizeFull hr hg => exact hi.reportSize (fun _ _ _ _ => by rw [hr]; exact nofun) hg
  | trygetsizeEmpty hr hg =>
    have hagain := hi.giveUp (Or.inl rfl) (fun _ _ _ _ => by rw [hr]; exact nofun)
    rwa [← hr] at hagain
  | trygetsizeFull hr hg => exact hi.reportSize (fun _ _ _ _ => by rw [hr]; exact nofun) hg
  | getInvalid hr =>
    exact hi.giveUp (Or.inr rfl) (fun _ _ _ _ => by rw [hr]; exact nofun)
  | get hr hn hcap =>
    obtain ⟨⟨read, unread, ahead, hq⟩, hwritten, hsizes⟩ := hi
    obtain rfl := hq.toRead.between fun _ _ _ _ => by rw [hr]; exact nofun
    exact ⟨⟨read, unread, _, hq.congr rfl (.whole (Or.inr (Or.inr ⟨_, rfl⟩))) rfl rfl rfl⟩, hwritten, hsizes⟩
  | getEmpty hr hg => exact hi
  | getFull hr hg => exact hi.take hm (fun _ _ _ _ => by rw [hr]; exact nofun) hg
  | trygetEmpty hr hn hcap hg =>
    exact hi.giveUp (Or.inl rfl) (fun _ _ _ _ => by rw [hr]; exact nofun)
  | trygetFull hr hn hcap hg => exact hi.take hm (fun _ _ _ _ => by rw [hr]; exact nofun) hg
  | copyEmpty hr hg => exact hi
  | copyFull hr hg =>
    rename_i n sz size got
    obtain ⟨⟨read, unread, ahead, hq⟩, hwritten, hsizes⟩ := hi
    have hslot := hq.slot
    rw [if_pos hg] at hslot
    have hpart : ∃ rest ms, unread = (got ++ rest) :: ms ∧ sz = rest.length ∧ size = (got ++ rest).length ∧
        (putLoop (got ++ rest).length rest).length = n + 1 ∧
        ahead = putLoop (got ++ rest).length rest ++ ms.flatMap fills := by
      cases hq.toRead with
      | whole h =>
        rw [hr] at h
        rcases h with h | h | ⟨_, h⟩ <;> cases h
      | sized h _ =>
        rw [hr] at h
        cases h
      | part h hn =>
        rw [hr] at h
        cases h
        exact ⟨_, _, rfl, rfl, rfl, hn, rfl⟩
    obtain ⟨rest, ms, rfl, rfl, rfl, hn, rfl⟩ := hpart
    refine ⟨SlotQueue.copy _ hq.split hq.returned hn hq.taken hslot, ?_, ?_⟩
    · rw [toWrite_copy]
      cases n <;> exact hwritten
    · cases n with
      | zero => exact sizes_append nofun hsizes
      | succ n => exact hsizes

end

/-! ### Progress -/

private theorem take_reader (s : SlotState) (cap : Nat) : s.take.reader ≠ .getting cap := by
  unfold SlotState.take
  split
  · exact nofun
  · split
    · rename_i n _
      cases n <;> exact nofun
    · exact nofun

private theorem copy_taken (s : SlotState) (n sz size : Nat) (got : Bytes) :
    (s.copy n sz size got).taken ≠ s.taken := by
  cases n <;> exact fun h => absurd (congrArg List.length h) (by simp [SlotState.copy])

/-- As long as something is unread, one of the two sides gets on. -/
private theorem SlotInv.progress {msgs : List Bytes} {s : SlotState} (hi : SlotInv msgs s)
    (hleft : returnedMessages s.log ≠ (msgs ++ [[]]).map fun m : Bytes => (m.length, m)) :
    ∃ side s', SlotStep side s s' ∧ s' ≠ s := by
  obtain ⟨⟨read, unread, ahead, hq⟩, -, -⟩ := hi
  have hunread : unread ≠ [] := by
    rintro rfl
    refine hleft ?_
    rw [hq.returned, hq.split, List.append_nil]
  have hahead : ahead ≠ [] := by
    cases hq.toRead with
    | whole _ =>
      obtain ⟨m, ms, rfl⟩ := List.exists_cons_of_ne_nil hunread
      obtain ⟨fs, hfs⟩ := fills_cons m
      rw [List.flatMap_cons, hfs]
      exact nofun
    | sized _ _ =>
      rename_i m _ _ _
      obtain ⟨fs, hfs⟩ := fills_cons m
      rw [List.flatMap_cons, hfs]
      exact nofun
    | part _ hn =>
      refine List.append_ne_nil_of_left_ne_nil (fun h => ?_) _
      rw [h] at hn
      cases hn
  cases hg : s.seg.guard with
  | false =>
    -- the writer gets on
    have hslot := hq.slot
    rw [hg, if_neg Bool.false_ne_true] at hslot
    cases hp : s.putting with
    | some x => exact ⟨.writer, _, .putFill hp hg, fun h => by
        rw [← h] at hg
        cases hg⟩
    | none =>
      cases ht : s.todo with
      | nil =>
        refine absurd ?_ hahead
        rw [hslot, SlotState.toWrite, hp, ht]
        rfl
      | cons m ms => exact ⟨.writer, _, .put hp ht, fun h => by
          rw [← h] at hp
          cases hp⟩
  | true =>
    -- the reader gets on
    cases hq.toRead with
    | whole hr =>
      rcases hr with hr | hr | ⟨cap, hr⟩
      · exact ⟨.reader, _, .getsize hr, fun h => by
          rw [← h] at hr
          cases hr⟩
      · exact ⟨.reader, _, .getsizeFull hr hg, fun h => by
          rw [← h] at hr
          cases hr⟩
      · exact ⟨.reader, _, .getFull hr hg, fun h => take_reader s cap ((congrArg SlotState.reader h).trans hr)⟩
    | sized hr _ => exact ⟨.reader, _, .get hr (Nat.le_succ _) (Nat.succ_pos _), fun h => by
        rw [← h] at hr
        cases hr⟩
    | part hr _ => exact ⟨.reader, _, .copyFull hr hg, fun h => copy_taken s _ _ _ _ (congrArg SlotState.taken h)⟩

/-! ### The theorem -/

private theorem eq_of_prefix_concat {α : Type} {p l : List α} {x : α} (h : p ++ [x] <+: l ++ [x])
    (hx : x ∉ l) : p = l := by
  rcases List.prefix_concat_iff.1 h with h | h
  · exact (List.append_inj' h rfl).1
  · exact absurd (h.subset (List.mem_append_right _ (List.mem_singleton_self x))) hx

/-- The slot is a FIFO.  At all times of every run: the calls of `get` and `tryget` have returned the first of
the messages, whole and with their sizes; every size that has been reported is that of the message that is
returned next; the end has been seen only behind all the messages; every chunk has been taken out of the slot
once before the next one was put into it, and the chunks are those of the messages; and the two sides never come
to a standstill while something is unread. -/
theorem shmSlot_fifo {msgs : List Bytes} (hm : ∀ m ∈ msgs, m ≠ [] ∧ m.length ≤ 2 ^ 24) {s : SlotState}
    (hs : Runs.Reach (SlotStarts msgs) SlotStep s) :
    (∃ read, read <+: msgs ++ [[]] ∧ returnedMessages s.log = read.map fun m => (m.length, m)) ∧
    (∀ l n l', s.log = l ++ .size n :: l' →
      ∃ m, (returnedMessages l).map Prod.snd ++ [m] <+: msgs ++ [[]] ∧ n = m.length) ∧
    (∀ l l', s.log = l ++ .size 0 :: l' ∨ (∃ bs, s.log = l ++ .message 0 bs :: l') →
      (returnedMessages l).map Prod.snd = msgs) ∧
    (s.written <+: ((msgs ++ [[]]).flatMap fills).map Fill.chunk ∧
      if s.seg.guard then ∃ c, s.written = s.taken ++ [c] ∧ s.seg.data.take c.length = c else s.written = s.taken) ∧
    s.reader ≠ .stuck ∧
    (returnedMessages s.log ≠ (msgs ++ [[]]).map (fun m : Bytes => (m.length, m)) → ∃ side s',
      SlotStep side s s' ∧ s' ≠ s) := by
  have hi : SlotInv msgs s := hs.invariant (SlotInv msgs) (fun _ h => .start h) fun _ _ _ hi h =>
    hi.step (fun m hmem => (hm m hmem).2) h
  obtain ⟨read, unread, ahead, hq⟩ := hi.queue
  have hnil : [] ∉ msgs := fun h => (hm [] h).1 rfl
  have hread : read <+: msgs ++ [[]] := by
    rw [hq.split]
    exact List.prefix_append ..
  refine ⟨⟨read, hread, hq.returned⟩, hi.sizes, fun l l' hl => ?_, ⟨?_, ?_⟩, fun h => ?_, hi.progress⟩
  · -- the end
    have hend : ∃ m : Bytes, (returnedMessages l).map Prod.snd ++ [m] <+: msgs ++ [[]] ∧ m = [] := by
      rcases hl with hl | ⟨bs, hl⟩
      · obtain ⟨m, hpre, hlen⟩ := hi.sizes l 0 l' hl
        exact ⟨m, hpre, List.length_eq_zero_iff.1 hlen.symm⟩
      · have hret := hq.returned
        rw [hl, returnedMessages_append] at hret
        change returnedMessages l ++ (0, bs) :: returnedMessages l' = _ at hret
        have hsnd := congrArg (List.map Prod.snd) hret
        have hmem : ((0, bs) : Nat × Bytes) ∈ read.map fun m => (m.length, m) := by
          rw [← hret]
          exact List.mem_append_right _ (List.mem_cons_self ..)
        obtain ⟨m, -, hx⟩ := List.mem_map.1 hmem
        obtain ⟨hlen, rfl⟩ := Prod.mk.inj hx
        rw [List.map_append, List.map_map, List.map_cons] at hsnd
        have hid : read.map (Prod.snd ∘ fun m : Bytes => (m.length, m)) = read := List.map_id read
        rw [hid] at hsnd
        refine ⟨m, List.IsPrefix.trans ?_ hread, List.length_eq_zero_iff.1 hlen⟩
        rw [← hsnd]
        exact (List.prefix_append_right_inj _).2 (List.prefix_append [m] _)
    obtain ⟨m, hpre, rfl⟩ := hend
    exact eq_of_prefix_concat hpre hnil
  · rw [← hi.written]
    exact List.prefix_append ..
  · have hslot := hq.slot
    have hall := hi.written.trans hq.taken.symm
    cases hg : s.seg.guard with
    | true =>
      rw [hg, if_pos rfl] at hslot
      obtain ⟨f, rfl, -, hdata⟩ := hslot
      refine ⟨f.chunk, ?_, hdata⟩
      rw [List.map_cons] at hall
      change _ = s.taken ++ ([f.chunk] ++ _) at hall
      rw [← List.append_assoc] at hall
      exact List.append_cancel_right hall
    | false =>
      rw [hg, if_neg Bool.false_ne_true] at hslot
      rw [hslot] at hall
      exact List.append_cancel_right hall
  · have hto := hq.toRead
    cases hto with
    | whole hr =>
      rw [h] at hr
      rcases hr with hr | hr | ⟨_, hr⟩ <;> cases hr
    | sized hr _ =>
      rw [h] at hr
      cases hr
    | part hr _ =>
      rw [h] at hr
      cases hr

/-! ### Messages that are read one after the other -/

/-- Nothing is under way, and these messages are still to be put into the slot. -/
private structure Pause (todo : List Bytes) (s : SlotState) : Prop where
  guard : s.seg.guard = false
  putting : s.putting = none
  reader : s.reader = .ready
  todo : s.todo = todo

/-- The chunk has been put into the slot. -/
private structure Filled (sz : Nat) (rest : Bytes) (s : SlotState) : Prop where
  holds : s.seg.Holds (Fill.next sz rest)
  guard : s.seg.guard = true
  putting : s.putting = if rest.drop shmSmallMsgSize = [] then none else some (sz, rest.drop shmSmallMsgSize)

private theorem filled_fill (s : SlotState) (sz : Nat) (rest : Bytes) : Filled sz rest (s.fill sz rest) :=
  ⟨holds_fill _ _, rfl, rfl⟩

section

variable {start : SlotState → Prop} {s : SlotState}

/-- The reader takes the chunk, and then those that the writer still has. -/
private theorem reads_rest {sz n : Nat} {rest got : Bytes} (hrest : rest ≠ [])
    (hn : ceilDiv rest.length shmSmallMsgSize = n + 1) (hs : Filled sz rest s)
    (h : Runs.Reach start SlotStep (s.copy n rest.length sz got)) :
    ∃ s', Runs.Reach start SlotStep s' ∧ Pause s.todo s' ∧ s'.log = s.log ++ [.message sz (got ++ rest)] := by
  induction n generalizing s rest got with
  | zero =>
    have hone : rest.length ≤ 1 * shmSmallMsgSize := (ceilDiv_le_iff shmSmallMsgSize_pos).1 (Nat.le_of_eq hn)
    rw [Nat.one_mul] at hone
    have hchunk := holds_chunk hs.holds
    rw [List.take_of_length_le hone] at hchunk
    refine ⟨_, h, ⟨rfl, ?_, rfl, rfl⟩, ?_⟩
    · have hput := hs.putting
      rwa [if_pos (List.drop_eq_nil_iff.2 hone)] at hput
    · unfold SlotState.copy
      dsimp only
      rw [hchunk]
  | succ n ih =>
    have hlong : shmSmallMsgSize < rest.length := by
      by_contra hle
      have : ceilDiv rest.length shmSmallMsgSize ≤ 1 := (ceilDiv_le_iff shmSmallMsgSize_pos).2 (by omega)
      omega
    have hdrop : rest.drop shmSmallMsgSize ≠ [] := mt List.drop_eq_nil_iff.1 (Nat.not_le.2 hlong)
    have hlen : rest.length - min rest.length shmSmallMsgSize = (rest.drop shmSmallMsgSize).length := by
      rw [List.length_drop, Nat.min_eq_right (Nat.le_of_lt hlong)]
    have hput : (s.copy (n + 1) rest.length sz got).putting = some (sz, rest.drop shmSmallMsgSize) :=
      hs.putting.trans (if_neg hdrop)
    have hreader : (s.copy (n + 1) rest.length sz got).reader =
        .copying n (rest.drop shmSmallMsgSize).length sz (got ++ rest.take shmSmallMsgSize) := by
      unfold SlotState.copy
      dsimp only
      rw [holds_chunk hs.holds, hlen]
    have hnext : ceilDiv (rest.drop shmSmallMsgSize).length shmSmallMsgSize = n + 1 := by
      rw [List.length_drop]
      have := ceilDiv_sub shmSmallMsgSize_pos hlong
      omega
    have hfill := h.next SlotSide.writer (SlotStep.putFill hput rfl)
    have hcopy := hfill.next SlotSide.reader (SlotStep.copyFull hreader rfl)
    obtain ⟨s', hreach, hpause, hlog⟩ := ih hdrop hnext (filled_fill ..) hcopy
    refine ⟨s', hreach, hpause, hlog.trans ?_⟩
    rw [List.append_assoc, List.take_append_drop]
    rfl

/-- The reader takes the message whose first chunk is in the slot. -/
private theorem reads_taken {m : Bytes} (hm : m.length ≤ 2 ^ 24) (hs : Filled m.length m s)
    (h : Runs.Reach start SlotStep s.take) : ∃ s', Runs.Reach start SlotStep s' ∧ Pause s.todo s' ∧
      returnedMessages s'.log = returnedMessages s.log ++ [(m.length, m)] := by
  have hsize : s.seg.size = m.length := hs.holds.1
  unfold SlotState.take at h
  rw [hsize] at h
  by_cases hnil : m = []
  · rw [hnil, List.length_nil, if_pos rfl] at h
    refine ⟨_, h, ⟨rfl, ?_, rfl, rfl⟩, ?_⟩
    · have hput := hs.putting
      rwa [hnil, if_pos List.drop_nil] at hput
    · rw [returnedMessages_append, hnil]
      rfl
  · have hpos := List.length_pos_iff.2 hnil
    obtain ⟨n, hn⟩ : ∃ n, ceilDiv m.length shmSmallMsgSize = n + 1 :=
      Nat.exists_eq_succ_of_ne_zero (Nat.ne_of_gt (ceilDiv_pos shmSmallMsgSize_pos hpos))
    rw [if_neg (Nat.ne_of_gt hpos), nmsgs_exact hm, hn] at h
    obtain ⟨s', hreach, hpause, hlog⟩ := reads_rest hnil hn hs h
    refine ⟨s', hreach, hpause, ?_⟩
    rw [hlog, returnedMessages_append]
    rfl

/-- A message is put into the slot and read. -/
private theorem reads_message {m : Bytes} {todo : List Bytes} (hm : m.length ≤ 2 ^ 24) (hs : Pause (m :: todo) s)
    (h : Runs.Reach start SlotStep s) : ∃ s', Runs.Reach start SlotStep s' ∧ Pause todo s' ∧
      returnedMessages s'.log = returnedMessages s.log ++ [(m.length, m)] := by
  obtain ⟨hguard, hput, hreader, htodo⟩ := hs
  have hbegun := h.next SlotSide.writer (SlotStep.put hput htodo)
  have hfilled := hbegun.next SlotSide.writer (SlotStep.putFill rfl hguard)
  have hsized := hfilled.next SlotSide.reader (SlotStep.trygetsizeFull hreader rfl)
  have htaken := hsized.next SlotSide.reader (SlotStep.trygetFull rfl (Nat.le_succ m.length) (Nat.succ_pos _) rfl)
  obtain ⟨s', hreach, hpause, hlog⟩ := reads_taken hm ⟨holds_fill _ _, rfl, rfl⟩ htaken
  refine ⟨s', hreach, hpause, hlog.trans ?_⟩
  unfold SlotState.reportSize
  rw [returnedMessages_append]
  exact congrArg (· ++ [(m.length, m)]) (List.append_nil _)

/-- The messages are put into the slot and read, one after the other. -/
private theorem reads_messages {todo : List Bytes} (hm : ∀ m ∈ todo, m.length ≤ 2 ^ 24) (hs : Pause todo s)
    (h : Runs.Reach start SlotStep s) : ∃ s', Runs.Reach start SlotStep s' ∧
      returnedMessages s'.log = returnedMessages s.log ++ todo.map fun m => (m.length, m) := by
  induction todo generalizing s with
  | nil => exact ⟨s, h, (List.append_nil _).symm⟩
  | cons m todo ih =>
    obtain ⟨s1, h1, hpause, hlog⟩ := reads_message (hm m (List.mem_cons_self ..)) hs h
    obtain ⟨s2, h2, hlog2⟩ := ih (fun m' hm' => hm m' (List.mem_cons_of_mem _ hm')) hpause h1
    refine ⟨s2, h2, ?_⟩
    rw [hlog2, hlog, List.append_assoc]
    rfl

end

/-- A message of two chunks, one of a byte, and the end. -/
theorem shmSlot_fifo_run :
    let big : Bytes := List.replicate (shmSmallMsgSize + 1) 7
    (fills big).length = 2 ∧ ∃ s, Runs.Reach (SlotStarts [big, [8]]) SlotStep s ∧
      returnedMessages s.log = [(shmSmallMsgSize + 1, big), (1, [8]), (0, [])] ∧
      ∃ read : List Bytes, read <+: [big, [8], []] ∧ returnedMessages s.log = read.map fun m => (m.length, m) := by
  obtain ⟨big, hbig, hlen⟩ : ∃ big : Bytes, big = List.replicate (shmSmallMsgSize + 1) 7 ∧
      big.length = shmSmallMsgSize + 1 := ⟨_, rfl, List.length_replicate⟩
  dsimp only
  rw [← hbig]
  have hne : big ≠ [] := by
    rintro rfl
    cases hlen
  have hsizes : ∀ m ∈ [big, [8]], m ≠ [] ∧ m.length ≤ 2 ^ 24 := by
    intro m hm
    rcases List.mem_cons.1 hm with rfl | hm
    · exact ⟨hne, by rw [hlen]; decide⟩
    · rw [List.mem_singleton.1 hm]
      exact ⟨by decide, by decide⟩
  have hall : ∀ m ∈ [big, [8]] ++ [[]], m.length ≤ 2 ^ 24 := by
    intro m hm
    rcases List.mem_append.1 hm with hm | hm
    · exact (hsizes m hm).2
    · rw [List.mem_singleton.1 hm]
      exact Nat.zero_le _
  have hstart : Pause ([big, [8]] ++ [[]]) { seg := emptySegment, todo := [big, [8]] ++ [[]] } := ⟨rfl, rfl, rfl, rfl⟩
  have hreach : Runs.Reach (SlotStarts [big, [8]]) SlotStep { seg := emptySegment, todo := [big, [8]] ++ [[]] } :=
    .start ⟨rfl, rfl, rfl, rfl, rfl, rfl, rfl⟩
  obtain ⟨s, hs, hlog⟩ := reads_messages hall hstart hreach
  refine ⟨?_, s, hs, ?_, (shmSlot_fifo hsizes hs).1⟩
  · rw [fills_next, if_neg hne, length_putLoop, hlen]
    decide
  · rw [hlog, ← hlen]
    rfl

end Mtcl
