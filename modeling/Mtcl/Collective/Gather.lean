import Mtcl.Base.Blocks
import Mtcl.Collective.Participants
import Mtcl.Collective.Sending

/-!
# `GatherGeneric`

The generic implementation of a gather.  A member sends its rank and then its block; the root takes its own
block and then receives from one participant after the other a rank and a block, which it stores at the place of
that rank.

`gather_rankCorrect` says that whatever the order of the participants and however far some of the members are
ahead, the `k`-th call of the root puts the block that the member with rank `i` has passed to its own `k`-th
call at the place `i`, and writes nothing else.
-/

namespace Mtcl

open Blocks Sources

variable {H W : Type}

/-- An object of class `GatherGeneric`; `rank` is an `int`, as a number below 2^32. -/
structure GatherGeneric (H : Type) where
  participants : List H
  root : Bool
  rank : Nat
  deriving DecidableEq, Repr

namespace GatherGeneric

/-- `rank*size` in `size_t`: a negative `int` is extended with its sign. -/
def blockOffset (rank size : Nat) : Nat := ((if rank < 2 ^ 31 then rank else rank + (2 ^ 64 - 2 ^ 32)) * size) % 2 ^ 64

/-- The buffer after some bytes have been written at an offset; writing outside it is undefined. -/
def store (buff : Bytes) (off : Nat) (bs : Bytes) : Except Stop Bytes :=
  if bs = [] then .ok buff
  else if off + bs.length ≤ buff.length then .ok (splice off bs buff)
  else .error .undefined

section

variable (vt : H → CommunicationHandle W) (garbage : Nat → UInt8)

/-- `GatherGeneric::probe`. -/
def probe (size : Nat) (_blocking : Bool) (c : GatherGeneric H) (w : W) :
    Except Stop (Ret × Nat × GatherGeneric H × W) :=
  .ok (.error .EINVAL, size, c, w)

/-- The loop of `receive` over the participants; `garbage` is what the stack held where `remote_rank` is. -/
def receiveLoop (size : Nat) : List H → Bytes → W → Except Stop (Ret × Bytes × W)
  | [], buff, w => .ok (.ok sizeofSizeT, buff, w)
  | h :: hs, buff, w => do
    let (res, bs, w) ← receiveFromHandle vt h sizeofInt w
    match res with
    | .ok (_ + 1) =>
      let remoteRank := Words.ofLE (overlay garbage sizeofInt bs)
      let (res, bs, w) ← receiveFromHandle vt h size w
      let buff ← store buff (blockOffset remoteRank size) bs
      match res with
      | .ok (_ + 1) => receiveLoop size hs buff w
      | res => return (res, buff, w)
    | res => return (res, buff, w)

/-- `GatherGeneric::receive` into the buffer `buff`. -/
def receive (buff : Bytes) (size : Nat) (c : GatherGeneric H) (w : W) :
    Except Stop (Ret × Bytes × GatherGeneric H × W) := do
  let (r, buff, w) ← receiveLoop vt garbage size c.participants buff w
  return (r, buff, c, w)

/-- The loop of `send` over the participants, of which a member has one, the root; the results are ignored. -/
def sendLoop (rank : Nat) (buff : Bytes) : List H → W → Except Stop W
  | [], w => .ok w
  | h :: hs, w => do
    let (_, w) ← (vt h).send (Words.toLE sizeofInt rank) w
    let (_, w) ← (vt h).send buff w
    sendLoop rank buff hs w

/-- `GatherGeneric::send`. -/
def send (buff : Bytes) (c : GatherGeneric H) (w : W) : Except Stop (Ret × GatherGeneric H × W) := do
  let w ← sendLoop vt c.rank buff c.participants w
  return (.ok sizeofSizeT, c, w)

/-- `GatherGeneric::sendrecv`: what it returns, and what the receive buffer holds afterwards. -/
def sendrecv (sendbuff recvbuff : Bytes) (recvsize : Nat) (c : GatherGeneric H) (w : W) :
    Except Stop (Ret × Bytes × GatherGeneric H × W) :=
  if c.root then do
    let recvbuff ← store recvbuff (blockOffset c.rank sendbuff.length) sendbuff
    c.receive vt garbage recvbuff recvsize w
  else do
    let (r, c, w) ← c.send vt sendbuff w
    return (r, recvbuff, c, w)

/-- `GatherGeneric::close`, which does not look at its arguments. -/
def close (c : GatherGeneric H) (w : W) : Except Stop (GatherGeneric H × W) := do
  let w ← closeAll vt c.participants w
  return (c, w)

/-- A call of `HandleUser::sendrecv` with the block `d.1` and the receive buffer `d.2`. -/
def call (recvsize : Nat) (d : Bytes × Bytes) (s : CollectiveContext (GatherGeneric H) × W) :
    Except Stop ((Ret × Bytes) × (CollectiveContext (GatherGeneric H) × W)) := do
  let (r, buff, s) ← teamUser.sendrecv (sendrecv vt garbage d.1 d.2 recvsize) s
  return ((r, buff), s)

end

/-! ### The messages of a member -/

/-- What a member with a rank sends in some rounds: its rank and its block in each. -/
def contributions (rank : Nat) (blocks : List Bytes) : List Bytes :=
  blocks.flatMap fun b => [Words.toLE sizeofInt rank, b]

theorem contributions_cons (rank : Nat) (b : Bytes) (blocks : List Bytes) :
    contributions rank (b :: blocks) = Words.toLE sizeofInt rank :: b :: contributions rank blocks := rfl

/-- The blocks that the members pass to their `k`-th calls, by rank. -/
def gathered (n : Nat) (data : Nat → List Bytes) (k : Nat) : Bytes :=
  (List.range n).flatMap fun i => (data i).getD k []

/-- The rounds that are left after the first. -/
theorem gathered_tail (n : Nat) (data : Nat → List Bytes) (k : Nat) :
    gathered n (fun i => (data i).tail) k = gathered n data (k + 1) := by
  have hget : ∀ i, (data i).tail.getD k [] = (data i).getD (k + 1) [] := by
    intro i
    cases data i with
    | nil => rfl
    | cons b l => rfl
  simp only [gathered, hget]

/-! ### The root -/

/-- An `int` that has been read whole. -/
theorem ofLE_overlay (garbage : Nat → UInt8) {n : Nat} (hn : n < 2 ^ 32) :
    Words.ofLE (overlay garbage sizeofInt (Words.toLE sizeofInt n)) = n := by
  have hfull := overlay_full garbage (Words.toLE sizeofInt n)
  rw [Words.length_toLE] at hfull
  rw [hfull, Words.ofLE_toLE hn]

theorem blockOffset_of_lt {n rank size : Nat} (hn : n ≤ 2 ^ 31) (hsize : n * size < 2 ^ 64) (hr : rank < n) :
    blockOffset rank size = rank * size := by
  have := Nat.mul_le_mul_right size (Nat.le_of_lt hr)
  rw [blockOffset, if_pos (by omega), Nat.mod_eq_of_lt (by omega)]

/-- A block that is not too large is stored at the place of its rank. -/
theorem store_inside {n s i : Nat} {bs buff : Bytes} (hn : n ≤ 2 ^ 31) (hsize : n * s < 2 ^ 64) (hi : i < n)
    (hs : bs.length ≤ s) (hne : bs ≠ []) (hlen : n * s ≤ buff.length) :
    store buff (blockOffset i s) bs = .ok (splice (i * s) bs buff) ∧ i * s + bs.length ≤ buff.length := by
  have := Nat.mul_le_mul_right s (Nat.succ_le_of_lt hi)
  rw [Nat.succ_mul] at this
  have hroom : i * s + bs.length ≤ buff.length := by omega
  rw [blockOffset_of_lt hn hsize hi, store, if_neg hne, if_pos hroom]
  exact ⟨rfl, hroom⟩

theorem store_block {n s i : Nat} {bs buff : Bytes} (hn : n ≤ 2 ^ 31) (hsize : n * s < 2 ^ 64) (hi : i < n)
    (hs : bs.length = s) (hpos : 0 < s) (hlen : n * s ≤ buff.length) :
    store buff (blockOffset i s) bs = .ok (splice (i * s) bs buff) := by
  have hne : bs ≠ [] := by
    rintro rfl
    rw [← hs] at hpos
    exact Nat.lt_irrefl 0 hpos
  exact (store_inside hn hsize hi (Nat.le_of_eq hs) hne hlen).1

section

variable {vt : H → CommunicationHandle W} {closed : H → Bool} {I : H → Phase (List Bytes) Bytes → W → Prop}
  {garbage : Nat → UInt8} {n s : Nat} {rank : H → Nat}

/-- One turn of the loop, when there is room for the block. -/
theorem receiveLoop_cons (hp : Participants vt (fun h => queue (closed h)) I) (hn : n ≤ 2 ^ 31) (hsize : n * s < 2 ^ 64)
    (garbage : Nat → UInt8) {h : H} (hs : List H) (hrank : rank h < n) {m : Bytes} (hm : m.length ≤ s)
    {q : List Bytes} {buff : Bytes} (hlen : n * s ≤ buff.length) {w : W}
    (hI : I h (.idle (Words.toLE sizeofInt (rank h) :: m :: q)) w) :
    ∃ w', receiveLoop vt garbage s (h :: hs) buff w = receiveLoop vt garbage s hs (splice (rank h * s) m buff) w' ∧
      rank h * s + m.length ≤ buff.length ∧ I h (.idle q) w' ∧ ∀ j, j ≠ h → ∀ ph, I j ph w → I j ph w' := by
  obtain ⟨w1, h1, hI1, -⟩ := receiveFromHandle_message (hp.reads h) hI
    (Nat.le_of_eq (Words.length_toLE sizeofInt (rank h)))
  obtain ⟨w2, h2, hI2, hne⟩ := receiveFromHandle_message (hp.reads h) hI1 hm
  obtain ⟨hstore, hroom⟩ := store_inside hn hsize hrank hm hne hlen
  have hover := ofLE_overlay garbage (Nat.lt_of_lt_of_le hrank (Nat.le_trans hn (by decide)))
  obtain ⟨k, hk⟩ := Nat.exists_eq_succ_of_ne_zero fun e => hne (List.length_eq_zero_iff.1 e)
  refine ⟨w2, ?_, hroom, hI2, fun j hj ph hIj => ?_⟩
  · conv => lhs; unfold receiveLoop
    rw [h1, bind_ok, Words.length_toLE]
    dsimp only
    rw [hover, h2, bind_ok]
    dsimp only
    rw [hstore, bind_ok, hk]
  · exact receiveFromHandle_keeps (hp.apart hj ph) (receiveFromHandle_keeps (hp.apart hj ph) hIj h1) h2

/-- The loop stores the block of every participant at the place of its rank. -/
private theorem receiveLoop_fills (hp : Participants vt (fun h => queue (closed h)) I) (hn : n ≤ 2 ^ 31)
    (hsize : n * s < 2 ^ 64) {D : Nat → Bytes} {rest : H → List Bytes} {hs : List H} (hnodup : hs.Nodup)
    (hrank : ∀ h ∈ hs, rank h < n ∧ (D (rank h)).length = s) {buff : Bytes} (hlen : n * s ≤ buff.length) {w : W}
    (hI : ∀ h ∈ hs, I h (.idle (Words.toLE sizeofInt (rank h) :: D (rank h) :: rest h)) w) :
    ∃ w', receiveLoop vt garbage s hs buff w = .ok (.ok sizeofSizeT, fill s D (hs.map rank) buff, w') ∧
      (∀ h ∈ hs, I h (.idle (rest h)) w') ∧ ∀ j, j ∉ hs → ∀ ph, I j ph w → I j ph w' := by
  induction hs generalizing buff w with
  | nil => exact ⟨w, rfl, nofun, fun _ _ _ h => h⟩
  | cons h hs ih =>
    obtain ⟨hh, hnodup⟩ := List.nodup_cons.1 hnodup
    obtain ⟨hr, hD⟩ := hrank h (List.mem_cons_self ..)
    obtain ⟨w2, hturn, hroom, hI2, hkeep⟩ := receiveLoop_cons hp hn hsize garbage hs hr (Nat.le_of_eq hD) hlen
      (hI h (List.mem_cons_self ..))
    have hlen' : n * s ≤ (splice (rank h * s) (D (rank h)) buff).length := by
      rw [length_splice hroom]
      exact hlen
    obtain ⟨w3, h3, hdone, hother⟩ := ih hnodup (fun j hj => hrank j (List.mem_cons_of_mem _ hj)) hlen' fun j hj =>
      hkeep j (fun e => hh (e ▸ hj)) _ (hI j (List.mem_cons_of_mem _ hj))
    refine ⟨w3, hturn.trans h3, fun j hj => ?_, fun j hj ph hIj => ?_⟩
    · rcases List.mem_cons.1 hj with rfl | hj
      · exact hother j hh _ hI2
      · exact hdone j hj
    · have hjh : j ≠ h := fun e => hj (e ▸ List.mem_cons_self ..)
      exact hother j (fun hmem => hj (List.mem_cons_of_mem _ hmem)) ph (hkeep j hjh ph hIj)

/-- A call of the root stores its own block and goes through the loop. -/
theorem call_of_loop {ps : List H} {own : Nat} {c : CollectiveContext (GatherGeneric H)}
    (hcoll : c.coll = { participants := ps, root := true, rank := own }) (hdel : c.deleted = false)
    {b buff buff0 buff' : Bytes} {r : Ret} {w w' : W}
    (hstore : store buff (blockOffset own b.length) b = .ok buff0)
    (hloop : receiveLoop vt garbage s ps buff0 w = .ok (r, buff', w')) :
    call vt garbage s (b, buff) (c, w) = .ok ((r, buff'), ({ c with probed := (false, 0) }, w')) := by
  have hcall : sendrecv vt garbage b buff s c.coll w = .ok (r, buff', c.coll, w') := by
    rw [hcoll]
    unfold sendrecv
    rw [if_pos rfl, hstore, bind_ok, receive, hloop]
    rfl
  change (HandleUser.sendrecv (sendrecv vt garbage b buff s) teamUser (c, w) >>= _) = _
  rw [HandleUser.sendrecv_of hdel hcall]
  rfl

/-- A call of the root fills the buffer. -/
theorem call_fills (hp : Participants vt (fun h => queue (closed h)) I) (hn : n ≤ 2 ^ 31) (hsize : n * s < 2 ^ 64)
    (hpos : 0 < s) {ps : List H} {own : Nat} (hranks : (own :: ps.map rank).Perm (List.range n)) {D : Nat → Bytes}
    (hD : ∀ i, i < n → (D i).length = s) {rest : H → List Bytes} {c : CollectiveContext (GatherGeneric H)}
    (hcoll : c.coll = { participants := ps, root := true, rank := own }) (hdel : c.deleted = false) {w : W}
    (hI : ∀ h ∈ ps, I h (.idle (Words.toLE sizeofInt (rank h) :: D (rank h) :: rest h)) w) {buff : Bytes}
    (hlen : n * s ≤ buff.length) :
    ∃ w', call vt garbage s (D own, buff)
    (c, w) = .ok ((.ok sizeofSizeT, (List.range n).flatMap D ++ buff.drop (n * s)),
        ({ c with probed := (false, 0) }, w')) ∧
      ∀ h ∈ ps, I h (.idle (rest h)) w' := by
  have hmem : ∀ i, i ∈ own :: ps.map rank ↔ i < n := fun i => hranks.mem_iff.trans List.mem_range
  have hown : own < n := (hmem own).1 (List.mem_cons_self ..)
  have hroom := store_block hn hsize hown (hD own hown) hpos hlen
  have hlen' : n * s ≤ (splice (own * s) (D own) buff).length := by
    rw [length_splice (room hown (hD own hown) hlen).1]
    exact hlen
  have hnodup : ps.Nodup := List.Nodup.of_map rank (List.nodup_cons.1 (hranks.nodup_iff.2 List.nodup_range)).2
  obtain ⟨w', hloop, hdone, -⟩ := receiveLoop_fills hp hn hsize (D := D) hnodup
    (fun h hh => ⟨(hmem _).1 (List.mem_cons_of_mem _ (List.mem_map_of_mem hh)),
      hD _ ((hmem _).1 (List.mem_cons_of_mem _ (List.mem_map_of_mem hh)))⟩) hlen' hI
  have hfill : fill s D (ps.map rank) (splice (own * s) (D own) buff) =
      (List.range n).flatMap D ++ buff.drop (n * s) :=
    fill_eq (fun i hi => ⟨(hmem i).1 hi, hD i ((hmem i).1 hi)⟩) (fun i hi => (hmem i).2 hi) hlen
  rw [hfill] at hloop
  have hstore : store buff (blockOffset own (D own).length) (D own) = .ok (splice (own * s) (D own) buff) := by
    rw [hD own hown]
    exact hroom
  exact ⟨w', call_of_loop hcoll hdel hstore hloop, hdone⟩

/-- Every call of the root fills its buffer with the blocks of its round. -/
private theorem calls_fill (hp : Participants vt (fun h => queue (closed h)) I) (hn : n ≤ 2 ^ 31)
    (hsize : n * s < 2 ^ 64) (hpos : 0 < s) {ps : List H} {own : Nat}
    (hranks : (own :: ps.map rank).Perm (List.range n)) {data : Nat → List Bytes}
    (hblocks : ∀ i, i < n → ∀ b ∈ data i, b.length = s) {bufs : List Bytes} (hlen : ∀ b ∈ bufs, n * s ≤ b.length)
    (hrounds : ∀ i, i < n → bufs.length ≤ (data i).length) {c : CollectiveContext (GatherGeneric H)}
    (hcoll : c.coll = { participants := ps, root := true, rank := own }) (hdel : c.deleted = false) {w : W}
    (hI : ∀ h ∈ ps, I h (.idle (contributions (rank h) (data (rank h)))) w) :
    ∃ s', Runs.run (call vt garbage s) ((data own).zip bufs) (c, w) =
      .ok (bufs.mapIdx fun k buff => (.ok sizeofSizeT, gathered n data k ++ buff.drop (n * s)), s') := by
  induction bufs generalizing data c w with
  | nil => exact ⟨(c, w), by rw [List.zip_nil_right]; rfl⟩
  | cons buff bufs ih =>
    have hmem : ∀ i, i ∈ own :: ps.map rank ↔ i < n := fun i => hranks.mem_iff.trans List.mem_range
    have hown : own < n := (hmem own).1 (List.mem_cons_self ..)
    -- the blocks of this round, and those of the others
    have hsplit : ∀ i, i < n → data i = (data i).getD 0 [] :: (data i).tail := by
      intro i hi
      have hi := hrounds i hi
      cases hd : data i with
      | nil =>
        rw [hd] at hi
        exact absurd hi (by simp)
      | cons b l => rfl
    have hranked : ∀ h ∈ ps, rank h < n := fun h hh => (hmem _).1 (List.mem_cons_of_mem _ (List.mem_map_of_mem hh))
    have hD : ∀ i, i < n → ((data i).getD 0 []).length = s := by
      intro i hi
      refine hblocks i hi _ ?_
      rw [hsplit i hi]
      exact List.mem_cons_self ..
    have hidle : ∀ h ∈ ps, I h (.idle (Words.toLE sizeofInt (rank h) :: (data (rank h)).getD 0 [] ::
        contributions (rank h) (data (rank h)).tail)) w := by
      intro h hh
      rw [← contributions_cons, ← hsplit _ (hranked h hh)]
      exact hI h hh
    obtain ⟨w1, h1, hI1⟩ := call_fills hp hn hsize hpos hranks hD hcoll hdel hidle (hlen buff (List.mem_cons_self ..))
    obtain ⟨s', h2⟩ := ih (fun i hi b hb => hblocks i hi b (List.mem_of_mem_tail hb))
      (fun b hb => hlen b (List.mem_cons_of_mem _ hb)) (fun i hi => by
        have := hrounds i hi
        rw [List.length_cons] at this
        rw [List.length_tail]
        omega) (c := { c with probed := (false, 0) }) hcoll hdel hI1
    refine ⟨s', ?_⟩
    rw [hsplit own hown, List.zip_cons_cons, Runs.run, h1]
    change (Runs.run (call vt garbage s) ((data own).tail.zip bufs) _ >>= fun x => .ok (_ :: x.1, x.2)) = _
    have htail : (fun k buff => ((Except.ok sizeofSizeT : Ret),
        gathered n (fun i => (data i).tail) k ++ buff.drop (n * s))) =
        fun k (buff : Bytes) => (.ok sizeofSizeT, gathered n data (k + 1) ++ buff.drop (n * s)) := by
      funext k buff
      rw [gathered_tail]
    rw [h2, htail, List.mapIdx_cons]
    rfl

end

/-! ### A member over TCP -/

private theorem call_contributes {p : Process} {id : Nat} (hp : p.Writable id) (garbage : Nat → UInt8) (rank size : Nat)
    {c : CollectiveContext (GatherGeneric Nat)} (hcoll : c.coll = { participants := [id], root := false, rank := rank })
    (hdel : c.deleted = false) (b buff : Bytes) :
    ∃ p', call tcpHandle garbage size (b, buff) (c, p) =
        .ok ((.ok sizeofSizeT, buff), ({ c with probed := (false, 0) }, p')) ∧ p'.Writable id ∧
      (p'.handles id).wire = (p.handles id).wire ++ encode false (contributions rank [b]) := by
  obtain ⟨p1, h1, hp1, hw1⟩ := hp.handle_send (Words.toLE sizeofInt rank)
  obtain ⟨p2, h2, hp2, hw2⟩ := hp1.handle_send b
  refine ⟨p2, ?_, hp2, ?_⟩
  · have hcall : sendrecv tcpHandle garbage b buff size c.coll p = .ok (.ok sizeofSizeT, buff, c.coll, p2) := by
      rw [hcoll]
      change (((tcpHandle id).send (Words.toLE sizeofInt rank) p >>= _) >>= _) >>= _ = _
      rw [h1]
      change ((((tcpHandle id).send b p1 >>= _) >>= _) >>= _) = _
      rw [h2]
      rfl
    change (HandleUser.sendrecv (sendrecv tcpHandle garbage b buff size) teamUser (c, p) >>= _) = _
    rw [HandleUser.sendrecv_of hdel hcall]
    rfl
  · rw [hw2, hw1, List.append_assoc]
    simp [contributions, encode]

private theorem calls_contribute {p : Process} {id : Nat} (hp : p.Writable id) (garbage : Nat → UInt8) (rank size : Nat)
    {c : CollectiveContext (GatherGeneric Nat)} (hcoll : c.coll = { participants := [id], root := false, rank := rank })
    (hdel : c.deleted = false) (rounds : List (Bytes × Bytes)) :
    ∃ s', Runs.run (call tcpHandle garbage size) rounds (c, p) = .ok (rounds.map fun d => (.ok sizeofSizeT, d.2), s') ∧
      (s'.2.handles id).wire = (p.handles id).wire ++ encode false (contributions rank (rounds.map Prod.fst)) := by
  induction rounds generalizing c p with
  | nil => exact ⟨(c, p), rfl, (List.append_nil _).symm⟩
  | cons d rounds ih =>
    obtain ⟨p1, h1, hp1, hw1⟩ := call_contributes hp garbage rank size hcoll hdel d.1 d.2
    obtain ⟨s', h2, hw2⟩ := ih (c := { c with probed := (false, 0) }) hp1 hcoll hdel
    refine ⟨s', ?_, ?_⟩
    · rw [Runs.run, h1]
      change (Runs.run (call tcpHandle garbage size) rounds _ >>= fun x => .ok (_ :: x.1, x.2)) = _
      rw [h2]
      rfl
    · rw [hw2, hw1, List.append_assoc]
      simp [contributions, encode]

/-- A gather is rank-correct.  A member over TCP puts its rank and its block on its stream in every call, and a
TCP handle on which such a stream arrives, in whatever pieces and however late, is a participant.  Over any
participants that bring the contributions of the members with the other ranks, in any order, the `k`-th call of
the root puts the blocks of the `k`-th round into its buffer by rank, and leaves what lies behind them alone. -/
theorem gather_rankCorrect :
    (∀ {p : Process} {id : Nat}, p.Writable id → ∀ (garbage : Nat → UInt8) (rank size : Nat)
      {c : CollectiveContext (GatherGeneric Nat)}, c.coll = { participants := [id], root := false, rank := rank } →
      c.deleted = false → ∀ rounds : List (Bytes × Bytes),
      ∃ s', Runs.run (call tcpHandle garbage size) rounds
        (c, p) = .ok (rounds.map fun d => (.ok sizeofSizeT, d.2), s') ∧
        (s'.2.handles id).wire = (p.handles id).wire ++ encode false (contributions rank (rounds.map Prod.fst))) ∧
    (∀ closed : Nat → Bool, Participants tcpHandle (fun id => queue (closed id))
      fun id => Attending (Arrives (closed id)) (closed id) id) ∧
    ∀ {H W : Type} {vt : H → CommunicationHandle W} {closed : H → Bool} {I : H → Phase (List Bytes) Bytes → W → Prop}
      {garbage : Nat → UInt8} {n s : Nat} {rank : H → Nat}, Participants vt (fun h => queue (closed h)) I → n ≤ 2 ^ 31 →
      n * s < 2 ^ 64 → 0 < s → ∀ {ps : List H} {own : Nat}, (own :: ps.map rank).Perm (List.range n) →
      ∀ {data : Nat → List Bytes}, (∀ i, i < n → ∀ b ∈ data i, b.length = s) →
      ∀ {bufs : List Bytes}, (∀ b ∈ bufs, n * s ≤ b.length) → (∀ i, i < n → bufs.length ≤ (data i).length) →
      ∀ {c : CollectiveContext (GatherGeneric H)}, c.coll = { participants := ps, root := true, rank := own } →
      c.deleted = false → ∀ {w : W}, (∀ h ∈ ps, I h (.idle (contributions (rank h) (data (rank h)))) w) →
      ∃ s', Runs.run (call vt garbage s) ((data own).zip bufs) (c, w) =
        .ok (bufs.mapIdx fun k buff => (.ok sizeofSizeT, gathered n data k ++ buff.drop (n * s)), s') :=
  ⟨calls_contribute, tcp_participants, calls_fill⟩

/-- The root has rank 1; the member with rank 2 has been accepted first and has sent two rounds already. -/
theorem gather_rankCorrect_run :
    (∃ s' : CollectiveContext (GatherGeneric Nat) × Process,
      (s'.2.handles 0).wire = encode false (contributions 2 [[5], [6]])) ∧
    ∃ (s s' : CollectiveContext (GatherGeneric Nat) × Process),
      Runs.run (call tcpHandle (fun _ => 0) 1) [([3], [0, 0, 0, 9]), ([4], [0, 0, 0, 8])] s =
        .ok ([(.ok 8, [1, 3, 5, 9]), (.ok 8, [2, 4, 6, 8])], s') := by
  obtain ⟨hmember, htcp, hroot⟩ := gather_rankCorrect
  constructor
  · let p : Process := { handles := fun _ => { fd := some 3 }, allocated := 1 }
    obtain ⟨s', -, hwire⟩ := @hmember p 0 ⟨⟨Nat.zero_lt_one, rfl, Option.some_ne_none _⟩, rfl, fun _ h =>
      absurd h List.not_mem_nil⟩
      (fun _ => 0) 2 1 (.mk' true true { participants := [0], root := false, rank := 2 }) rfl rfl [([5], []), ([6], [])]
    exact ⟨s', hwire⟩
  · let rank : Nat → Nat := fun h => if h = 0 then 2 else 0
    let data : Nat → List Bytes := fun i => if i = 0 then [[1], [2]] else if i = 1 then [[3], [4]] else [[5], [6]]
    let incoming : Nat → List SockArrival := fun h =>
      if h = 0 then
        [.piece 0 [0, 0, 0, 0, 0, 0, 4, 2, 0, 0, 0, 0, 0, 0, 0, 0, 0, 0, 1, 5],
          .piece 0 [0, 0, 0, 0, 0, 0, 4, 2, 0, 0, 0, 0, 0, 0, 0, 0, 0, 0, 1, 6]]
      else
        [.piece 0 [0, 0, 0, 0, 0, 0, 4, 0, 0, 0, 0, 0, 0, 0, 0, 0], .piece 0 [0, 1, 1],
          .piece 0 [0, 0, 0, 0, 0, 0, 4, 0, 0, 0, 0, 0, 0, 0, 0, 0, 0, 0, 1, 2]]
    let p : Process := { handles := fun h => { fd := some 3, incoming := incoming h }, allocated := 2 }
    let c : CollectiveContext (GatherGeneric Nat) := .mk' true true { participants := [0, 1], root := true, rank := 1 }
    obtain ⟨s', hrun⟩ := @hroot Nat Process tcpHandle (fun _ => false) _ (fun _ => 0) 3 1 rank (htcp fun _ => false)
      (by decide) (by decide) Nat.one_pos [0, 1] 1 (by decide) data (by decide) [[0, 0, 0, 9], [0, 0, 0, 8]] (by decide)
      (by decide) c rfl rfl p (by
        intro h hh
        rcases List.mem_cons.1 hh with rfl | hh
        · refine ⟨⟨⟨Nat.zero_lt_two, rfl, Option.some_ne_none _⟩, rfl, rfl, rfl⟩, rfl, ?_, ?_,
            fun _ => ⟨by decide, rfl⟩⟩
          · exact (by decide : ∀ m ∈ contributions 2 [[5], [6]], m ≠ [] ∧ m.length < 2 ^ 63)
          · exact Or.inr ⟨by decide, by decide, Or.inr ⟨by decide, by decide, rfl⟩⟩
        · obtain rfl := List.mem_singleton.1 hh
          refine ⟨⟨⟨Nat.one_lt_two, rfl, Option.some_ne_none _⟩, rfl, rfl, rfl⟩, rfl, ?_, ?_, fun _ => ⟨by decide, rfl⟩⟩
          · exact (by decide : ∀ m ∈ contributions 0 [[1], [2]], m ≠ [] ∧ m.length < 2 ^ 63)
          · exact Or.inr ⟨by decide, by decide, Or.inr ⟨by decide, by decide, Or.inr ⟨by decide, by decide, rfl⟩⟩⟩)
    exact ⟨(c, p), s', hrun⟩

end GatherGeneric

end Mtcl
