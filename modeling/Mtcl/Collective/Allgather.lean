import Mtcl.Base.Diamond
import Mtcl.Collective.Gather

/-!
# The allgather that sets up UCC

`UCCCollective::oob_allgather` exchanges a block of every member over the handles of the team: the root reads
from one member after the other its rank and its block, and sends all the blocks to each of them.  The members
are connected to the root by channels that keep the order of what is sent, in which a message is its header and
its payload; sending does not wait.

Each call is a list of instructions that make at most one call of a handle each, and a step is the next instruction of
one member.  The steps of different members commute, so one run that ends decides where all runs lead
(`Oob.oobAllgather_gathers`).
-/

namespace Mtcl

open GatherGeneric

/-- What travels over a channel. -/
inductive Item
  | header (size : Nat)
  | payload (bs : Bytes)
  deriving DecidableEq, Repr

/-- A handle with the items that have arrived for it and those that have been sent through it. -/
structure Link where
  base : CommBase := {}
  incoming : List Item := []
  outgoing : List Item := []
  deriving DecidableEq, Repr

namespace Link

/-- The handle after a message has been sent through it. -/
def sent (l : Link) (bs : Bytes) : Link := { l with outgoing := l.outgoing ++ [.header bs.length, .payload bs] }

/-- A handle for which a message has arrived. -/
def arrived (bs : Bytes) : Link := { incoming := [.header bs.length, .payload bs] }

/-- The virtual functions of the handle. -/
def handle : CommunicationHandle Link where
  base l := .ok l.base
  setProbed pr l := { l with base := { l.base with probed := pr } }
  probe size blocking l :=
    match l.incoming with
    | [] => if blocking then .error .blocked else .ok (.error .EWOULDBLOCK, size, l)
    | .header n :: items => .ok (.ok sizeofSizeT, n, { l with incoming := items })
    | .payload _ :: _ => .error .undefined
  receive size l :=
    match l.incoming with
    | [] => .error .blocked
    | .payload bs :: items =>
      if size < bs.length then .error .undefined else .ok (.ok bs.length, bs, { l with incoming := items })
    | .header _ :: _ => .error .undefined
  send bs l := .ok (.ok bs.length, l.sent bs)
  close closeWr closeRd l :=
    let l := if closeWr && !l.base.closedWr then
      { l with
        base := { l.base with closedWr := true }
        outgoing := l.outgoing ++ [.header 0] }
      else l
    .ok { l with base := { l.base with closedRd := l.base.closedRd || closeRd } }
  yield l := .ok l
  incrementReferenceCounter l := .ok { l with base := { l.base with counter := l.base.counter + 1 } }
  decrementReferenceCounter l := .ok { l with base := { l.base with counter := l.base.counter - 1 } }

/-- The handle of a world with this handle only. -/
def vt (_ : Unit) : CommunicationHandle Link := handle

end Link

/-! ### The instructions -/

/-- What `oob_allgather` does through its `i`-th handle, or in its buffers. -/
inductive Instr
  | enter (rbuf : Bytes)
  | sendRank (i : Nat)
  | receiveRank (i : Nat)
  | receiveBlock (i msglen : Nat)
  | copyBlock (sbuf : Bytes)
  | sendBlock (i : Nat) (sbuf : Bytes)
  | sendBlocks (i msglen : Nat)
  | probeBlocks (i : Nat)
  | receiveBlocks (i : Nat)
  | leave
  deriving DecidableEq, Repr

/-- The handle of an instruction. -/
def Instr.handle : Instr → Nat
  | .sendRank i | .receiveRank i | .receiveBlock i _ | .sendBlock i _ | .sendBlocks i _ | .probeBlocks i
  | .receiveBlocks i => i
  | .enter _ | .copyBlock _ | .leave => 0

/-- What the root does with the handle `i`. -/
def exchange (msglen i : Nat) : List Instr := [.sendRank i, .receiveRank i, .receiveBlock i msglen]

/-- `UCCCollective::oob_allgather` with the buffers `sbuf` of `msglen` bytes and `rbuf`, for a team of `size`
members and a member with `handles` handles. -/
def oobAllgather (root : Bool) (size handles : Nat) (sbuf rbuf : Bytes) (msglen : Nat) : List Instr :=
  if root then
    .enter rbuf :: (List.range (size - 1)).flatMap (exchange msglen) ++
      .copyBlock sbuf :: (List.range handles).map (fun i => .sendBlocks i msglen) ++ [.leave]
  else
    [.enter rbuf, .receiveRank 0, .sendRank 0, .sendBlock 0 sbuf, .probeBlocks 0, .receiveBlocks 0, .leave]

/-- A member: its `UCC_coll_info`, the variables of `oob_allgather`, what it has still to do, and the receive
buffers of the calls that have returned. -/
structure Caller where
  rank : Nat
  size : Nat
  remoteRank : Nat := 0
  sz : Nat := 0
  rbuf : Bytes := []
  code : List Instr := []
  results : List Bytes := []
  deriving DecidableEq, Repr

/-- An instruction of a member; the results of the handle are ignored, and `garbage` is what the stack held
where a rank is received. -/
def Instr.exec (garbage : Nat → UInt8) (a : Instr) (c : Caller) (l : Link) : Except Stop (Caller × Link) :=
  match a with
  | .enter rbuf => .ok ({ c with rbuf := rbuf }, l)
  | .sendRank _ => do
    let (_, l) ← Link.handle.send (Words.toLE sizeofInt c.rank) l
    return (c, l)
  | .receiveRank _ => do
    let (_, bs, l) ← receiveFromHandle Link.vt () sizeofInt l
    return ({ c with remoteRank := Words.ofLE (overlay garbage sizeofInt bs) }, l)
  | .receiveBlock _ msglen => do
    let (_, bs, l) ← receiveFromHandle Link.vt () msglen l
    let rbuf ← store c.rbuf (blockOffset c.remoteRank msglen) bs
    return ({ c with rbuf := rbuf }, l)
  | .copyBlock sbuf => do
    let rbuf ← store c.rbuf (blockOffset c.rank sbuf.length) sbuf
    return ({ c with rbuf := rbuf }, l)
  | .sendBlock _ sbuf => do
    let (_, l) ← Link.handle.send sbuf l
    return (c, l)
  | .sendBlocks _ msglen => do
    let (_, l) ← Link.handle.send (c.rbuf.take (msglen * c.size)) l
    return (c, l)
  | .probeBlocks _ => do
    let (_, sz, l) ← probeHandle Link.vt () c.sz true l
    return ({ c with sz := sz }, l)
  | .receiveBlocks _ => do
    let (_, bs, l) ← receiveFromHandle Link.vt () c.sz l
    let rbuf ← store c.rbuf 0 bs
    return ({ c with rbuf := rbuf }, l)
  | .leave => .ok ({ c with results := c.results ++ [c.rbuf] }, l)

/-! ### The members side by side -/

/-- One end of a connection: the handle of the root (`none`) for a member, or that of a member. -/
abbrev End := Option Nat × Nat

/-- The other end of the connection. -/
def End.peer : End → End
  | (none, i) => (some i, 0)
  | (some i, _) => (none, i)

/-- The members, their handles, and what is on its way to each of these. -/
@[ext] structure Oob where
  callers : Option Nat → Caller
  bases : End → CommBase := fun _ => {}
  queues : End → List Item := fun _ => []

namespace Oob

/-- What has become of a member and its `i`-th handle; what has been sent is on its way. -/
def put (s : Oob) (p : Option Nat) (i : Nat) (c : Caller) (l : Link) : Oob where
  callers := Function.update s.callers p c
  bases := Function.update s.bases (p, i) l.base
  queues := Function.update (Function.update s.queues (p, i) l.incoming) (End.peer (p, i))
    (s.queues (End.peer (p, i)) ++ l.outgoing)

/-- The `i`-th handle of a member. -/
def link (s : Oob) (p : Option Nat) (i : Nat) : Link where
  base := s.bases (p, i)
  incoming := s.queues (p, i)

/-- The next instruction of a member. -/
def step (garbage : Nat → UInt8) (p : Option Nat) (s : Oob) : Except Stop Oob :=
  match (s.callers p).code with
  | [] => .error .blocked
  | a :: code => do
    let (c, l) ← a.exec garbage { s.callers p with code := code } (s.link p a.handle)
    return s.put p a.handle c l

/-- A step of a member. -/
def Step (garbage : Nat → UInt8) (p : Option Nat) (s s' : Oob) : Prop := s.step garbage p = .ok s'

end Oob

/-- A team of UCC: the rank of the root, and that of the member at its `i`-th handle. -/
structure OobTeam where
  size : Nat
  size_lt : size < 2 ^ 31
  rootRank : Nat
  rankOf : Nat → Nat
  ranks : (rootRank :: (List.range (size - 1)).map rankOf).Perm (List.range size)

/-- The arguments of one call at all the members, by rank: blocks of one size, which is not zero, and receive
buffers that have room for all of them. -/
structure OobCall (size : Nat) where
  msglen : Nat
  msglen_pos : 0 < msglen
  block : Nat → Bytes
  length_block : ∀ r < size, (block r).length = msglen
  rbuf : Nat → Bytes
  length_rbuf : ∀ r < size, (rbuf r).length = size * msglen
  length_lt : size * msglen < 2 ^ 64

namespace OobTeam

variable (t : OobTeam) (calls : List (OobCall t.size))

/-- The instructions of the calls of a member. -/
def codeOf (root : Bool) (rank : Nat) (calls : List (OobCall t.size)) : List Instr :=
  calls.flatMap fun c => oobAllgather root t.size (t.size - 1) (c.block rank) (c.rbuf rank) c.msglen

/-- The members before their first call. -/
def callers : Option Nat → Caller
  | none => { rank := t.rootRank, size := t.size, code := t.codeOf true t.rootRank calls }
  | some i =>
    if i < t.size - 1 then { rank := t.rankOf i, size := t.size, code := t.codeOf false (t.rankOf i) calls }
    else { rank := 0, size := 0 }

/-- All members have returned from all their calls, and the receive buffer of each call holds the blocks of all
members, that of the rank `r` at the offset `r * msglen`. -/
def Gathered (s : Oob) : Prop :=
  (∀ p, (s.callers p).code = []) ∧
    ∀ p, p = none ∨ (∃ i < t.size - 1, p = some i) →
      List.Forall₂ (fun (c : OobCall t.size) buf => buf.length = t.size * c.msglen ∧
        ∀ r < t.size, Blocks.block c.msglen r buf = c.block r) calls (s.callers p).results

end OobTeam

/-! ### The steps commute -/

/-- The handle when some more items have arrived. -/
def Link.more (l : Link) (items : List Item) : Link := { l with incoming := l.incoming ++ items }

/-- The virtual functions of a handle do the same in a world that `f` has changed, whenever they return. -/
private structure Lifts {W : Type} (h : CommunicationHandle W) (f : W → W) : Prop where
  base : ∀ w, h.base (f w) = h.base w
  setProbed : ∀ pr w, h.setProbed pr (f w) = f (h.setProbed pr w)
  probe : ∀ {size w r size' w'}, h.probe size true w = .ok (r, size', w') →
    h.probe size true (f w) = .ok (r, size', f w')
  receive : ∀ {n w r bs w'}, h.receive n w = .ok (r, bs, w') → h.receive n (f w) = .ok (r, bs, f w')
  close : ∀ {wr rd w w'}, h.close wr rd w = .ok w' → h.close wr rd (f w) = .ok (f w')

section

variable {H W : Type} {vt : H → CommunicationHandle W} {h : H} {f : W → W} (hf : Lifts (vt h) f) {w w' : W} {r : Ret}

include hf

private theorem Lifts.probeHandle {size sz : Nat} (he : probeHandle vt h size true w = .ok (r, sz, w')) :
    Mtcl.probeHandle vt h size true (f w) = .ok (r, sz, f w') := by
  unfold Mtcl.probeHandle at he ⊢
  obtain ⟨b, hb, he⟩ := bind_eq_ok.1 he
  dsimp only at he ⊢
  rw [hf.base, hb, bind_ok]
  by_cases hp : b.probed.1 = true
  · rw [if_pos hp] at he ⊢
    cases he
    rfl
  rw [if_neg hp] at he ⊢
  by_cases hrd : b.closedRd = true
  · rw [if_pos hrd] at he ⊢
    cases he
    rfl
  rw [if_neg hrd] at he ⊢
  obtain ⟨⟨r1, s1, w1⟩, h1, he⟩ := bind_eq_ok.1 he
  rw [hf.probe h1, bind_ok]
  have hclosed : ∀ w1 : W, ((vt h).close true true w1 >>= fun w => Except.ok (Except.ok 0, s1, w)) = .ok (r, sz, w') →
      ((vt h).close true true (f w1) >>= fun w => Except.ok (Except.ok 0, s1, w)) = .ok (r, sz, f w') := by
    intro w1 he
    obtain ⟨w2, h2, he⟩ := bind_eq_ok.1 he
    cases he
    rw [hf.close h2]
    rfl
  cases r1 with
  | error e =>
    dsimp only at he ⊢
    by_cases hreset : e = .ECONNRESET
    · rw [if_pos hreset] at he ⊢
      exact hclosed w1 he
    · rw [if_neg hreset] at he ⊢
      cases he
      rfl
  | ok n =>
    cases n with
    | zero => exact hclosed w1 he
    | succ n =>
      dsimp only at he ⊢
      rw [hf.setProbed]
      by_cases hs : s1 = 0
      · rw [if_pos hs] at he ⊢
        obtain ⟨w2, h2, he⟩ := bind_eq_ok.1 he
        cases he
        rw [hf.close h2]
        rfl
      · rw [if_neg hs] at he ⊢
        cases he
        rfl

private theorem Lifts.receiveProbed {size : Nat} {bs : Bytes}
    (he : receiveProbedFromHandle vt h size w = .ok (r, bs, w')) :
    receiveProbedFromHandle vt h size (f w) = .ok (r, bs, f w') := by
  unfold receiveProbedFromHandle at he ⊢
  obtain ⟨b, hb, he⟩ := bind_eq_ok.1 he
  dsimp only at he ⊢
  rw [hf.base, hb, bind_ok]
  by_cases hs : size < b.probed.2
  · rw [if_pos hs] at he ⊢
    cases he
    rfl
  · rw [if_neg hs] at he ⊢
    rw [hf.setProbed]
    exact hf.receive he

private theorem Lifts.receiveFromHandle {size : Nat} {bs : Bytes}
    (he : receiveFromHandle vt h size w = .ok (r, bs, w')) :
    Mtcl.receiveFromHandle vt h size (f w) = .ok (r, bs, f w') := by
  unfold Mtcl.receiveFromHandle at he ⊢
  obtain ⟨b, hb, he⟩ := bind_eq_ok.1 he
  dsimp only at he ⊢
  rw [hf.base, hb, bind_ok]
  by_cases hp : (!b.probed.1) = true
  · rw [if_pos hp] at he ⊢
    obtain ⟨⟨r1, s1, w1⟩, h1, he⟩ := bind_eq_ok.1 he
    rw [hf.probeHandle h1, bind_ok]
    cases r1 with
    | error e =>
      cases he
      rfl
    | ok n =>
      cases n with
      | zero =>
        cases he
        rfl
      | succ n => exact hf.receiveProbed he
  · rw [if_neg hp] at he ⊢
    by_cases hrd : b.closedRd = true
    · rw [if_pos hrd] at he ⊢
      cases he
      rfl
    · rw [if_neg hrd] at he ⊢
      exact hf.receiveProbed he

end

private theorem lifts_more (items : List Item) : Lifts (Link.vt ()) (fun l => l.more items) where
  base _ := rfl
  setProbed _ _ := rfl
  probe := by
    intro size l r sz l' h
    obtain ⟨b, q, o⟩ := l
    cases q with
    | nil => cases h
    | cons item q =>
      cases item with
      | header n =>
        cases h
        rfl
      | payload bs => cases h
  receive := by
    intro size l r bs l' h
    obtain ⟨b, q, o⟩ := l
    cases q with
    | nil => cases h
    | cons item q =>
      cases item with
      | header n => cases h
      | payload m =>
        change (if size < m.length then _ else _) = _ at h
        show (if size < m.length then _ else _) = _
        by_cases hs : size < m.length
        · rw [if_pos hs] at h
          cases h
        · rw [if_neg hs] at h ⊢
          cases h
          rfl
  close := by
    intro wr rd l l' h
    cases h
    unfold Link.vt Link.handle Link.more
    dsimp only
    split
    · rfl
    · rfl

variable {garbage : Nat → UInt8}

private theorem exec_more {a : Instr} {c c' : Caller} {l l' : Link} (h : a.exec garbage c l = .ok (c', l'))
    (items : List Item) : a.exec garbage c (l.more items) = .ok (c', l'.more items) := by
  have hl := lifts_more items
  cases a with
  | enter rbuf | leave =>
    cases h
    rfl
  | sendRank i | sendBlock i sbuf | sendBlocks i msglen =>
    cases h
    rfl
  | receiveRank i =>
    obtain ⟨⟨r, bs, l1⟩, h1, h⟩ := bind_eq_ok.1 h
    cases h
    exact bind_eq_ok.2 ⟨_, hl.receiveFromHandle h1, rfl⟩
  | receiveBlock i msglen =>
    obtain ⟨⟨r, bs, l1⟩, h1, h⟩ := bind_eq_ok.1 h
    obtain ⟨rbuf, h2, h⟩ := bind_eq_ok.1 h
    cases h
    exact bind_eq_ok.2 ⟨_, hl.receiveFromHandle h1, bind_eq_ok.2 ⟨rbuf, h2, rfl⟩⟩
  | copyBlock sbuf =>
    obtain ⟨rbuf, h2, h⟩ := bind_eq_ok.1 h
    cases h
    exact bind_eq_ok.2 ⟨rbuf, h2, rfl⟩
  | probeBlocks i =>
    obtain ⟨⟨r, sz, l1⟩, h1, h⟩ := bind_eq_ok.1 h
    cases h
    exact bind_eq_ok.2 ⟨_, hl.probeHandle h1, rfl⟩
  | receiveBlocks i =>
    obtain ⟨⟨r, bs, l1⟩, h1, h⟩ := bind_eq_ok.1 h
    obtain ⟨rbuf, h2, h⟩ := bind_eq_ok.1 h
    cases h
    exact bind_eq_ok.2 ⟨_, hl.receiveFromHandle h1, bind_eq_ok.2 ⟨rbuf, h2, rfl⟩⟩

namespace Oob

variable {s s' : Oob} {p q : Option Nat}

theorem step_iff : Step garbage p s s' ↔
    ∃ a code c l, (s.callers p).code = a :: code ∧
      a.exec garbage { s.callers p with code := code } (s.link p a.handle) = .ok (c, l) ∧
        s' = s.put p a.handle c l := by
  unfold Step step
  cases hcode : (s.callers p).code with
  | nil =>
    constructor
    · intro h
      cases h
    · rintro ⟨a, code, c, l, h, -⟩
      cases h
  | cons a code =>
    constructor
    · intro h
      obtain ⟨⟨c, l⟩, h1, h⟩ := bind_eq_ok.1 h
      cases h
      exact ⟨a, code, c, l, rfl, h1, rfl⟩
    · rintro ⟨a', code', c, l, h, h1, rfl⟩
      cases h
      exact bind_eq_ok.2 ⟨(c, l), h1, rfl⟩

private theorem peer_ne (h : p ≠ q) (i j : Nat) : End.peer (p, i) ≠ End.peer (q, j) := by
  intro he
  cases p with
  | none =>
    cases q with
    | none => exact h rfl
    | some j => cases he
  | some i =>
    cases q with
    | none => cases he
    | some j =>
      cases he
      exact h rfl

private theorem peer_ne_self (e : End) : e.peer ≠ e := by
  obtain ⟨p, i⟩ := e
  cases p with
  | none => exact nofun
  | some j => exact nofun

private theorem put_queues (i : Nat) (c : Caller) (l : Link) (x : End) :
    (s.put p i c l).queues x =
      if x = End.peer (p, i) then s.queues x ++ l.outgoing else if x = (p, i) then l.incoming else s.queues x := by
  show Function.update (Function.update s.queues (p, i) l.incoming) (End.peer (p, i)) _ x = _
  by_cases h1 : x = End.peer (p, i)
  · subst h1
    rw [Function.update_self, if_pos rfl]
  · rw [Function.update_of_ne h1, if_neg h1]
    by_cases h2 : x = (p, i)
    · subst h2
      rw [Function.update_self, if_pos rfl]
    · rw [Function.update_of_ne h2, if_neg h2]

/-- What another member has sent is behind what has arrived before. -/
private theorem put_link (h : p ≠ q) (i j : Nat) (c : Caller) (l : Link) :
    (s.put p i c l).link q j = (s.link q j).more (if (q, j) = End.peer (p, i) then l.outgoing else []) := by
  have hne : ((q, j) : End) ≠ (p, i) := fun he => h (congrArg Prod.fst he).symm
  have hbase : (s.put p i c l).bases (q, j) = s.bases (q, j) := Function.update_of_ne hne ..
  unfold link Link.more
  rw [hbase, put_queues, if_neg hne]
  by_cases hp : ((q, j) : End) = End.peer (p, i)
  · rw [if_pos hp, if_pos hp]
  · rw [if_neg hp, if_neg hp, List.append_nil]

private theorem put_comm (h : p ≠ q) (i j : Nat) (c d : Caller) (l m : Link) :
    (s.put p i c l).put q j d (m.more (if (q, j) = End.peer (p, i) then l.outgoing else [])) =
      (s.put q j d m).put p i c (l.more (if (p, i) = End.peer (q, j) then m.outgoing else [])) := by
  have hne : ((q, j) : End) ≠ (p, i) := fun he => h (congrArg Prod.fst he).symm
  have hpeer := peer_ne h i j
  have hcallers : Function.update (Function.update s.callers p c) q d =
      Function.update (Function.update s.callers q d) p c :=
    Function.update_comm h ..
  have hbases : Function.update (Function.update s.bases (p, i) l.base) (q, j) m.base =
      Function.update (Function.update s.bases (q, j) m.base) (p, i) l.base := Function.update_comm (Ne.symm hne) ..
  have hqueues : ((s.put p i c l).put q j d (m.more (if (q, j) = End.peer (p, i) then l.outgoing else []))).queues =
      ((s.put q j d m).put p i c (l.more (if (p, i) = End.peer (q, j) then m.outgoing else []))).queues := by
    funext x
    rw [put_queues, put_queues, put_queues, put_queues]
    unfold Link.more
    dsimp only
    by_cases h1 : x = End.peer (p, i)
    · subst h1
      rw [if_neg hpeer, if_pos rfl, if_pos rfl, if_neg hpeer]
      by_cases h2 : End.peer (p, i) = (q, j)
      · rw [if_pos h2, if_pos h2, if_pos h2.symm]
      · rw [if_neg h2, if_neg h2]
    · by_cases h2 : x = End.peer (q, j)
      · subst h2
        rw [if_pos rfl, if_neg h1, if_neg h1, if_pos rfl]
        by_cases h3 : End.peer (q, j) = (p, i)
        · rw [if_pos h3, if_pos h3, if_pos h3.symm]
        · rw [if_neg h3, if_neg h3]
      · rw [if_neg h2, if_neg h1, if_neg h1, if_neg h2]
        by_cases h3 : x = (q, j)
        · subst h3
          rw [if_pos rfl, if_neg hne, if_neg h1, if_pos rfl, List.append_nil]
        · rw [if_neg h3, if_neg h3]
          by_cases h4 : x = (p, i)
          · subst h4
            rw [if_pos rfl, if_pos rfl, if_neg h2, List.append_nil]
          · rw [if_neg h4, if_neg h4]
  exact Oob.ext hcallers hbases hqueues

/-- The steps of two members can be done in either order. -/
theorem step_commutes : Runs.Commutes (Step garbage) := by
  intro p q s a b ha hb
  by_cases hpq : p = q
  · subst hpq
    unfold Step at ha hb
    rw [ha] at hb
    exact Or.inl ⟨rfl, Except.ok.inj hb⟩
  · obtain ⟨i, code, c, l, hcode, hexec, rfl⟩ := step_iff.1 ha
    obtain ⟨j, code', d, m, hcode', hexec', rfl⟩ := step_iff.1 hb
    have hq : (s.put p i.handle c l).callers q = s.callers q := Function.update_of_ne (Ne.symm hpq) ..
    have hp : (s.put q j.handle d m).callers p = s.callers p := Function.update_of_ne hpq ..
    refine Or.inr ⟨_, step_iff.2 ⟨j, code', d, _, by rw [hq, hcode'], ?_, rfl⟩,
      step_iff.2 ⟨i, code, c, _, by rw [hp, hcode], ?_, put_comm hpq ..⟩⟩
    · rw [hq, put_link hpq]
      exact exec_more hexec' _
    · rw [hp, put_link (Ne.symm hpq)]
      exact exec_more hexec _

/-! ### One run -/

/-- Nothing is on its way. -/
def rest (f : Option Nat → Caller) : Oob := { callers := f }

/-- There is a run between two such states. -/
private def Leads (garbage : Nat → UInt8) (f g : Option Nat → Caller) : Prop :=
  ∃ n, Runs.Steps (Step garbage) n (rest f) (rest g)

private theorem Leads.trans {f g h : Option Nat → Caller} (hfg : Leads garbage f g) (hgh : Leads garbage g h) :
    Leads garbage f h := by
  obtain ⟨n, hn⟩ := hfg
  obtain ⟨m, hm⟩ := hgh
  exact ⟨n + m, hn.trans hm⟩

section

variable {f : Option Nat → Caller} {a b : Instr} {T U : List Instr} {c d : Caller}

private theorem moved_callers (h : p ≠ q) : Function.update (Function.update f p c) q d p = c ∧
    Function.update (Function.update f p c) q d q = d ∧
      ∀ x, x ≠ p → x ≠ q → Function.update (Function.update f p c) q d x = f x := by
  refine ⟨?_, Function.update_self .., fun x hp hq => ?_⟩
  · rw [Function.update_of_ne h, Function.update_self]
  · rw [Function.update_of_ne hq, Function.update_of_ne hp]

/-- A member does something in its buffers. -/
private theorem leads_local (garbage : Nat → UInt8) {x : Caller} (hp : f p = x) (hx : x.code = a :: T)
    (ha : ∀ l, a.exec garbage { x with code := T } l = .ok (c, l)) :
    ∃ g, Leads garbage f g ∧ g p = c ∧ ∀ x, x ≠ p → g x = f x := by
  subst hp
  refine ⟨Function.update f p c, ?_, Function.update_self .., fun x hx => Function.update_of_ne hx ..⟩
  refine ⟨1, .one p (step_iff.2 ⟨a, T, c, _, hx, ha _, ?_⟩)⟩
  have hput : (fun _ => []) = ((rest f).put p a.handle c ((rest f).link p a.handle)).queues := by
    funext x
    rw [put_queues]
    split
    · rfl
    · split
      · rfl
      · rfl
  have hbases : (fun _ => {}) = ((rest f).put p a.handle c ((rest f).link p a.handle)).bases :=
    (Function.update_eq_self (p, a.handle) (rest f).bases).symm
  exact Oob.ext rfl hbases hput

/-- The state when a message has been sent. -/
private def posted (f : Option Nat → Caller) (p : Option Nat) (i : Nat) (c : Caller) (m : Bytes) : Oob :=
  (rest f).put p i c (((rest f).link p i).sent m)

variable {i j : Nat} {m : Bytes} (hpeer : End.peer (p, i) = (q, j))

include hpeer

private theorem ne_of_peer : p ≠ q := by
  rintro rfl
  cases p with
  | none => cases hpeer
  | some k => cases hpeer

private theorem posted_link : (posted f p i c m).link q j = Link.arrived m := by
  have h := put_link (s := rest f) (ne_of_peer hpeer) i j c (((rest f).link p i).sent m)
  rw [if_pos hpeer.symm] at h
  exact h

private theorem posted_callers : (posted f p i c m).callers q = f q :=
  Function.update_of_ne (Ne.symm (ne_of_peer hpeer)) ..

/-- Nothing is on its way when the message has been received. -/
private theorem posted_received : (posted f p i c m).put q j d {} = rest
    (Function.update (Function.update f p c) q d) := by
  have hqueues : (fun _ => []) = ((posted f p i c m).put q j d {}).queues := by
    unfold posted
    funext x
    rw [put_queues, put_queues, hpeer]
    by_cases hx : x = (q, j)
    · rw [if_neg (by rw [hx]; exact Ne.symm (peer_ne_self _)), if_pos hx]
    · rw [if_neg hx, if_neg hx]
      split
      · split
        · rfl
        · rfl
      · split
        · rfl
        · rfl
  have hbases : (fun _ => {}) = ((posted f p i c m).put q j d {}).bases := by
    show _ = Function.update (Function.update (rest f).bases (p, i) ((rest f).bases (p, i))) (q, j) _
    rw [Function.update_eq_self]
    exact (Function.update_eq_self (q, j) (rest f).bases).symm
  exact Oob.ext rfl hbases.symm hqueues.symm

omit hpeer

/-- A member sends a message, and the one at the other end receives it. -/
private theorem leads_message (garbage : Nat → UInt8) {x y : Caller} (hp : f p = x) (hq : f q = y)
    (hx : x.code = a :: T) (hy : y.code = b :: U) (hpeer : End.peer (p, a.handle) = (q, b.handle))
    (ha : ∀ l, a.exec garbage { x with code := T } l = .ok (c, l.sent m))
    (hb : b.exec garbage { y with code := U } (Link.arrived m) = .ok (d, {})) :
    ∃ g, Leads garbage f g ∧ g p = c ∧ g q = d ∧ ∀ x, x ≠ p → x ≠ q → g x = f x := by
  subst hp hq
  refine ⟨_, ?_, moved_callers (ne_of_peer hpeer)⟩
  have h1 : Step garbage p (rest f) (posted f p a.handle c m) := step_iff.2 ⟨a, T, c, _, hx, ha _, rfl⟩
  have h2 : Step garbage q (posted f p a.handle c m) ((posted f p a.handle c m).put q b.handle d {}) := by
    refine step_iff.2 ⟨b, U, d, {}, by rw [posted_callers hpeer, hy], ?_, rfl⟩
    rw [posted_callers hpeer, posted_link hpeer]
    exact hb
  rw [posted_received hpeer] at h2
  exact ⟨2, (Runs.Steps.one p h1).trans (.one q h2)⟩

/-- A member sends a message, and the one at the other end looks at its size before it receives it. -/
private theorem leads_probed (garbage : Nat → UInt8) {x y d' : Caller} {b' : Instr} {l : Link}
    (hp : f p = x) (hq : f q = y) (hx : x.code = a :: T) (hy : y.code = b :: b' :: U)
    (hpeer : End.peer (p, a.handle) = (q, b.handle)) (hsame : b'.handle = b.handle)
    (ha : ∀ l, a.exec garbage { x with code := T } l = .ok (c, l.sent m))
    (hb : b.exec garbage { y with code := b' :: U } (Link.arrived m) = .ok (d, l)) (hl : l.outgoing = [])
    (hd : d.code = b' :: U) (hb' : b'.exec garbage { d with code := U } l = .ok (d', {})) :
    ∃ g, Leads garbage f g ∧ g p = c ∧ g q = d' ∧ ∀ x, x ≠ p → x ≠ q → g x = f x := by
  subst hp hq
  refine ⟨_, ?_, moved_callers (ne_of_peer hpeer)⟩
  let s1 := posted f p a.handle c m
  have h1 : Step garbage p (rest f) s1 := step_iff.2 ⟨a, T, c, _, hx, ha _, rfl⟩
  have h2 : Step garbage q s1 (s1.put q b.handle d l) := by
    refine step_iff.2 ⟨b, b' :: U, d, l, by rw [posted_callers hpeer, hy], ?_, rfl⟩
    rw [posted_callers hpeer, posted_link hpeer]
    exact hb
  have hlink : (s1.put q b.handle d l).link q b.handle = l := by
    unfold link
    rw [put_queues, if_neg (Ne.symm (peer_ne_self _)), if_pos rfl]
    show Link.mk (Function.update s1.bases (q, b.handle) l.base (q, b.handle)) _ _ = _
    rw [Function.update_self, ← hl]
  have hput : (s1.put q b.handle d l).put q b.handle d' {} = s1.put q b.handle d' {} := by
    have hqueues : ((s1.put q b.handle d l).put q b.handle d' {}).queues = (s1.put q b.handle d' {}).queues := by
      funext x
      rw [put_queues, put_queues, put_queues, hl]
      by_cases hx : x = End.peer (q, b.handle)
      · rw [if_pos hx, if_pos hx, if_pos hx, List.append_nil]
      · rw [if_neg hx, if_neg hx, if_neg hx]
        split
        · rfl
        · rfl
    have hcallers : Function.update (Function.update s1.callers q d) q d' = Function.update s1.callers q d' :=
      Function.update_idem ..
    have hbases : Function.update (Function.update s1.bases (q, b.handle) l.base) (q, b.handle) {} =
        Function.update s1.bases (q, b.handle) {} := Function.update_idem ..
    exact Oob.ext hcallers hbases hqueues
  have h3 : Step garbage q (s1.put q b.handle d l) (s1.put q b.handle d' {}) := by
    have hcallers : (s1.put q b.handle d l).callers q = d := Function.update_self ..
    refine step_iff.2 ⟨b', U, d', {}, by rw [hcallers, hd], ?_, ?_⟩
    · rw [hcallers, hsame, hlink]
      exact hb'
    · rw [hsame, hput]
  rw [posted_received hpeer] at h3
  exact ⟨3, ((Runs.Steps.one p h1).trans (.one q h2)).trans (.one q h3)⟩

end

/-! ### A round -/

section

variable {m : Bytes} {cap : Nat} (hm : m ≠ [])

include hm

private theorem probe_arrived (size : Nat) :
    probeHandle Link.vt () size true (Link.arrived m) =
      .ok (.ok sizeofSizeT, m.length, { base := { probed := (true, m.length) }, incoming := [.payload m] }) := by
  have hlen : m.length ≠ 0 := fun h => hm (List.length_eq_zero_iff.1 h)
  unfold probeHandle
  dsimp only
  show (if m.length = 0 then _ else _) = _
  rw [if_neg hlen]
  rfl

omit hm in
private theorem receiveProbed_arrived (h : m.length ≤ cap) :
    receiveProbedFromHandle Link.vt () cap { base := { probed := (true, m.length) }, incoming := [.payload m] } =
      .ok (.ok m.length, m, {}) := by
  unfold receiveProbedFromHandle
  show (if cap < m.length then _ else _) = _
  rw [if_neg (Nat.not_lt.2 h), Nat.min_eq_left h]
  show (if m.length < m.length then _ else _) = _
  rw [if_neg (Nat.lt_irrefl _)]
  rfl

private theorem receive_arrived (h : m.length ≤ cap) :
    receiveFromHandle Link.vt () cap (Link.arrived m) = .ok (.ok m.length, m, {}) := by
  unfold receiveFromHandle
  show (probeHandle Link.vt () 0 true (Link.arrived m) >>= _) = _
  rw [probe_arrived hm, bind_ok]
  exact receiveProbed_arrived h

end

section

variable {f : Option Nat → Caller} {R M : Caller} {T U : List Instr} {n s i : Nat} {rb : Bytes}

private theorem rank_arrives {x : Caller} {k r : Nat} (hr : r < 2 ^ 32) :
    (Instr.receiveRank k).exec garbage x
      (Link.arrived (Words.toLE sizeofInt r)) = .ok ({ x with remoteRank := r }, {}) := by
  have hlen := Words.length_toLE sizeofInt r
  have hne : Words.toLE sizeofInt r ≠ [] := by
    intro h
    rw [h] at hlen
    cases hlen
  refine bind_eq_ok.2 ⟨_, receive_arrived hne (Nat.le_of_eq hlen), ?_⟩
  show Except.ok _ = Except.ok _
  rw [ofLE_overlay garbage hr]

/-- The root gets the rank and the block of a member. -/
private theorem leads_exchange (garbage : Nat → UInt8) (hn : n ≤ 2 ^ 31) (hsize : n * s < 2 ^ 64) (hpos : 0 < s)
    {D : Nat → Bytes} (hroot : R.rank < n) (hM : M.rank < n) (hD : (D M.rank).length = s)
    (hbuf : n * s ≤ R.rbuf.length) (hfR : f none = R) (hfM : f (some i) = M) (hR : R.code = exchange s i ++ T)
    (hcode : M.code = .enter rb :: .receiveRank 0 :: .sendRank 0 :: .sendBlock 0 (D M.rank) :: U) :
    ∃ g, Leads garbage f g ∧
      g none = { R with code := T, remoteRank := M.rank, rbuf := Blocks.splice (M.rank * s) (D M.rank) R.rbuf } ∧
      g (some i) = { M with code := U, remoteRank := R.rank, rbuf := rb } ∧
      ∀ x, x ≠ none → x ≠ some i → g x = f x := by
  have hlt : 2 ^ 31 < 2 ^ 32 := by decide
  have hne : D M.rank ≠ [] := by
    intro h
    rw [h] at hD
    exact absurd hD (Nat.ne_of_lt hpos)
  let M1 : Caller := { M with
    code := .receiveRank 0 :: .sendRank 0 :: .sendBlock 0 (D M.rank) :: U
    rbuf := rb }
  obtain ⟨f1, l1, h1M, o1⟩ := leads_local garbage (c := M1) hfM hcode fun l => rfl
  have h1R : f1 none = R := (o1 none nofun).trans hfR
  let R2 : Caller := { R with code := .receiveRank i :: .receiveBlock i s :: T }
  let M2 : Caller := { M1 with
    code := .sendRank 0 :: .sendBlock 0 (D M.rank) :: U
    remoteRank := R.rank }
  obtain ⟨f2, l2, h2R, h2M, o2⟩ := leads_message garbage (c := R2) (d := M2)
    (m := Words.toLE sizeofInt R.rank) h1R h1M hR rfl
    rfl (fun l => rfl) (rank_arrives (by omega))
  let R3 : Caller := { R with
    code := .receiveBlock i s :: T
    remoteRank := M.rank }
  obtain ⟨f3, l3, h3M, h3R, o3⟩ := leads_message garbage
    (c := { M2 with code := .sendBlock 0 (D M.rank) :: U }) (d := R3)
    (m := Words.toLE sizeofInt M.rank) h2M h2R rfl rfl rfl (fun l => rfl) (rank_arrives (by omega))
  have hstore : (Instr.receiveBlock i s).exec garbage { R3 with code := T } (Link.arrived (D M.rank)) =
      .ok ({ R3 with code := T, rbuf := Blocks.splice (M.rank * s) (D M.rank) R.rbuf }, {}) := by
    refine bind_eq_ok.2 ⟨_, receive_arrived hne (Nat.le_of_eq hD), ?_⟩
    exact bind_eq_ok.2 ⟨_, store_block hn hsize hM hD hpos hbuf, rfl⟩
  obtain ⟨f4, l4, h4M, h4R, o4⟩ := leads_message garbage (c := { M2 with code := U })
    (m := D M.rank) h3M h3R rfl rfl rfl (fun l => rfl) hstore
  refine ⟨f4, ((l1.trans l2).trans l3).trans l4, h4R, h4M, fun x hxn hxi => ?_⟩
  rw [o4 x hxi hxn, o3 x hxi hxn, o2 x hxn hxi, o1 x hxi]

private theorem leads_collect (garbage : Nat → UInt8) (hn : n ≤ 2 ^ 31) (hsize : n * s < 2 ^ 64) (hpos : 0 < s)
    {D : Nat → Bytes} {M : Nat → Caller} {U : Nat → List Instr} {rb : Nat → Bytes} {is : List Nat}
    (his : is.Nodup) (hroot : R.rank < n) (hM : ∀ i ∈ is, (M i).rank < n ∧ (D (M i).rank).length = s)
    (hbuf : n * s ≤ R.rbuf.length) (hfR : f none = R) (hfM : ∀ i ∈ is, f (some i) = M i)
    (hR : R.code = is.flatMap (exchange s) ++ T) (hcode : ∀ i ∈ is, (M i).code =
      .enter (rb i) :: .receiveRank 0 :: .sendRank 0 :: .sendBlock 0 (D (M i).rank) :: U i) :
    ∃ g r, Leads garbage f g ∧
      g none = { R with code := T, remoteRank := r, rbuf := Blocks.fill s D (is.map fun i => (M i).rank) R.rbuf } ∧
      (∀ i ∈ is, g (some i) = { M i with code := U i, remoteRank := R.rank, rbuf := rb i }) ∧
      ∀ i, i ∉ is → g (some i) = f (some i) := by
  induction is generalizing f R with
  | nil =>
    refine ⟨f, R.remoteRank, ⟨0, .refl⟩, ?_, fun i hi => absurd hi List.not_mem_nil, fun i _ => rfl⟩
    rw [hfR]
    cases R
    cases hR
    rfl
  | cons i is ih =>
    obtain ⟨hnot, his⟩ := List.nodup_cons.1 his
    obtain ⟨⟨hMi, hDi⟩, hM⟩ := List.forall_mem_cons.1 hM
    obtain ⟨hfi, hfM⟩ := List.forall_mem_cons.1 hfM
    obtain ⟨hci, hcode⟩ := List.forall_mem_cons.1 hcode
    rw [List.flatMap_cons, List.append_assoc] at hR
    obtain ⟨f1, l1, h1R, h1M, o1⟩ := leads_exchange garbage hn hsize hpos hroot hMi hDi hbuf hfR hfi hR hci
    have hroom := (Blocks.room hMi hDi hbuf).1
    obtain ⟨g, r, l2, h2R, h2M, o2⟩ := ih his (R := { R with
        code := is.flatMap (exchange s) ++ T
        remoteRank := (M i).rank
        rbuf := Blocks.splice ((M i).rank * s) (D (M i).rank) R.rbuf }) hroot hM
      (by rw [Blocks.length_splice hroom]; exact hbuf) h1R
      (fun j hj => (o1 (some j) nofun fun h => hnot (Option.some.inj h ▸ hj)).trans (hfM j hj)) rfl hcode
    refine ⟨g, r, l1.trans l2, h2R, fun j hj => ?_, fun j hj => ?_⟩
    · rcases List.mem_cons.1 hj with rfl | hj
      · rw [o2 j hnot, h1M]
      · exact h2M j hj
    · obtain ⟨hne, hj⟩ := not_or.1 (List.mem_cons.not.1 hj)
      rw [o2 j hj]
      exact o1 (some j) nofun fun h => hne (Option.some.inj h)

/-- The root sends the blocks to some members, which return. -/
private theorem leads_distribute (garbage : Nat → UInt8) {N : Nat → Caller} {U : Nat → List Instr}
    {is : List Nat} {buf : Bytes} (his : is.Nodup) (hne : buf ≠ []) (hbuf : R.rbuf.take (s * R.size) = buf)
    (hN : ∀ i ∈ is, (N i).rbuf.length = buf.length) (hfR : f none = R) (hfN : ∀ i ∈ is, f (some i) = N i)
    (hR : R.code = is.map (fun i => Instr.sendBlocks i s) ++ T)
    (hcode : ∀ i ∈ is, (N i).code = .probeBlocks 0 :: .receiveBlocks 0 :: .leave :: U i) :
    ∃ g, Leads garbage f g ∧ g none = { R with code := T } ∧
      (∀ i ∈ is, g (some i) =
        { N i with code := U i, sz := buf.length, rbuf := buf, results := (N i).results ++ [buf] }) ∧
      ∀ i, i ∉ is → g (some i) = f (some i) := by
  induction is generalizing f R with
  | nil =>
    refine ⟨f, ⟨0, .refl⟩, ?_, fun i hi => absurd hi List.not_mem_nil, fun i _ => rfl⟩
    rw [hfR]
    cases R
    cases hR
    rfl
  | cons i is ih =>
    obtain ⟨hnot, his⟩ := List.nodup_cons.1 his
    obtain ⟨hNi, hN⟩ := List.forall_mem_cons.1 hN
    obtain ⟨hfi, hfN⟩ := List.forall_mem_cons.1 hfN
    obtain ⟨hci, hcode⟩ := List.forall_mem_cons.1 hcode
    let N1 : Caller := { N i with
      code := .receiveBlocks 0 :: .leave :: U i
      sz := buf.length }
    let N2 : Caller := { N i with
      code := .leave :: U i
      sz := buf.length
      rbuf := buf }
    let R1 : Caller := { R with code := is.map (fun i => Instr.sendBlocks i s) ++ T }
    have hprobe : (Instr.probeBlocks 0).exec garbage { N i with code := .receiveBlocks 0 :: .leave :: U i }
        (Link.arrived buf) =
        .ok (N1, { base := { probed := (true, buf.length) }, incoming := [.payload buf] }) :=
      bind_eq_ok.2 ⟨_, probe_arrived hne _, rfl⟩
    have hstore : store (N i).rbuf 0 buf = .ok buf := by
      unfold store
      rw [if_neg hne, if_pos (by omega)]
      unfold Blocks.splice
      rw [List.take_zero, List.drop_eq_nil_of_le (by omega), List.append_nil]
      rfl
    have hreceive : (Instr.receiveBlocks 0).exec garbage { N1 with code := .leave :: U i }
        { base := { probed := (true, buf.length) }, incoming := [.payload buf] } = .ok (N2, {}) := by
      have hfrom : receiveFromHandle Link.vt () buf.length
          { base := { probed := (true, buf.length) }, incoming := [.payload buf] } = .ok (.ok buf.length, buf, {}) := by
        show receiveProbedFromHandle Link.vt () buf.length _ = _
        exact receiveProbed_arrived (Nat.le_refl _)
      exact bind_eq_ok.2 ⟨_, hfrom, bind_eq_ok.2 ⟨_, hstore, rfl⟩⟩
    have hsend : ∀ l, (Instr.sendBlocks i s).exec garbage R1 l = .ok (R1, l.sent buf) := by
      intro l
      show Except.ok (R1, l.sent (R.rbuf.take (s * R.size))) = _
      rw [hbuf]
    obtain ⟨f1, l1, h1R, h1N, o1⟩ := leads_probed garbage hfR hfi hR hci rfl rfl hsend hprobe rfl rfl hreceive
    obtain ⟨f2, l2, h2N, o2⟩ := leads_local garbage
      (c := { N2 with code := U i, results := (N i).results ++ [buf] }) h1N rfl fun l => rfl
    have hkeep : ∀ x, x ≠ none → x ≠ some i → f2 x = f x := fun x hn hi => (o2 x hi).trans (o1 x hn hi)
    obtain ⟨g, l3, h3R, h3N, o3⟩ := ih his (R := R1) hbuf hN ((o2 none nofun).trans h1R)
      (fun j hj => (hkeep (some j) nofun fun h => hnot (Option.some.inj h ▸ hj)).trans (hfN j hj)) rfl hcode
    refine ⟨g, (l1.trans l2).trans l3, h3R, fun j hj => ?_, fun j hj => ?_⟩
    · rcases List.mem_cons.1 hj with rfl | hj
      · rw [o3 j hnot, h2N]
      · exact h3N j hj
    · obtain ⟨hne, hj⟩ := not_or.1 (List.mem_cons.not.1 hj)
      rw [o3 j hj]
      exact hkeep (some j) nofun fun h => hne (Option.some.inj h)

end

/-- What is known of a member between two calls. -/
private structure At (x : Caller) (rank size : Nat) (code : List Instr) (results : List Bytes) : Prop where
  rank : x.rank = rank
  size : x.size = size
  code : x.code = code
  results : x.results = results

/-- The members have returned from some calls, and have others to make. -/
private structure Between (t : OobTeam) (f : Option Nat → Caller) (calls : List (OobCall t.size))
    (results : List Bytes) : Prop where
  root : At (f none) t.rootRank t.size (t.codeOf true t.rootRank calls) results
  member : ∀ i < t.size - 1, At (f (some i)) (t.rankOf i) t.size (t.codeOf false (t.rankOf i) calls) results
  other : ∀ i, ¬ i < t.size - 1 → (f (some i)).code = []

/-- What the root has when it has stored the blocks of all members. -/
private theorem gathered_eq {t : OobTeam} (c : OobCall t.size) :
    ((List.range t.size).flatMap c.block).length = t.size * c.msglen ∧
      Blocks.splice (t.rootRank * c.msglen) (c.block t.rootRank)
        (Blocks.fill c.msglen c.block ((List.range (t.size - 1)).map t.rankOf) (c.rbuf t.rootRank)) =
          (List.range t.size).flatMap c.block := by
  have hmem : ∀ r, r ∈ t.rootRank :: (List.range (t.size - 1)).map t.rankOf ↔ r < t.size :=
    fun r => t.ranks.mem_iff.trans List.mem_range
  have hbuf := c.length_rbuf t.rootRank ((hmem _).1 List.mem_cons_self)
  have hperm : ∀ r, r ∈ (List.range (t.size - 1)).map t.rankOf ++ [t.rootRank] ↔ r < t.size := by
    intro r
    rw [← hmem r, List.mem_append, List.mem_singleton, List.mem_cons, or_comm]
  have hblocks : ∀ i ∈ (List.range (t.size - 1)).map t.rankOf ++ [t.rootRank],
      i < t.size ∧ (c.block i).length = c.msglen :=
    fun i hi => ⟨(hperm i).1 hi, c.length_block i ((hperm i).1 hi)⟩
  have hfill := Blocks.fill_eq hblocks (fun i hi => (hperm i).2 hi) (Nat.le_of_eq hbuf.symm)
  rw [List.drop_eq_nil_of_le (Nat.le_of_eq hbuf), List.append_nil] at hfill
  have hlength := Blocks.length_fill hblocks (Nat.le_of_eq hbuf.symm)
  rw [hfill, hbuf] at hlength
  refine ⟨hlength, Eq.trans ?_ hfill⟩
  unfold Blocks.fill
  rw [List.foldl_append]
  rfl

private theorem Between.call (garbage : Nat → UInt8) {t : OobTeam} {c : OobCall t.size} {calls : List (OobCall t.size)}
    {results : List Bytes} {f : Option Nat → Caller} (h : Between t f (c :: calls) results) :
    ∃ g, Leads garbage f g ∧ Between t g calls (results ++ [(List.range t.size).flatMap c.block]) := by
  have hmem : ∀ r, r ∈ t.rootRank :: (List.range (t.size - 1)).map t.rankOf ↔ r < t.size :=
    fun r => t.ranks.mem_iff.trans List.mem_range
  have hroot : t.rootRank < t.size := (hmem _).1 List.mem_cons_self
  have hrank : ∀ i < t.size - 1, t.rankOf i < t.size :=
    fun i hi => (hmem _).1 (List.mem_cons_of_mem _ (List.mem_map_of_mem (List.mem_range.2 hi)))
  have hn : t.size ≤ 2 ^ 31 := Nat.le_of_lt t.size_lt
  have his : (List.range (t.size - 1)).Nodup := List.nodup_range
  obtain ⟨hlen, hgather⟩ := gathered_eq c
  have hrankM : ∀ i ∈ List.range (t.size - 1), (f (some i)).rank = t.rankOf i :=
    fun i hi => (h.member i (List.mem_range.1 hi)).rank
  have hranks : (List.range (t.size - 1)).map (fun i => (f (some i)).rank) = (List.range (t.size - 1)).map t.rankOf :=
    List.map_congr_left hrankM
  -- the root begins, and reads from one member after the other
  let T : List Instr := (List.range (t.size - 1)).map (fun i => Instr.sendBlocks i c.msglen) ++
    .leave :: t.codeOf true t.rootRank calls
  let R1 : Caller := { f none with
    code := (List.range (t.size - 1)).flatMap (exchange c.msglen) ++ .copyBlock (c.block t.rootRank) :: T
    rbuf := c.rbuf t.rootRank }
  have hcode : (f none).code = .enter (c.rbuf t.rootRank) :: R1.code := by
    rw [h.root.code]
    simp [OobTeam.codeOf, oobAllgather, R1, T]
  obtain ⟨f1, l1, h1R, o1⟩ := leads_local garbage (c := R1) rfl hcode fun l => rfl
  have hM : ∀ i ∈ List.range (t.size - 1),
      (f (some i)).rank < t.size ∧ (c.block (f (some i)).rank).length = c.msglen := by
    intro i hi
    have hr := hrank i (List.mem_range.1 hi)
    rw [hrankM i hi]
    exact ⟨hr, c.length_block _ hr⟩
  have hcodeM : ∀ i ∈ List.range (t.size - 1), (f (some i)).code = .enter (c.rbuf (t.rankOf i)) :: .receiveRank 0 ::
      .sendRank 0 :: .sendBlock 0 (c.block (f (some i)).rank) :: .probeBlocks 0 :: .receiveBlocks 0 :: .leave ::
        t.codeOf false (t.rankOf i) calls := by
    intro i hi
    rw [hrankM i hi, (h.member i (List.mem_range.1 hi)).code]
    rfl
  have hroot1 : R1.rank < t.size := by
    show (f none).rank < _
    rw [h.root.rank]
    exact hroot
  obtain ⟨f2, r, l2, h2R, h2M, o2⟩ := leads_collect garbage (D := c.block) hn c.length_lt c.msglen_pos his hroot1 hM
    (Nat.le_of_eq (c.length_rbuf _ hroot).symm) h1R (fun i _ => o1 (some i) nofun) rfl hcodeM
  rw [hranks] at h2R
  -- it adds its own block, and has all of them
  let R3 : Caller := { R1 with
    code := T
    remoteRank := r
    rbuf := (List.range t.size).flatMap c.block }
  have hcopy : ∀ l, (Instr.copyBlock (c.block t.rootRank)).exec garbage
      { R1 with
        code := T
        remoteRank := r
        rbuf := Blocks.fill c.msglen c.block ((List.range (t.size - 1)).map t.rankOf) R1.rbuf } l = .ok (R3, l) := by
    intro l
    have hfill : (Blocks.fill c.msglen c.block ((List.range (t.size - 1)).map t.rankOf) R1.rbuf).length =
        t.size * c.msglen := by
      rw [Blocks.length_fill (n := t.size) _ (Nat.le_of_eq (c.length_rbuf _ hroot).symm), c.length_rbuf _ hroot]
      intro j hj
      have hj := (hmem j).1 (List.mem_cons_of_mem _ hj)
      exact ⟨hj, c.length_block j hj⟩
    have hstore : store _ (blockOffset t.rootRank c.msglen) (c.block t.rootRank) = _ :=
      store_block hn c.length_lt hroot (c.length_block _ hroot) c.msglen_pos (Nat.le_of_eq hfill.symm)
    rw [show R1.rbuf = c.rbuf t.rootRank from rfl] at hstore ⊢
    rw [hgather] at hstore
    refine bind_eq_ok.2 ⟨_, ?_, rfl⟩
    show store _ (blockOffset (f none).rank (c.block t.rootRank).length) _ = _
    rw [h.root.rank, c.length_block _ hroot]
    exact hstore
  obtain ⟨f3, l3, h3R, o3⟩ := leads_local garbage (c := R3) h2R rfl hcopy
  -- the others get them
  have htake : R3.rbuf.take (c.msglen * R3.size) = (List.range t.size).flatMap c.block := by
    have hsize : R3.size = t.size := h.root.size
    rw [hsize, Nat.mul_comm, ← hlen]
    exact List.take_length
  have hne : (List.range t.size).flatMap c.block ≠ [] := by
    intro he
    have hpos := Nat.mul_pos (Nat.zero_lt_of_lt hroot) c.msglen_pos
    rw [he] at hlen
    exact absurd hlen (Nat.ne_of_lt hpos)
  have hbufM : ∀ i ∈ List.range (t.size - 1),
      (c.rbuf (t.rankOf i)).length = ((List.range t.size).flatMap c.block).length :=
    fun i hi => (c.length_rbuf _ (hrank i (List.mem_range.1 hi))).trans hlen.symm
  obtain ⟨f4, l4, h4R, h4M, o4⟩ := leads_distribute garbage his hne htake hbufM h3R
    (fun i hi => (o3 (some i) nofun).trans (h2M i hi)) rfl fun i _ => rfl
  obtain ⟨f5, l5, h5R, o5⟩ := leads_local garbage (a := .leave) (T := t.codeOf true t.rootRank calls)
    (c := { R3 with
      code := t.codeOf true t.rootRank calls
      results := (f none).results ++ [(List.range t.size).flatMap c.block] }) h4R rfl fun l => rfl
  refine ⟨f5, (((l1.trans l2).trans l3).trans l4).trans l5, ?_, fun i hi => ?_, fun i hi => ?_⟩
  · rw [h5R]
    exact ⟨h.root.rank, h.root.size, rfl, congrArg (· ++ _) h.root.results⟩
  · rw [o5 (some i) nofun, h4M i (List.mem_range.2 hi)]
    have hi' := h.member i hi
    exact ⟨hi'.rank, hi'.size, rfl, congrArg (· ++ _) hi'.results⟩
  · have hnot : i ∉ List.range (t.size - 1) := fun hm => hi (List.mem_range.1 hm)
    rw [o5 (some i) nofun, o4 i hnot, o3 (some i) nofun, o2 i hnot, o1 (some i) nofun]
    exact h.other i hi

private theorem Between.calls (garbage : Nat → UInt8) {t : OobTeam} {calls : List (OobCall t.size)}
    {results : List Bytes} {f : Option Nat → Caller} (h : Between t f calls results) : ∃ g, Leads garbage f g ∧
      Between t g [] (results ++ calls.map fun c => (List.range t.size).flatMap c.block) := by
  induction calls generalizing f results with
  | nil =>
    rw [List.map_nil, List.append_nil]
    exact ⟨f, ⟨0, .refl⟩, h⟩
  | cons c calls ih =>
    obtain ⟨f1, l1, h1⟩ := h.call garbage
    obtain ⟨g, l2, h2⟩ := ih h1
    rw [List.map_cons, List.append_cons]
    exact ⟨g, l1.trans l2, h2⟩

private theorem Between.gathered {t : OobTeam} {calls : List (OobCall t.size)} {g : Option Nat → Caller}
    (h : Between t g [] (calls.map fun c => (List.range t.size).flatMap c.block)) : t.Gathered calls (rest g) := by
  have hblocks : List.Forall₂ (fun (c : OobCall t.size) buf => buf.length = t.size * c.msglen ∧
      ∀ r < t.size, Blocks.block c.msglen r buf = c.block r) calls
      (calls.map fun c => (List.range t.size).flatMap c.block) := by
    rw [List.forall₂_map_right_iff]
    refine List.forall₂_same.2 fun c _ => ⟨(gathered_eq c).1, fun r hr => ?_⟩
    exact Blocks.block_flatMap c.length_block hr
  constructor
  · intro p
    cases p with
    | none => exact h.root.code
    | some i =>
      by_cases hi : i < t.size - 1
      · exact (h.member i hi).code
      · exact h.other i hi
  · rintro p (rfl | ⟨i, hi, rfl⟩)
    · rw [show ((rest g).callers none).results = _ from h.root.results]
      exact hblocks
    · rw [show ((rest g).callers (some i)).results = _ from (h.member i hi).results]
      exact hblocks

private theorem final_of_codes {s : Oob} (h : ∀ p, (s.callers p).code = []) : Runs.Final (Step garbage) s := by
  intro p s' hs
  obtain ⟨a, code, -, -, hcode, -⟩ := step_iff.1 hs
  rw [h p] at hcode
  cases hcode

/-- In every interleaving of the members' steps, as long as some member has not returned from all its calls
there is one that can go on, and when all have returned they have gathered the blocks of all members in every
call. -/
theorem oobAllgather_gathers {t : OobTeam} {calls : List (OobCall t.size)} {s : Oob}
    (h : Runs.Reach (· = rest (t.callers calls)) (Step garbage) s) :
    ((∃ p, (s.callers p).code ≠ []) → ∃ p s', Step garbage p s s') ∧
      ((∀ p, (s.callers p).code = []) → t.Gathered calls s) := by
  have hstart : Between t (t.callers calls) calls [] := by
    refine ⟨⟨rfl, rfl, rfl, rfl⟩, fun i hi => ?_, fun i hi => ?_⟩
    · have he : t.callers calls (some i) =
          { rank := t.rankOf i, size := t.size, code := t.codeOf false (t.rankOf i) calls } := if_pos hi
      rw [he]
      exact ⟨rfl, rfl, rfl, rfl⟩
    · have he : t.callers calls (some i) = { rank := 0, size := 0 } := if_neg hi
      rw [he]
  have hinit : ∀ s0, s0 = rest (t.callers calls) →
      ∃ n f, Runs.Steps (Step garbage) n s0 f ∧ t.Gathered calls f := by
    rintro s0 rfl
    obtain ⟨g, ⟨n, hn⟩, hg⟩ := hstart.calls garbage
    exact ⟨n, rest g, hn, hg.gathered⟩
  obtain ⟨n, f, hn, hf⟩ := h.leads step_commutes (fun f hf => final_of_codes hf.1) hinit
  constructor
  · rintro ⟨p, hp⟩
    rcases hn.progress with rfl | hstep
    · exact absurd (hf.1 p) hp
    · exact hstep
  · intro hcodes
    rcases hn.progress with rfl | ⟨p, s', hs⟩
    · exact hf
    · exact absurd hs (final_of_codes hcodes p s')

/-- A root with the rank 1 and a member with the rank 0. -/
private def twoMembers : OobTeam where
  size := 2
  size_lt := by decide
  rootRank := 1
  rankOf _ := 0
  ranks := by decide

/-- A call with blocks of one byte. -/
private def bytewise : OobCall twoMembers.size where
  msglen := 1
  msglen_pos := Nat.zero_lt_one
  block r := [UInt8.ofNat r]
  length_block _ _ := rfl
  rbuf _ := [0, 0]
  length_rbuf _ _ := rfl
  length_lt := by decide

/-- When the root waits for the rank of the member, the member can go on. -/
theorem oobAllgather_gathers_run :
    ∃ s s', Step (fun _ => 0) none (rest (twoMembers.callers [bytewise])) s ∧ Step (fun _ => 0) none s s' ∧
      s'.step (fun _ => 0) none = .error .blocked ∧ ∃ p t, Step (fun _ => 0) p s' t := by
  let s0 := rest (twoMembers.callers [bytewise])
  let T : List Instr := [.receiveRank 0, .receiveBlock 0 1, .copyBlock [1], .sendBlocks 0 1, .leave]
  let c : Caller := { rank := 1, size := 2, rbuf := [0, 0], code := .sendRank 0 :: T }
  let s1 := s0.put none 0 c (s0.link none 0)
  let s2 := s1.put none 0 { c with code := T } ((s1.link none 0).sent (Words.toLE sizeofInt 1))
  have h1 : Step (fun _ => 0) none s0 s1 := rfl
  have h2 : Step (fun _ => 0) none s1 s2 := rfl
  have hreach : Runs.Reach (· = rest (twoMembers.callers [bytewise])) (Step fun _ => 0) s2 :=
    .next none (.next none (.start rfl) h1) h2
  exact ⟨s1, s2, h1, h2, rfl, (oobAllgather_gathers hreach).1 ⟨none, nofun⟩⟩

end Oob

end Mtcl
