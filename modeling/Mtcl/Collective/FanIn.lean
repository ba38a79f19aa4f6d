import Mathlib.Algebra.Order.BigOperators.Group.List
import Mathlib.Algebra.Order.Group.Nat
import Mtcl.Collective.Context
import Mtcl.Reading

/-!
# `FanInGeneric`

The generic implementation of a fan-in.  The root polls the handles of the workers one after the other: a header is
remembered with the position of its handle, and a handle that has sent EOS is closed and erased, after which the
iterator skips one of those that are left.

`Feeds` says what a transport has to do for a worker: a non-blocking `probe` finds a whole header or nothing,
and EOS comes before the end.  `fanIn_reads` says that over such handles the root reads a merge of what the
workers send, for every order in which their messages come.
-/

namespace Mtcl

open Sources

variable {H W : Type}

/-- An object of class `FanInGeneric`; `probedIdx` is `none` for `-1`. -/
structure FanInGeneric (H : Type) where
  participants : List H
  probedIdx : Option Nat := none
  root : Bool
  deriving DecidableEq, Repr

namespace FanInGeneric

section

variable (vt : H → CommunicationHandle W)

/-- The iterator at `iter` after the test for the end of the vector; `none` when the loop is left there. -/
def wrap (blocking : Bool) (iter len : Nat) : Option Nat :=
  if iter = len then (if blocking then some 0 else none) else some iter

/-- What `probe` returns behind its loop: when there are no participants left, the EOS of the group. -/
def leave (c : FanInGeneric H) (r : Ret) (size : Nat) (w : W) : Ret × Nat × FanInGeneric H × W :=
  if c.participants.isEmpty then (.ok sizeofSizeT, 0, c, w) else (r, size, c, w)

/-- The loop of `probe`; `errno` is the value it has at the head of the loop. -/
def probeLoop (blocking : Bool) (fuel iter : Nat) (errno : Errno) (size : Nat) (c : FanInGeneric H) (w : W) :
    Except Stop (Ret × Nat × FanInGeneric H × W) :=
  if c.participants.isEmpty then .ok (c.leave (.error errno) size w)
  else
    match fuel, c.participants[iter]? with
    | 0, _ => .error .outOfFuel
    | _ + 1, none => .error .undefined
    | fuel + 1, some h => do
      let (r, size, w) ← (vt h).probe size false w
      match r with
      | .error e =>
        match wrap blocking (iter + 1) c.participants.length with
        | some iter => probeLoop blocking fuel iter e size c w
        | none => .ok (c.leave (.error e) size w)
      | .ok 0 => .ok (c.leave (.ok 0) size w)
      | .ok (n + 1) =>
        if size = 0 then do
          let c := { c with participants := c.participants.eraseIdx iter }
          let w ← (vt h).close true true w
          if iter = c.participants.length then
            if blocking then probeLoop blocking fuel 0 errno size c w
            else .ok (c.leave (.error errno) size w)
          else
            -- `iter` stands at the next participant already, and is incremented once more
            match wrap blocking (iter + 1) c.participants.length with
            | some iter => probeLoop blocking fuel iter errno size c w
            | none => .ok (c.leave (.error errno) size w)
        else
          .ok ({ c with probedIdx := some iter }.leave (.ok (n + 1)) size ((vt h).setProbed (true, size) w))

/-- `FanInGeneric::probe`; `errno` is its value before the call. -/
def probe (fuel : Nat) (errno : Errno) (size : Nat) (blocking : Bool) (c : FanInGeneric H) (w : W) :
    Except Stop (Ret × Nat × FanInGeneric H × W) :=
  probeLoop vt blocking fuel 0 errno size c w

/-- The loop of `send` over the participants. -/
def sendLoop (buff : Bytes) : List H → W → Except Stop (Ret × W)
  | [], w => .ok (.ok buff.length, w)
  | h :: hs, w => do
    let (r, w) ← (vt h).send buff w
    match r with
    | .error e => return (.error e, w)
    | .ok _ => sendLoop buff hs w

/-- `FanInGeneric::send`. -/
def send (buff : Bytes) (c : FanInGeneric H) (w : W) : Except Stop (Ret × FanInGeneric H × W) := do
  let (r, w) ← sendLoop vt buff c.participants w
  return (r, c, w)

/-- `FanInGeneric::receive`; `errno` is its value before the call. -/
def receive (errno : Errno) (size : Nat) (c : FanInGeneric H) (w : W) :
    Except Stop (Ret × Bytes × FanInGeneric H × W) :=
  match c.probedIdx.bind (c.participants[·]?) with
  | none => .error .outOfRange
  | some h => do
    let (r, bs, w) ← (vt h).receive size w
    match r with
    | .error e => return (.error e, bs, c, w)
    | .ok 0 => return (.error errno, bs, c, w)
    | .ok (n + 1) => return (.ok (n + 1), bs, { c with probedIdx := none }, (vt h).setProbed (false, 0) w)

/-- `FanInGeneric::close`, which does not look at its arguments. -/
def close (c : FanInGeneric H) (w : W) : Except Stop (FanInGeneric H × W) :=
  if !c.root then
    match c.participants[0]? with
    | none => .error .outOfRange
    | some h => do
      let w ← (vt h).close true false w
      return (c, w)
  else .ok (c, w)

end

end FanInGeneric

/-- The virtual functions of `FanInGeneric`. -/
def fanInGeneric (vt : H → CommunicationHandle W) (fuel : Nat) (errno : Errno) : CollectiveImpl (FanInGeneric H) W where
  probe := FanInGeneric.probe vt fuel errno
  receive := FanInGeneric.receive vt errno
  send := FanInGeneric.send vt
  close _ _ := FanInGeneric.close vt

/-! ### What the root needs of a transport -/

/-- How a transport feeds a handle: `idle h q` is a world in which the messages of `q` and then EOS are to come
on the handle `h`, `begun h m q` one in which the header of `m` has been read, and `left h` bounds the number of
times that a `probe` may still find nothing. -/
structure Feed (H W : Type) where
  idle : H → List Bytes → W → Prop
  begun : H → Bytes → List Bytes → W → Prop
  left : H → W → Nat

/-- A call on the handle `h` lets the others be. -/
def Feed.Apart (F : Feed H W) (h : H) (w w' : W) : Prop :=
  ∀ j, F.left j w' ≤ F.left j w ∧ (j ≠ h → ∀ q, F.idle j q w → F.idle j q w')

/-- A non-blocking `probe` finds nothing, or a whole header; the header zero is EOS, after which the handle can
be closed.  `receive` finds the message. -/
structure Feeds (vt : H → CommunicationHandle W) (F : Feed H W) : Prop where
  poll : ∀ {h q w}, F.idle h q w → ∀ size,
    (∃ w', (vt h).probe size false w = .ok (.error .EWOULDBLOCK, size, w') ∧ F.idle h q w' ∧
        F.left h w' < F.left h w ∧ F.Apart h w w') ∨
      (∃ m q' w', q = m :: q' ∧ m ≠ [] ∧ (vt h).probe size false w = .ok (.ok sizeofSizeT, m.length, w') ∧
        F.begun h m q' ((vt h).setProbed (true, m.length) w') ∧
        F.Apart h w ((vt h).setProbed (true, m.length) w')) ∨
      q = [] ∧ ∃ w' w'', (vt h).probe size false w = .ok (.ok sizeofSizeT, 0, w') ∧
        (vt h).close true true w' = .ok w'' ∧ F.Apart h w w''
  receive : ∀ {h m q w}, F.begun h m q w →
    ∃ w', (vt h).receive m.length w = .ok (.ok m.length, m, w') ∧
      F.idle h q ((vt h).setProbed (false, 0) w') ∧ F.Apart h w ((vt h).setProbed (false, 0) w')

/-! ### The loop of `probe` -/

namespace FanInGeneric

variable {vt : H → CommunicationHandle W} {F : Feed H W} {qs : H → List Bytes} {c : FanInGeneric H} {w : W}

/-- Every worker that has not been seen to end is a participant, and its messages are to come. -/
structure Waiting (F : Feed H W) (qs : H → List Bytes) (c : FanInGeneric H) (w : W) : Prop where
  nodup : c.participants.Nodup
  idle : ∀ h ∈ c.participants, F.idle h (qs h) w
  rest : ∀ h, h ∉ c.participants → qs h = []

/-- The header of the message `m` of the worker `h` has been read, and the index names `h`. -/
structure Begun (F : Feed H W) (qs : H → List Bytes) (h : H) (m : Bytes) (c : FanInGeneric H) (w : W) : Prop where
  nodup : c.participants.Nodup
  probedIdx : c.probedIdx.bind (c.participants[·]?) = some h
  begun : F.begun h m (qs h) w
  idle : ∀ j ∈ c.participants, j ≠ h → F.idle j (qs j) w
  rest : ∀ j, j ∉ c.participants → qs j = []

/-- How many turns a blocking `probe` may still need. -/
def turns (F : Feed H W) (c : FanInGeneric H) (w : W) : Nat :=
  c.participants.length + (c.participants.map fun h => F.left h w).sum

private theorem turns_le {w' : W} (h : ∀ j, F.left j w' ≤ F.left j w) : c.turns F w' ≤ c.turns F w :=
  Nat.add_le_add_left (List.sum_le_sum fun j _ => h j) _

private theorem turns_lt {w' : W} {h : H} (hm : h ∈ c.participants) (hlt : F.left h w' < F.left h w)
    (hle : ∀ j, F.left j w' ≤ F.left j w) : c.turns F w' < c.turns F w :=
  Nat.add_lt_add_left (List.sum_lt_sum _ _ (fun j _ => hle j) ⟨h, hm, hlt⟩) _

theorem not_mem_eraseIdx {l : List H} (hn : l.Nodup) {i : Nat} {x : H} (hx : l[i]? = some x) :
    x ∉ l.eraseIdx i := by
  intro hmem
  obtain ⟨k, hne, hk⟩ := List.mem_eraseIdx_iff_getElem?.1 hmem
  have hi : i < l.length := (List.getElem?_eq_some_iff.1 hx).1
  exact hne ((List.getElem?_inj hi hn).1 (hx.trans hk.symm)).symm

private theorem eq_of_not_mem_eraseIdx {l : List H} {i : Nat} {x y : H} (hx : l[i]? = some x) (hy : y ∈ l)
    (h : y ∉ l.eraseIdx i) : y = x := by
  obtain ⟨k, hk⟩ := List.mem_iff_getElem?.1 hy
  by_cases hki : k = i
  · subst hki
    exact Option.some.inj (hk.symm.trans hx)
  · exact absurd (List.mem_eraseIdx_iff_getElem?.2 ⟨k, hki, hk⟩) h

/-- Without a participant that has ended. -/
private def erased (c : FanInGeneric H) (iter : Nat) : FanInGeneric H :=
  { c with participants := c.participants.eraseIdx iter }

private theorem turns_erased {w' : W} {iter : Nat} (hiter : iter < c.participants.length)
    (hle : ∀ j, F.left j w' ≤ F.left j w) : (c.erased iter).turns F w' < c.turns F w := by
  have hlen : (c.participants.eraseIdx iter).length + 1 = c.participants.length := by
    rw [List.length_eraseIdx, if_pos hiter]
    omega
  have hsub : ((c.participants.eraseIdx iter).map fun h => F.left h w').Sublist
      (c.participants.map fun h => F.left h w') := (List.eraseIdx_sublist ..).map _
  have hsum := hsub.sum_le_sum fun _ _ => Nat.zero_le _
  have hsum' : (c.participants.map fun h => F.left h w').sum ≤ (c.participants.map fun h => F.left h w).sum :=
    List.sum_le_sum fun j _ => hle j
  unfold turns erased
  dsimp only
  omega

private theorem Waiting.erased (hw : c.Waiting F qs w) {iter : Nat} {h : H} (hh : c.participants[iter]? = some h)
    (hq : qs h = []) {w' : W} (hapart : F.Apart h w w') : (c.erased iter).Waiting F qs w' := by
  refine ⟨hw.nodup.eraseIdx iter, fun j hj => ?_, fun j hj => ?_⟩
  · have hne : j ≠ h := by
      rintro rfl
      exact not_mem_eraseIdx hw.nodup hh hj
    exact (hapart j).2 hne _ (hw.idle j (List.mem_of_mem_eraseIdx hj))
  · by_cases hmem : j ∈ c.participants
    · rw [eq_of_not_mem_eraseIdx hh hmem hj]
      exact hq
    · exact hw.rest j hmem

/-- A blocking loop goes on at a participant, if there is one. -/
private theorem wrap_blocking {iter len : Nat} (h : iter ≤ len) (hlen : 0 < len) :
    ∃ i, wrap true iter len = some i ∧ i < len := by
  unfold wrap
  by_cases heq : iter = len
  · exact ⟨0, by rw [if_pos heq, if_pos rfl], hlen⟩
  · exact ⟨iter, if_neg heq, by omega⟩

/-- The workers, of which one has handed out its oldest message. -/
def taken [DecidableEq H] (qs : H → List Bytes) (h : H) : H → List Bytes := Function.update qs h (qs h).tail

/-- What a blocking `probe` finds: the next message of one of the workers, or that all of them have ended. -/
private def Finds [DecidableEq H] (F : Feed H W) (qs : H → List Bytes) (c : FanInGeneric H) (w : W)
    (out : Except Stop (Ret × Nat × FanInGeneric H × W)) : Prop :=
  (∃ h m q c' w', qs h = m :: q ∧ m ≠ [] ∧ out = .ok (.ok sizeofSizeT, m.length, c', w') ∧
      c'.Begun F (taken qs h) h m w' ∧ c'.turns F w' ≤ c.turns F w ∧ c'.root = c.root) ∨
    (∀ h, qs h = []) ∧ ∃ c' w', out = .ok (.ok sizeofSizeT, 0, c', w') ∧ c'.participants = [] ∧ c'.root = c.root

private theorem Finds.mono [DecidableEq H] {c1 : FanInGeneric H} {w1 : W}
    {out : Except Stop (Ret × Nat × FanInGeneric H × W)} (h : Finds F qs c1 w1 out)
    (hle : c1.turns F w1 ≤ c.turns F w) (hroot : c1.root = c.root) : Finds F qs c w out := by
  rcases h with ⟨x, m, q, c', w', hq, hm, hout, hb, ht, hr⟩ | ⟨hq, c', w', hout, hc, hr⟩
  · exact Or.inl ⟨x, m, q, c', w', hq, hm, hout, hb, ht.trans hle, hr.trans hroot⟩
  · exact Or.inr ⟨hq, c', w', hout, hc, hr.trans hroot⟩

/-- The loop of a blocking `probe` ends within its turns, wherever it starts. -/
private theorem probeLoop_finds [DecidableEq H] (hf : Feeds vt F) {fuel iter : Nat} {errno : Errno} {size : Nat}
    (hw : c.Waiting F qs w) (hiter : c.participants ≠ [] → iter < c.participants.length)
    (hfuel : c.turns F w ≤ fuel) : Finds F qs c w (probeLoop vt true fuel iter errno size c w) := by
  induction fuel generalizing iter errno size c w with
  | zero =>
    have hnil : c.participants = [] := by
      unfold turns at hfuel
      exact List.length_eq_zero_iff.1 (by omega)
    unfold probeLoop leave
    rw [hnil, List.isEmpty_nil, if_pos rfl, if_pos rfl]
    exact Or.inr ⟨fun h => hw.rest h (hnil ▸ List.not_mem_nil), c, w, rfl, hnil, rfl⟩
  | succ fuel ih =>
    by_cases hnil : c.participants = []
    · unfold probeLoop leave
      rw [hnil, List.isEmpty_nil, if_pos rfl, if_pos rfl]
      exact Or.inr ⟨fun h => hw.rest h (hnil ▸ List.not_mem_nil), c, w, rfl, hnil, rfl⟩
    have hlt := hiter hnil
    obtain ⟨h, hh⟩ : ∃ h, c.participants[iter]? = some h := ⟨_, List.getElem?_eq_getElem hlt⟩
    have hmem : h ∈ c.participants := List.mem_of_getElem? hh
    have hempty : c.participants.isEmpty = false := by simpa using hnil
    unfold probeLoop
    rw [hempty, if_neg Bool.false_ne_true, hh]
    dsimp only
    rcases hf.poll (hw.idle h hmem) size with ⟨w', hpoll, hidle, hleft, hapart⟩ |
      ⟨m, q, w', hq, hm, hpoll, hbegun, hapart⟩ | ⟨hq, w', w'', hpoll, hclose, hapart⟩
    · -- nothing yet: the next participant
      obtain ⟨i, hi, hilt⟩ := wrap_blocking (show iter + 1 ≤ c.participants.length by omega) (by omega)
      rw [hpoll, bind_ok]
      dsimp only
      rw [hi]
      have hturns : c.turns F w' < c.turns F w := turns_lt hmem hleft fun j => (hapart j).1
      have hw' : c.Waiting F qs w' := by
        refine ⟨hw.nodup, fun j hj => ?_, hw.rest⟩
        by_cases hjh : j = h
        · rw [hjh]
          exact hidle
        · exact (hapart j).2 hjh _ (hw.idle j hj)
      exact (ih hw' (fun _ => hilt) (by omega)).mono (by omega) rfl
    · -- a header
      have hlen : m.length ≠ 0 := fun e => hm (List.length_eq_zero_iff.1 e)
      rw [hpoll, bind_ok]
      dsimp only
      rw [if_neg hlen]
      refine Or.inl ⟨h, m, q, { c with probedIdx := some iter }, _, hq, hm, ?_, ?_, turns_le fun j => (hapart j).1, rfl⟩
      · rw [leave, hempty]
        rfl
      · refine ⟨hw.nodup, hh, ?_, fun j hj hjh => ?_, fun j hj => ?_⟩
        · rw [taken, Function.update_self, hq]
          exact hbegun
        · rw [taken, Function.update_of_ne hjh]
          exact (hapart j).2 hjh _ (hw.idle j hj)
        · have hjh : j ≠ h := fun e => hj (e ▸ hmem)
          rw [taken, Function.update_of_ne hjh]
          exact hw.rest j hj
    · -- EOS: the participant goes
      rw [hpoll, bind_ok]
      dsimp only
      rw [if_pos rfl, hclose, bind_ok]
      have hturns := turns_erased hlt fun j => (hapart j).1
      have hw' := hw.erased hh hq hapart
      change Finds F qs c w (if iter = (c.erased iter).participants.length then _ else _)
      by_cases hend : iter = (c.erased iter).participants.length
      · rw [if_pos hend, if_pos rfl]
        exact (ih hw' List.length_pos_iff.2 (by omega)).mono (by omega) rfl
      · have hlen : (c.erased iter).participants.length + 1 = c.participants.length := by
          rw [erased, List.length_eraseIdx, if_pos hlt]
          omega
        obtain ⟨i, hi, hilt⟩ := wrap_blocking (show iter + 1 ≤ (c.erased iter).participants.length by omega) (by omega)
        rw [if_neg hend]
        change Finds F qs c w (match wrap true (iter + 1) (c.erased iter).participants.length with
          | some iter' => probeLoop vt true fuel iter' errno 0 (c.erased iter) w''
          | none => _)
        rw [hi]
        exact (ih hw' (fun _ => hilt) (by omega)).mono (by omega) rfl

end FanInGeneric

/-! ### The root -/

variable {vt : H → CommunicationHandle W} {F : Feed H W}

/-- The context of the root, open for reading. -/
structure CollectiveContext.Root (c : CollectiveContext (FanInGeneric H)) : Prop where
  deleted : c.deleted = false
  closedRd : c.closedRd = false
  canReceive : c.canReceive = true
  root : c.coll.root = true

/-- What the root of a fan-in is like in each phase of its reading; a `probe` has at least the turns it may need. -/
def RootReading (F : Feed H W) (fuel : Nat) : Phase (H → List Bytes) Bytes →
    CollectiveContext (FanInGeneric H) × W → Prop
  | .idle qs, (c, w) => c.Root ∧ c.probed.1 = false ∧ c.coll.Waiting F qs w ∧ c.coll.turns F w ≤ fuel
  | .opened m qs, (c, w) => c.Root ∧ c.probed = (true, m.length) ∧ m ≠ [] ∧ (∃ h, c.coll.Begun F qs h m w) ∧
      c.coll.turns F w ≤ fuel
  | .ended _, (c, _) => c.deleted = false ∧ c.probed = (true, 0) ∧ c.closedRd = true ∧ c.coll.participants = []

section

variable {fuel : Nat} {errno : Errno} {c : CollectiveContext (FanInGeneric H)} {w : W}

private theorem context_base (hd : c.deleted = false) :
    (contextHandle (fanInGeneric vt fuel errno)).base (c, w) = .ok c.toCommBase := by
  change (c.deref >>= _) = _
  rw [CollectiveContext.deref_of hd]
  rfl

/-- A blocking `probe` of the root is the loop of `FanInGeneric::probe`. -/
private theorem root_probe (hc : c.Root) (size : Nat) :
    (contextHandle (fanInGeneric vt fuel errno)).probe size true (c, w) =
      (FanInGeneric.probeLoop vt true fuel 0 errno size c.coll w >>= fun x =>
        .ok (x.1, x.2.1, ({ c with coll := x.2.2.1 }, x.2.2.2))) := by
  change (c.deref >>= fun c => c.probe (fanInGeneric vt fuel errno) w size true >>= _) = _
  rw [CollectiveContext.deref_of hc.deleted, bind_ok, CollectiveContext.probe, if_neg (by simp [hc.canReceive])]
  change ((FanInGeneric.probeLoop vt true fuel 0 errno size c.coll w >>= _) >>= _) = _
  cases FanInGeneric.probeLoop vt true fuel 0 errno size c.coll w <;> rfl

/-- The EOS of the group closes the read side of the root, and no worker's handle. -/
private theorem root_ended (hc : c.Root) (hp : c.probed = (true, 0)) (hnil : c.coll.participants = []) :
    ∃ s, (contextHandle (fanInGeneric vt fuel errno)).close false true (c, w) = .ok s ∧
      ∀ qs : H → List Bytes, RootReading F fuel (.ended qs) s := by
  refine ⟨({ c with closedRd := true }, w), ?_, fun qs => ⟨hc.deleted, hp, rfl, hnil⟩⟩
  change (c.deref >>= fun c => c.close (fanInGeneric vt fuel errno) w false true) = _
  have hclose : FanInGeneric.close vt c.coll w = .ok (c.coll, w) := if_neg (by simp [hc.root])
  rw [CollectiveContext.deref_of hc.deleted, bind_ok, CollectiveContext.close]
  change (FanInGeneric.close vt c.coll w >>= _) = _
  rw [hclose]
  simp

private theorem root_receive (hf : Feeds vt F) {qs : H → List Bytes} {h : H} {m : Bytes} (hc : c.Root) (hm : m ≠ [])
    (hb : c.coll.Begun F qs h m w) (hfuel : c.coll.turns F w ≤ fuel) :
    ∃ s, (contextHandle (fanInGeneric vt fuel errno)).receive m.length ({ c with probed := (false, 0) }, w) =
        .ok (.ok m.length, m, s) ∧ RootReading F fuel (.idle qs) s := by
  obtain ⟨w', hrecv, hidle, hapart⟩ := hf.receive hb.begun
  obtain ⟨n, hn⟩ := Nat.exists_eq_succ_of_ne_zero fun e => hm (List.length_eq_zero_iff.1 e)
  have hcoll : FanInGeneric.receive vt errno m.length c.coll w =
      .ok (.ok m.length, m, { c.coll with probedIdx := none }, (vt h).setProbed (false, 0) w') := by
    rw [FanInGeneric.receive, hb.probedIdx]
    dsimp only
    rw [hrecv, bind_ok, hn]
    rfl
  let k : CollectiveContext (FanInGeneric H) :=
    { c with probed := (false, 0), coll := { c.coll with probedIdx := none } }
  refine ⟨(k, (vt h).setProbed (false, 0) w'), ?_, ⟨hc.deleted, hc.closedRd, hc.canReceive, hc.root⟩, rfl, ?_, ?_⟩
  · change ((CollectiveContext.deref { c with probed := (false, 0) }) >>= fun c =>
      c.receive (fanInGeneric vt fuel errno) w m.length >>= _) = _
    have hd : (CollectiveContext.deref { c with probed := (false, 0) }) = .ok { c with probed := (false, 0) } :=
      CollectiveContext.deref_of hc.deleted
    rw [hd, bind_ok, CollectiveContext.receive, if_neg (by simp [hc.canReceive])]
    change ((FanInGeneric.receive vt errno m.length c.coll w >>= _) >>= _) = _
    rw [hcoll]
    rfl
  · refine ⟨hb.nodup, fun j hj => ?_, hb.rest⟩
    by_cases hjh : j = h
    · rw [hjh]
      exact hidle
    · exact (hapart j).2 hjh _ (hb.idle j hj hjh)
  · exact (FanInGeneric.turns_le fun j => (hapart j).1).trans hfuel

end

/-- Over handles that are fed, the root of a fan-in reads a merge of what the workers send. -/
theorem fanIn_reads [DecidableEq H] (hf : Feeds vt F) (fuel : Nat) (errno : Errno) :
    Reads (contextHandle (fanInGeneric vt fuel errno)) merge (RootReading F fuel) where
  idle := by
    rintro qs ⟨c, w⟩ ⟨hc, hp, -, -⟩
    exact ⟨_, context_base hc.deleted, hp, hc.closedRd⟩
  opened := by
    rintro m qs ⟨c, w⟩ ⟨hc, hp, hm, -, -⟩
    exact ⟨hm, _, context_base hc.deleted, hp, hc.closedRd⟩
  ended := by
    rintro qs ⟨c, w⟩ ⟨hd, hp, hrd, -⟩
    exact ⟨_, context_base hd, hp, hrd⟩
  probe := by
    rintro qs ⟨c, w⟩ ⟨hc, hp, hw, hfuel⟩ size
    have hfinds := @FanInGeneric.probeLoop_finds _ _ vt F qs c.coll w _ hf fuel 0 errno size hw
      List.length_pos_iff.2 hfuel
    rw [root_probe hc]
    rcases hfinds with ⟨h, m, q, c', w', hq, hm, hout, hb, hturns, hroot⟩ | ⟨hq, c', w', hout, hnil, hroot⟩
    · left
      rw [hout]
      refine ⟨m, FanInGeneric.taken qs h, _, ⟨h, ?_, fun j hj => Function.update_of_ne hj ..⟩, rfl,
        ⟨hc.deleted, hc.closedRd, hc.canReceive, hroot.trans hc.root⟩, rfl, hm, ⟨h, hb⟩, hturns.trans hfuel⟩
      rw [FanInGeneric.taken, Function.update_self, hq]
      rfl
    · right
      left
      rw [hout]
      let k : CollectiveContext (FanInGeneric H) := { c with probed := (true, 0), coll := c' }
      have hk : k.Root := ⟨hc.deleted, hc.closedRd, hc.canReceive, hroot.trans hc.root⟩
      obtain ⟨s, hclose, hended⟩ := @root_ended _ _ vt F fuel errno k w' hk rfl hnil
      exact ⟨hq, _, s, rfl, hclose, hended qs⟩
  receive := by
    rintro m qs ⟨c, w⟩ ⟨hc, -, hm, ⟨h, hb⟩, hfuel⟩
    exact root_receive hf hc hm hb hfuel

end Mtcl
