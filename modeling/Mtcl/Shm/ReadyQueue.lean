import Mathlib.Order.Nat
import Mtcl.Base.OrdMap
import Mtcl.Base.Runs
import Mtcl.Handle
import Mtcl.Handshake
import Mtcl.ShmBuffer

/-!
# The connections of `ConnSHM` and the ready queue

A `ShmProcess` is the connector with the buffers its handles read from, the part of the ready queue of the
`Manager` that comes from it, and the `HandleUser` objects the application holds.  `update` is taken apart: the
acceptance of a connection, the handshake, the loop over the connections entry by entry.  The loop holds the
lock of the connector, so the functions that take the lock (`notify_yield`, `notify_close`, `connect`) run
between two passes, while the peers put, the application reads and takes handles out of the queue at any time.
A name stands for one handle object.

`ConnSHM::update` neither resets the flag of an entry whose handle it has pushed nor looks at a `peek` that is zero.
`readyQueue_disciplined` says when the queue keeps its discipline all the same.
-/

namespace Mtcl

/-- `shmBuffer::peek`. -/
def ShmSegment.peek (seg : ShmSegment) : Int := if seg.guard then 1 else 0

/-- `notify_yield` sets the flag of a handle, `update` pushes a handle with flag `false`; `full` tells whether
its input buffer held something then. -/
inductive ReadyEvent (H : Type)
  | yield (h : H)
  | push (h : H) (full : Bool)
  deriving DecidableEq, Repr

/-- The handle of an event. -/
def ReadyEvent.handle {H : Type} : ReadyEvent H → H
  | .yield h => h
  | .push h _ => h

/-- A process with SHM connections.  `accepting` is the connection `update` has accepted and whose handshake is
not over, `pass` the entries that its loop has still to pass; the log has the newest event first. -/
structure ShmProcess (H : Type) [LinearOrder H] where
  connections : OrdMap H Bool := ∅
  segs : H → ShmSegment
  accepting : Option H := none
  pass : Option (List (H × Bool)) := none
  handleReady : List (HandleUser H) := []
  users : List (HandleUser H) := []
  log : List (ReadyEvent H) := []

namespace ShmProcess

variable {H : Type} [LinearOrder H]

/-- The last event of a handle. -/
def last (p : ShmProcess H) (h : H) : Option (ReadyEvent H) := p.log.find? fun e => e.handle = h

def Queued (p : ShmProcess H) (h : H) : Prop := ∃ u ∈ p.handleReady, u.realHandle = some h

/-- A user has got the handle and has not given it back. -/
def Owned (p : ShmProcess H) (h : H) : Prop := ∃ u ∈ p.users, u.isReadable = true ∧ u.realHandle = some h

/-- The name of a handle that is about to be made. -/
structure Fresh (p : ShmProcess H) (h : H) : Prop where
  connections : p.connections.find? h = none
  accepting : p.accepting ≠ some h
  queued : ¬p.Queued h
  users : ∀ u ∈ p.users, u.realHandle ≠ some h
  log : p.last h = none

/-- The push of `Manager::addinQ`. -/
def addinQ (p : ShmProcess H) (b : Bool) (h : H) : ShmProcess H :=
  { p with handleReady := p.handleReady ++ [⟨some h, true, b⟩] }

/-- `update` has read a connection message and makes the handle. -/
def accept (p : ShmProcess H) (h : H) (seg : ShmSegment) : ShmProcess H :=
  { p with
    connections := p.connections.insert h false
    segs := Function.update p.segs h seg
    accepting := some h }

/-- `addinQ(true, handle)`, when the handshake is over; the handles of teams go elsewhere. -/
def announce (p : ShmProcess H) (h : H) (r : Handshake) : ShmProcess H :=
  let p := { p with accepting := none }
  match r with
  | .p2p => p.addinQ true h
  | _ => p

/-- `connect`, with the `HandleUser` that `Manager::connect` returns when the handshake has been sent. -/
def connect (p : ShmProcess H) (h : H) (seg : ShmSegment) (sent : Bool) : ShmProcess H :=
  { p with
    connections := p.connections.insert h false
    segs := Function.update p.segs h seg
    users := if sent then p.users ++ [⟨some h, true, true⟩] else p.users }

/-- A turn of the loop of `update`. -/
def turn (p : ShmProcess H) (e : H × Bool) (rest : List (H × Bool)) : ShmProcess H :=
  let p := { p with pass := some rest }
  if e.2 then
    if (p.segs e.1).peek < 0 then p
    else { p.addinQ false e.1 with log := .push e.1 (p.segs e.1).guard :: p.log }
  else p

/-- `notify_yield`. -/
def notifyYield (p : ShmProcess H) (h : H) : ShmProcess H :=
  match p.connections.find? h with
  | some _ => { p with connections := p.connections.insert h true, log := .yield h :: p.log }
  | none => p

/-- The part of `notify_close` that is about the table. -/
def notifyClose (p : ShmProcess H) (h : H) : ShmProcess H := { p with connections := p.connections.erase h }

end ShmProcess

/-- What is done: the parts of `update`, the calls of the application on the `HandleUser` at a position, and
what happens to the buffers. -/
inductive ShmOp
  | accept | announce | begin | turn | finish
  | connect | getNext | yield | destroy | eos | close
  | put | take

/-- The steps of the process. -/
inductive ShmStep {H : Type} [LinearOrder H] : ShmOp → ShmProcess H → ShmProcess H → Prop
  | accept {p : ShmProcess H} {h : H} (seg : ShmSegment) (ha : p.accepting = none) (hp : p.pass = none)
      (hf : p.Fresh h) : ShmStep .accept p (p.accept h seg)
  | announce {p : ShmProcess H} {h : H} (r : Handshake) (ha : p.accepting = some h) :
      ShmStep .announce p (p.announce h r)
  | begin {p : ShmProcess H} (ha : p.accepting = none) (hp : p.pass = none) :
      ShmStep .begin p { p with pass := some p.connections.entries }
  | turn {p : ShmProcess H} {e : H × Bool} {rest : List (H × Bool)} (hp : p.pass = some (e :: rest)) :
      ShmStep .turn p (p.turn e rest)
  | finish {p : ShmProcess H} (hp : p.pass = some []) : ShmStep .finish p { p with pass := none }
  | connect {p : ShmProcess H} {h : H} (seg : ShmSegment) (sent : Bool) (hp : p.pass = none) (hf : p.Fresh h) :
      ShmStep .connect p (p.connect h seg sent)
  | getNext {p : ShmProcess H} {u : HandleUser H} {q : List (HandleUser H)} (hq : p.handleReady = u :: q) :
      ShmStep .getNext p { p with handleReady := q, users := p.users ++ [u] }
  | yield {p : ShmProcess H} {us vs : List (HandleUser H)} {u : HandleUser H} {h : H} (hu : p.users = us ++ u :: vs)
      (hh : u.realHandle = some h) (hp : p.pass = none) :
      ShmStep .yield p
        (({ p with users := us ++ { u with isReadable := false, newConnection := false } :: vs } :
          ShmProcess H).notifyYield h)
  | destroyYields {p : ShmProcess H} {us vs : List (HandleUser H)} {u : HandleUser H} {h : H}
      (hu : p.users = us ++ u :: vs)
      (hh : u.realHandle = some h) (hr : u.isReadable = true) (hp : p.pass = none) :
      ShmStep .destroy p (({ p with users := us ++ vs } : ShmProcess H).notifyYield h)
  | destroy {p : ShmProcess H} {us vs : List (HandleUser H)} {u : HandleUser H} (hu : p.users = us ++ u :: vs)
      (hr : u.isReadable = false) : ShmStep .destroy p { p with users := us ++ vs }
  | eos {p : ShmProcess H} {us vs : List (HandleUser H)} {u : HandleUser H} {h : H} (hu : p.users = us ++ u :: vs)
      (hh : u.realHandle = some h) (hp : p.pass = none) :
      ShmStep .eos p (({ p with users := us ++ { u with isReadable := false } :: vs } : ShmProcess H).notifyClose h)
  | close {p : ShmProcess H} (h : H) (hp : p.pass = none) : ShmStep .close p (p.notifyClose h)
  | put {p : ShmProcess H} (h : H) (f : Fill) (hg : (p.segs h).guard = false) :
      ShmStep .put p { p with segs := Function.update p.segs h ((p.segs h).fill f) }
  | take {p : ShmProcess H} (h : H) (hg : (p.segs h).guard = true) :
      ShmStep .take p { p with segs := Function.update p.segs h (p.segs h).release }

/-- A process that has just started. -/
structure ShmStarts {H : Type} [LinearOrder H] (p : ShmProcess H) : Prop where
  connections : p.connections = ∅
  accepting : p.accepting = none
  pass : p.pass = none
  handleReady : p.handleReady = []
  users : p.users = []
  log : p.log = []

/-- The discipline of the ready queue: what was pushed was ready, between two pushes of a handle lies a yield of
it, and a handle is at most once in the queue and not while a user has it. -/
structure ReadyDiscipline {H : Type} [LinearOrder H] (p : ShmProcess H) : Prop where
  full : ∀ h full, .push h full ∈ p.log → full = true
  once : ∀ l h full l', p.log = l ++ .push h full :: l' → (l'.find? fun e => e.handle = h) = some (.yield h)
  nodup : (p.handleReady.map HandleUser.realHandle).Nodup
  apart : ∀ h, p.Queued h → ¬p.Owned h

/-- When the loop of `update` comes to an entry whose flag is set, the input buffer of its handle holds
something, and the handle is neither in the queue nor with a user. -/
def TurnReady {H : Type} [LinearOrder H] (o : ShmOp) (p : ShmProcess H) : Prop :=
  ∀ h rest, o = .turn → p.pass = some ((h, true) :: rest) → (p.segs h).guard = true ∧ ¬p.Queued h ∧ ¬p.Owned h

/-! ### The invariant -/

section

variable {H : Type} [LinearOrder H]

/-- The discipline, with what keeps it: a handle that has been pushed is in the queue or with a user until it is
yielded, a flag that is set was set by a yield, and the loop meets the entries as they are. -/
structure ReadyInv (p : ShmProcess H) : Prop where
  discipline : ReadyDiscipline p
  placed : ∀ h full, p.last h = some (.push h full) → p.connections.find? h ≠ none → p.Queued h ∨ p.Owned h
  yielded : ∀ h, p.connections.find? h = some true → p.last h ≠ none
  pass : ∀ l, p.pass = some l → ∀ e ∈ l, p.connections.find? e.1 = some e.2
  readable : ∀ u ∈ p.handleReady, u.isReadable = true
  accepting : ∀ h, p.accepting = some h → p.pass = none ∧ ¬p.Queued h ∧ (∀ u ∈ p.users, u.realHandle ≠ some h) ∧
    p.last h = none

variable {p : ShmProcess H} {h : H}

theorem last_handle {e : ReadyEvent H} (hl : p.last h = some e) : e.handle = h := by
  simpa using List.find?_some hl

private theorem once_cons {log : List (ReadyEvent H)} {e : ReadyEvent H}
    (ho : ∀ l h full l', log = l ++ .push h full :: l' → (l'.find? fun e => e.handle = h) = some (.yield h))
    (he : ∀ h full, e = .push h full → (log.find? fun e => e.handle = h) = some (.yield h)) :
    ∀ l h full l', e :: log = l ++ .push h full :: l' → (l'.find? fun e => e.handle = h) = some (.yield h) := by
  intro l h full l' hl
  cases l with
  | nil =>
    obtain ⟨rfl, rfl⟩ := List.cons.inj hl
    exact he h full rfl
  | cons x l => exact ho l h full l' (List.cons.inj hl).2

/-- The invariant when the queue stays as it is and the users may have given handles back: each of them has been
yielded or closed. -/
private theorem ReadyInv.given {q : ShmProcess H} (hi : ReadyInv p) (hready : q.handleReady = p.handleReady)
    (hacc : q.accepting = p.accepting) (hpass : q.pass = p.pass) (hconn : p.pass = none ∨ q.connections = p.connections)
    (husers : ∀ u ∈ q.users, ∃ w ∈ p.users, w.realHandle = u.realHandle) (howned : ∀ k, q.Owned k → p.Owned k)
    (hlog : q.log = p.log ∨ ∃ h, q.log = .yield h :: p.log ∧ ∃ w ∈ p.users, w.realHandle = some h)
    (heach : ∀ k, ((p.Owned k → q.Owned k) ∧ q.connections.find? k = p.connections.find? k ∧ q.last k = p.last k) ∨
      q.connections.find? k = none ∨ q.last k = some (.yield k)) : ReadyInv q := by
  have hqueued (k : H) : q.Queued k ↔ p.Queued k := by
    unfold ShmProcess.Queued
    rw [hready]
  refine ⟨⟨?_, ?_, ?_, fun k hk ho => hi.discipline.apart k ((hqueued k).1 hk) (howned k ho)⟩, fun k full hl hc => ?_,
    fun k hk => ?_, fun l hl e he => ?_, ?_, fun k hk => ?_⟩
  · intro h full hmem
    rcases hlog with hlog | ⟨h', hlog, -⟩
    · exact hi.discipline.full h full (hlog ▸ hmem)
    · rw [hlog] at hmem
      rcases List.mem_cons.1 hmem with hmem | hmem
      · cases hmem
      · exact hi.discipline.full h full hmem
  · rcases hlog with hlog | ⟨h', hlog, -⟩
    · rw [hlog]
      exact hi.discipline.once
    · rw [hlog]
      exact once_cons hi.discipline.once nofun
  · rw [hready]
    exact hi.discipline.nodup
  · rcases heach k with ⟨ho, hfind, hlast⟩ | hnone | hyield
    · rw [hqueued]
      exact (hi.placed k full (hlast ▸ hl) (hfind ▸ hc)).imp_right ho
    · exact absurd hnone hc
    · rw [hyield] at hl
      cases hl
  · rcases heach k with ⟨-, hfind, hlast⟩ | hnone | hyield
    · rw [hlast]
      exact hi.yielded k (hfind ▸ hk)
    · rw [hnone] at hk
      cases hk
    · rw [hyield]
      exact Option.some_ne_none _
  · rcases hconn with hconn | hconn
    · rw [hpass, hconn] at hl
      cases hl
    · rw [hconn]
      exact hi.pass l (hpass ▸ hl) e he
  · rw [hready]
    exact hi.readable
  · obtain ⟨hp, hnq, hnu, hnone⟩ := hi.accepting k (hacc ▸ hk)
    refine ⟨hpass.trans hp, fun hq => hnq ((hqueued k).1 hq), fun u hu hk => ?_, ?_⟩
    · obtain ⟨w, hw, heq⟩ := husers u hu
      exact hnu w hw (heq.trans hk)
    · unfold ShmProcess.last at hnone ⊢
      rcases hlog with hlog | ⟨h', hlog, w, hw, hh⟩
      · rw [hlog]
        exact hnone
      · rw [hlog, List.find?_cons_of_neg]
        · exact hnone
        · rw [decide_eq_true_eq]
          rintro rfl
          exact hnu w hw hh

private theorem ReadyInv.gives {us vs : List (HandleUser H)} {u : HandleUser H} (hi : ReadyInv p) (hp : p.pass = none)
    (hu : p.users = us ++ u :: vs) (hh : u.realHandle = some h) (ms : List (HandleUser H))
    (hms : ∀ w ∈ ms, w.realHandle = some h ∧ w.isReadable = false) :
    ReadyInv (({ p with users := us ++ ms ++ vs } : ShmProcess H).notifyYield h) ∧
    ReadyInv (({ p with users := us ++ ms ++ vs } : ShmProcess H).notifyClose h) := by
  have hmem : u ∈ p.users := hu ▸ List.mem_append_right us (List.mem_cons_self ..)
  have husers : ∀ v ∈ us ++ ms ++ vs, ∃ w ∈ p.users, w.realHandle = v.realHandle := by
    intro v hv
    rcases List.mem_append.1 hv with hv | hv
    · rcases List.mem_append.1 hv with hv | hv
      · exact ⟨v, hu ▸ List.mem_append_left _ hv, rfl⟩
      · exact ⟨u, hmem, hh.trans (hms v hv).1.symm⟩
    · exact ⟨v, hu ▸ List.mem_append_right us (List.mem_cons_of_mem u hv), rfl⟩
  have howned {k : H} (ho : ∃ v ∈ us ++ ms ++ vs, v.isReadable = true ∧ v.realHandle = some k) : p.Owned k := by
    obtain ⟨v, hv, hr, hk⟩ := ho
    rcases List.mem_append.1 hv with hv | hv
    · rcases List.mem_append.1 hv with hv | hv
      · exact ⟨v, hu ▸ List.mem_append_left _ hv, hr, hk⟩
      · rw [(hms v hv).2] at hr
        cases hr
    · exact ⟨v, hu ▸ List.mem_append_right us (List.mem_cons_of_mem u hv), hr, hk⟩
  have hkept {k : H} (hk : k ≠ h) (ho : p.Owned k) : ∃ v ∈ us ++ ms ++ vs, v.isReadable = true ∧
      v.realHandle = some k := by
    obtain ⟨v, hv, hr, hvk⟩ := ho
    refine ⟨v, ?_, hr, hvk⟩
    rw [hu] at hv
    rcases List.mem_append.1 hv with hv | hv
    · exact List.mem_append_left _ (List.mem_append_left _ hv)
    · rcases List.mem_cons.1 hv with rfl | hv
      · exact absurd (Option.some.inj (hvk.symm.trans hh)) hk
      · exact List.mem_append_right _ hv
  constructor
  · unfold ShmProcess.notifyYield
    cases hc : p.connections.find? h with
    | none =>
      refine hi.given rfl rfl rfl (.inr rfl) husers (fun _ => howned) (.inl rfl) fun k => ?_
      rcases eq_or_ne k h with rfl | hk
      · exact .inr (.inl hc)
      · exact .inl ⟨hkept hk, rfl, rfl⟩
    | some b =>
      refine hi.given rfl rfl rfl (.inl hp) husers (fun _ => howned) (.inr ⟨h, rfl, u, hmem, hh⟩) fun k => ?_
      rcases eq_or_ne k h with rfl | hk
      · exact .inr (.inr (List.find?_cons_of_pos (decide_eq_true rfl)))
      · refine .inl ⟨hkept hk, ?_, List.find?_cons_of_neg ?_⟩
        · exact (OrdMap.find?_insert ..).trans (if_neg hk)
        · rw [decide_eq_true_eq]
          exact Ne.symm hk
  · refine hi.given rfl rfl rfl (.inl hp) husers (fun _ => howned) (.inl rfl) fun k => ?_
    rcases eq_or_ne k h with rfl | hk
    · exact .inr (.inl (OrdMap.find?_erase_self ..))
    · exact .inl ⟨hkept hk, (OrdMap.find?_erase ..).trans (if_neg hk), rfl⟩

private theorem ReadyInv.opened {q : ShmProcess H} (hi : ReadyInv p) (hf : p.Fresh h) (hp : p.pass = none)
    (hconn : q.connections = p.connections.insert h false) (hready : q.handleReady = p.handleReady)
    (hpass : q.pass = p.pass) (hlog : q.log = p.log)
    (husers : ∀ u ∈ q.users, u ∈ p.users ∨ u.realHandle = some h) (hkept : ∀ u ∈ p.users, u ∈ q.users)
    (hacc : ∀ k, q.accepting = some k → p.accepting = some k ∧ k ≠ h ∨ k = h ∧ q.users = p.users) : ReadyInv q := by
  have hqueued (k : H) : q.Queued k ↔ p.Queued k := by
    unfold ShmProcess.Queued
    rw [hready]
  have hlast (k : H) : q.last k = p.last k := by
    unfold ShmProcess.last
    rw [hlog]
  have hfind {k : H} (hk : k ≠ h) : q.connections.find? k = p.connections.find? k := by
    rw [hconn]
    exact (OrdMap.find?_insert ..).trans (if_neg hk)
  refine ⟨⟨?_, ?_, ?_, fun k hk ho => ?_⟩, fun k full hl hc => ?_, fun k hk => ?_,
    fun l hl e he => ?_, ?_, fun k hk => ?_⟩
  · rw [hlog]
    exact hi.discipline.full
  · rw [hlog]
    exact hi.discipline.once
  · rw [hready]
    exact hi.discipline.nodup
  · obtain ⟨u, hu, hr, huk⟩ := ho
    rcases husers u hu with hu | hu
    · exact hi.discipline.apart k ((hqueued k).1 hk) ⟨u, hu, hr, huk⟩
    · cases hu.symm.trans huk
      exact hf.queued ((hqueued h).1 hk)
  · rw [hlast] at hl
    rcases eq_or_ne k h with rfl | hkh
    · rw [hf.log] at hl
      cases hl
    · refine (hi.placed k full hl (hfind hkh ▸ hc)).imp (hqueued k).2 ?_
      rintro ⟨u, hu, hr⟩
      exact ⟨u, hkept u hu, hr⟩
  · rw [hlast]
    rcases eq_or_ne k h with rfl | hkh
    · rw [hconn, OrdMap.find?_insert_self] at hk
      cases hk
    · exact hi.yielded k (hfind hkh ▸ hk)
  · rw [hpass, hp] at hl
    cases hl
  · rw [hready]
    exact hi.readable
  · rw [hqueued, hlast]
    rcases hacc k hk with ⟨hk, hkh⟩ | ⟨rfl, hu⟩
    · obtain ⟨hpn, hnq, hnu, hnone⟩ := hi.accepting k hk
      refine ⟨hpass.trans hpn, hnq, fun u hu huk => ?_, hnone⟩
      rcases husers u hu with hu | hu
      · exact hnu u hu huk
      · exact hkh (Option.some.inj (huk.symm.trans hu))
    · rw [hu]
      exact ⟨hpass.trans hp, hf.queued, hf.users, hf.log⟩

private theorem ReadyInv.queue {q : ShmProcess H} {b : Bool} (hi : ReadyInv p) (hnq : ¬p.Queued h) (hno : ¬p.Owned h)
    (hready : q.handleReady = p.handleReady ++ [⟨some h, true, b⟩]) (hconn : q.connections = p.connections)
    (husers : q.users = p.users) (hacc : ∀ k, q.accepting = some k → p.accepting = some k ∧ k ≠ h ∧ q.pass = none)
    (hpass : ∀ l, q.pass = some l → ∃ m, p.pass = some m ∧ ∀ e ∈ l, e ∈ m)
    (hlog : q.log = p.log ∨ q.log = .push h true :: p.log ∧ p.last h = some (.yield h)) : ReadyInv q := by
  have hqueued (k : H) : q.Queued k ↔ p.Queued k ∨ k = h := by
    unfold ShmProcess.Queued
    rw [hready]
    simp [or_and_right, exists_or, eq_comm]
  have howned (k : H) : q.Owned k ↔ p.Owned k := by
    unfold ShmProcess.Owned
    rw [husers]
  have hlast {k : H} (hk : k ≠ h) : q.last k = p.last k := by
    unfold ShmProcess.last
    rcases hlog with hlog | ⟨hlog, -⟩
    · rw [hlog]
    · rw [hlog]
      refine List.find?_cons_of_neg ?_
      rw [decide_eq_true_eq]
      exact Ne.symm hk
  refine ⟨⟨fun k full hmem => ?_, ?_, ?_, fun k hk ho => ?_⟩, fun k full hl hc => ?_,
    fun k hk => ?_, fun l hl e he => ?_, fun u hu => ?_, fun k hk => ?_⟩
  · rcases hlog with hlog | ⟨hlog, -⟩
    · exact hi.discipline.full k full (hlog ▸ hmem)
    · rw [hlog] at hmem
      rcases List.mem_cons.1 hmem with hmem | hmem
      · cases hmem
        rfl
      · exact hi.discipline.full k full hmem
  · rcases hlog with hlog | ⟨hlog, hyield⟩
    · rw [hlog]
      exact hi.discipline.once
    · rw [hlog]
      refine once_cons hi.discipline.once fun k full he => ?_
      cases he
      exact hyield
  · rw [hready, List.map_append, List.nodup_append]
    refine ⟨hi.discipline.nodup, List.pairwise_singleton .., ?_⟩
    rintro x hx y hy rfl
    obtain ⟨u, hu, hux⟩ := List.mem_map.1 hx
    exact hnq ⟨u, hu, hux.trans (List.mem_singleton.1 hy)⟩
  · rcases (hqueued k).1 hk with hk | rfl
    · exact hi.discipline.apart k hk ((howned k).1 ho)
    · exact hno ((howned k).1 ho)
  · rw [hqueued, howned]
    rcases eq_or_ne k h with rfl | hkh
    · exact .inl (.inr rfl)
    · exact (hi.placed k full (hlast hkh ▸ hl) (hconn ▸ hc)).imp_left .inl
  · rcases eq_or_ne k h with rfl | hkh
    · have hold := hi.yielded k (hconn ▸ hk)
      unfold ShmProcess.last at hold ⊢
      rcases hlog with hlog | ⟨hlog, -⟩
      · rwa [hlog]
      · rw [hlog, List.find?_cons_of_pos (by exact decide_eq_true rfl)]
        exact Option.some_ne_none _
    · rw [hlast hkh]
      exact hi.yielded k (hconn ▸ hk)
  · obtain ⟨m, hm, hsub⟩ := hpass l hl
    rw [hconn]
    exact hi.pass m hm e (hsub e he)
  · rw [hready] at hu
    rcases List.mem_append.1 hu with hu | hu
    · exact hi.readable u hu
    · rw [List.mem_singleton.1 hu]
  · obtain ⟨hk, hkh, hp⟩ := hacc k hk
    obtain ⟨-, hnk, hnu, hnone⟩ := hi.accepting k hk
    rw [hqueued, husers, hlast hkh]
    exact ⟨hp, fun h => h.elim hnk hkh, hnu, hnone⟩

private theorem ReadyInv.passes (hi : ReadyInv p) {l : Option (List (H × Bool))}
    (hpass : ∀ m, l = some m → p.accepting = none ∧ ∀ e ∈ m, p.connections.find? e.1 = some e.2) :
    ReadyInv { p with pass := l } where
  discipline := ⟨hi.discipline.full, hi.discipline.once, hi.discipline.nodup, hi.discipline.apart⟩
  placed := hi.placed
  yielded := hi.yielded
  pass m hm := (hpass m hm).2
  readable := hi.readable
  accepting k hk := by
    refine ⟨?_, (hi.accepting k hk).2⟩
    cases l with
    | none => rfl
    | some m =>
      rw [(hpass m rfl).1] at hk
      cases hk

private theorem ReadyInv.getNext {u : HandleUser H} {q : List (HandleUser H)} (hi : ReadyInv p)
    (hq : p.handleReady = u :: q) : ReadyInv { p with handleReady := q, users := p.users ++ [u] } := by
  have hnodup := hi.discipline.nodup
  rw [hq, List.map_cons, List.nodup_cons] at hnodup
  have hu : u ∈ p.handleReady := hq ▸ List.mem_cons_self ..
  have hqueued {k : H} (hk : ∃ v ∈ q, v.realHandle = some k) : p.Queued k := by
    obtain ⟨v, hv, hvk⟩ := hk
    exact ⟨v, hq ▸ List.mem_cons_of_mem u hv, hvk⟩
  refine ⟨⟨hi.discipline.full, hi.discipline.once, hnodup.2, fun k hk ho => ?_⟩,
    fun k full hl hc => ?_, hi.yielded, hi.pass, fun v hv => hi.readable v (hq ▸ List.mem_cons_of_mem u hv),
    fun k hk => ?_⟩
  · obtain ⟨v, hv, hr, hvk⟩ := ho
    rcases List.mem_append.1 hv with hv | hv
    · exact hi.discipline.apart k (hqueued hk) ⟨v, hv, hr, hvk⟩
    · cases List.mem_singleton.1 hv
      obtain ⟨w, hw, hwk⟩ := hk
      exact hnodup.1 (List.mem_map.2 ⟨w, hw, hwk.trans hvk.symm⟩)
  · rcases hi.placed k full hl hc with ⟨v, hv, hvk⟩ | ⟨v, hv, hr, hvk⟩
    · rw [hq] at hv
      rcases List.mem_cons.1 hv with rfl | hv
      · exact .inr ⟨v, List.mem_append_right _ (List.mem_singleton_self v), hi.readable v hu, hvk⟩
      · exact .inl ⟨v, hv, hvk⟩
    · exact .inr ⟨v, List.mem_append_left _ hv, hr, hvk⟩
  · obtain ⟨hp, hnq, hnu, hnone⟩ := hi.accepting k hk
    refine ⟨hp, fun hk => hnq (hqueued hk), fun v hv => ?_, hnone⟩
    rcases List.mem_append.1 hv with hv | hv
    · exact hnu v hv
    · rw [List.mem_singleton.1 hv]
      exact fun huk => hnq ⟨u, hu, huk⟩

private theorem ReadyInv.turn {e : H × Bool} {rest : List (H × Bool)} (hi : ReadyInv p) (hp : p.pass = some (e :: rest))
    (hready : TurnReady .turn p) : ReadyInv (p.turn e rest) := by
  have hacc : p.accepting = none := by
    cases ha : p.accepting with
    | none => rfl
    | some k =>
      rw [(hi.accepting k ha).1] at hp
      cases hp
  have hentries := hi.pass _ hp
  unfold ShmProcess.turn
  rcases e with ⟨h, b⟩
  cases b with
  | false =>
    refine hi.passes fun m hm => ⟨hacc, fun e he => ?_⟩
    cases hm
    exact hentries e (List.mem_cons_of_mem _ he)
  | true =>
    obtain ⟨hg, hnq, hno⟩ := hready h rest rfl hp
    have hflag : p.connections.find? h = some true := hentries _ (List.mem_cons_self ..)
    have hyield : p.last h = some (.yield h) := by
      cases hl : p.last h with
      | none => exact absurd hl (hi.yielded h hflag)
      | some ev =>
        have hh := last_handle hl
        cases ev with
        | yield k =>
          cases hh
          rfl
        | push k full =>
          cases hh
          rcases hi.placed k full hl (hflag ▸ Option.some_ne_none _) with hq | ho
          · exact absurd hq hnq
          · exact absurd ho hno
    dsimp only
    unfold ShmSegment.peek
    rw [if_pos rfl, hg, if_pos rfl, if_neg (by decide)]
    refine hi.queue hnq hno rfl rfl rfl (fun k hk => ?_) (fun l hl => ⟨_, hp, fun e he => ?_⟩) (.inr ⟨rfl, hyield⟩)
    · change p.accepting = some k at hk
      rw [hacc] at hk
      cases hk
    · cases hl
      exact List.mem_cons_of_mem _ he

theorem ReadyInv.start (h : ShmStarts p) : ReadyInv p := by
  have hl : p.log = [] := h.log
  have hq : p.handleReady = [] := h.handleReady
  refine ⟨⟨fun k full hm => ?_, fun l k full l' hm => ?_, ?_, ?_⟩, fun k full hm => ?_,
    fun k hk => ?_, fun l hp => ?_, ?_, fun k hk => ?_⟩
  · rw [hl] at hm
    exact absurd hm List.not_mem_nil
  · rw [hl] at hm
    simp at hm
  · rw [hq]
    exact List.nodup_nil
  · rintro k ⟨u, hu, -⟩
    rw [hq] at hu
    exact absurd hu List.not_mem_nil
  · unfold ShmProcess.last at hm
    rw [hl] at hm
    cases hm
  · rw [h.connections] at hk
    cases hk
  · rw [h.pass] at hp
    cases hp
  · rw [hq]
    exact fun _ hu => absurd hu List.not_mem_nil
  · rw [h.accepting] at hk
    cases hk

/-- A step keeps the invariant, unless it is a turn of the loop on an entry that is not ready. -/
theorem ReadyInv.step {o : ShmOp} {p' : ShmProcess H} (hi : ReadyInv p) (hs : ShmStep o p p') (hready : TurnReady o p) :
    ReadyInv p' := by
  cases hs with
  | accept seg ha hp hf =>
    refine hi.opened hf hp rfl rfl rfl rfl (fun _ => .inl) (fun _ => id) fun k hk => ?_
    cases hk
    exact .inr ⟨rfl, rfl⟩
  | @announce _ h r ha =>
    obtain ⟨hp, hnq, hnu, -⟩ := hi.accepting h ha
    have hnone : ReadyInv { p with accepting := none } :=
      ⟨⟨hi.discipline.full, hi.discipline.once, hi.discipline.nodup, hi.discipline.apart⟩, hi.placed,
        hi.yielded, hi.pass, hi.readable, nofun⟩
    cases r with
    | failed => exact hnone
    | team _ => exact hnone
    | p2p =>
      refine hi.queue (b := true) hnq (fun ⟨u, hu, _, hh⟩ => hnu u hu hh) rfl rfl rfl nofun (fun l hl => ?_) (.inl rfl)
      change p.pass = some l at hl
      rw [hp] at hl
      cases hl
  | begin ha hp =>
    refine hi.passes fun m hm => ⟨ha, fun e he => ?_⟩
    cases hm
    exact OrdMap.mem_entries.1 he
  | turn hp => exact hi.turn hp hready
  | finish hp => exact hi.passes nofun
  | @connect _ h seg sent hp hf =>
    refine hi.opened hf hp rfl rfl rfl rfl (fun u hu => ?_) (fun u hu => ?_) fun k hk =>
      .inl ⟨hk, fun heq => hf.accepting (heq ▸ hk)⟩
    · cases sent with
      | false => exact .inl hu
      | true =>
        rcases List.mem_append.1 hu with hu | hu
        · exact .inl hu
        · exact .inr (congrArg HandleUser.realHandle (List.mem_singleton.1 hu))
    · cases sent with
      | false => exact hu
      | true => exact List.mem_append_left _ hu
  | getNext hq => exact hi.getNext hq
  | @yield _ us vs u h hu hh hp =>
    have hg := (hi.gives hp hu hh [{ u with isReadable := false, newConnection := false }] fun w hw => by
      rw [List.mem_singleton.1 hw]
      exact ⟨hh, rfl⟩).1
    rwa [List.append_assoc] at hg
  | destroyYields hu hh hr hp =>
    have hg := (hi.gives hp hu hh [] fun w hw => absurd hw List.not_mem_nil).1
    rwa [List.append_nil] at hg
  | @destroy _ us vs u hu hr =>
    have hsub {w : HandleUser H} (hw : w ∈ us ++ vs) : w ∈ p.users := by
      rw [hu]
      exact (List.sublist_cons_self u vs).append_left us |>.subset hw
    refine hi.given rfl rfl rfl (.inr rfl) (fun w hw => ⟨w, hsub hw, rfl⟩)
      (fun k ⟨w, hw, h⟩ => ⟨w, hsub hw, h⟩) (.inl rfl)
      fun k => .inl ⟨fun ⟨w, hw, hwr, hwk⟩ => ⟨w, ?_, hwr, hwk⟩, rfl, rfl⟩
    rw [hu] at hw
    rcases List.mem_append.1 hw with hw | hw
    · exact List.mem_append_left _ hw
    · rcases List.mem_cons.1 hw with rfl | hw
      · rw [hr] at hwr
        cases hwr
      · exact List.mem_append_right _ hw
  | @eos _ us vs u h hu hh hp =>
    have hg := (hi.gives hp hu hh [{ u with isReadable := false }] fun w hw => by
      rw [List.mem_singleton.1 hw]
      exact ⟨hh, rfl⟩).2
    rwa [List.append_assoc] at hg
  | close h hp =>
    refine hi.given rfl rfl rfl (.inl hp) (fun w hw => ⟨w, hw, rfl⟩) (fun _ => id) (.inl rfl) fun k => ?_
    rcases eq_or_ne k h with rfl | hk
    · exact .inr (.inl (OrdMap.find?_erase_self ..))
    · exact .inl ⟨id, (OrdMap.find?_erase ..).trans (if_neg hk), rfl⟩
  | put h f _ | take h _ =>
    exact hi.given rfl rfl rfl (.inr rfl) (fun w hw => ⟨w, hw, rfl⟩) (fun _ => id) (.inl rfl) fun k =>
      .inl ⟨id, rfl, rfl⟩

/-! ### The discipline -/

/-- A turn on an entry that is not ready breaks the discipline. -/
theorem turnReady_of_disciplined {o : ShmOp} {p' : ShmProcess H} (hs : ShmStep o p p') (hd : ReadyDiscipline p') :
    TurnReady o p := by
  intro h rest ho hp
  cases hs with
  | turn hp' =>
    cases hp.symm.trans hp'
    unfold ShmProcess.turn ShmSegment.peek at hd
    dsimp only at hd
    rw [if_pos rfl, if_neg (by split <;> decide)] at hd
    refine ⟨hd.full h _ (List.mem_cons_self ..), fun ⟨u, hu, hh⟩ =>
      ?_, hd.apart h ⟨_, List.mem_append_right _ (List.mem_singleton_self _), rfl⟩⟩
    have hnodup := hd.nodup
    change (List.map _ (p.handleReady ++ [_])).Nodup at hnodup
    rw [List.map_append, List.nodup_append] at hnodup
    exact hnodup.2.2 _ (List.mem_map_of_mem hu) _ (List.mem_singleton_self _) hh
  | _ => cases ho

/-- In every run in which the entries whose flag is set are ready when the loop of `update` comes to them, the
queue keeps its discipline in every state reached; and the first step that does otherwise breaks it. -/
theorem readyQueue_disciplined (h : Runs.Reach ShmStarts (fun o p p' => ShmStep o p p' ∧ TurnReady o p) p) :
    ReadyDiscipline p ∧ ∀ o p', ShmStep o p p' → (ReadyDiscipline p' ↔ TurnReady o p) := by
  have hi : ReadyInv p := h.invariant ReadyInv (fun _ => ReadyInv.start) fun _ _ _ hi hs => hi.step hs.1 hs.2
  exact ⟨hi.discipline, fun o p' hs => ⟨turnReady_of_disciplined hs, fun hr => (hi.step hs hr).discipline⟩⟩

end

section

private def started : ShmProcess Nat := { segs := fun _ => emptySegment }

private def connected : ShmProcess Nat := started.connect 0 emptySegment true

private def yielded : ShmProcess Nat :=
  ({ connected with users := [⟨some 0, false, false⟩] } : ShmProcess Nat).notifyYield 0

/-- What the connection holds when `update` passes it. -/
private def passed (seg : ShmSegment) : ShmProcess Nat :=
  ({ yielded with
    segs := Function.update yielded.segs 0 seg
    pass := some [(0, true)] } : ShmProcess Nat).turn (0, true) []

private def byteSegment : ShmSegment := (yielded.segs 0).fill (Fill.next 1 [7])

private theorem reach_yielded {P : ShmOp → ShmProcess Nat → Prop} (h : ∀ o p, o ≠ .turn → P o p) :
    Runs.Reach ShmStarts (fun o p p' => ShmStep o p p' ∧ P o p) yielded := by
  have h0 : ShmStarts started := ⟨rfl, rfl, rfl, rfl, rfl, rfl⟩
  have hf : started.Fresh 0 := ⟨rfl, nofun, nofun, nofun, rfl⟩
  have h1 : Runs.Reach ShmStarts (fun o p p' => ShmStep o p p' ∧ P o p) connected :=
    .next ShmOp.connect (.start h0) ⟨ShmStep.connect emptySegment true rfl hf, h _ _ nofun⟩
  exact Runs.Reach.next ShmOp.yield h1
    ⟨@ShmStep.yield _ _ connected [] [] ⟨some 0, true, true⟩ 0 rfl rfl rfl, h _ _ nofun⟩

/-- The peer puts a message of one byte, and `update` passes the connection. -/
theorem readyQueue_disciplined_run : ReadyDiscipline (passed byteSegment) := by
  have h1 := reach_yielded (P := TurnReady) fun o p ho h rest he => absurd he ho
  have h2 := Runs.Reach.next ShmOp.put h1 ⟨ShmStep.put 0 (Fill.next 1 [7]) rfl, nofun⟩
  have h3 := Runs.Reach.next ShmOp.begin h2 ⟨ShmStep.begin rfl rfl, nofun⟩
  have h4 := Runs.Reach.next ShmOp.turn h3 ⟨@ShmStep.turn _ _ _ (0, true) [] rfl, fun h rest _ hp => by
    cases hp
    refine ⟨rfl, nofun, ?_⟩
    rintro ⟨u, hu, hr, -⟩
    rw [List.mem_singleton.1 hu] at hr
    cases hr⟩
  exact (readyQueue_disciplined h4).1

/-- The peer has put nothing when `update` passes the connection for the first time; or it has put one message,
and `update` passes the connection twice. -/
theorem readyQueue_undisciplined :
    (∃ p : ShmProcess Nat, Runs.Reach ShmStarts ShmStep p ∧ .push 0 false ∈ p.log) ∧
    (∃ p : ShmProcess Nat, Runs.Reach ShmStarts ShmStep p ∧ p.log = [.push 0 true, .push 0 true, .yield 0] ∧
      p.handleReady.map HandleUser.realHandle = [some 0, some 0]) ∧
    ¬∀ p : ShmProcess Nat, Runs.Reach ShmStarts ShmStep p → ReadyDiscipline p := by
  have h1 : Runs.Reach ShmStarts ShmStep yielded :=
    (reach_yielded (P := fun _ _ => True) fun _ _ _ => trivial).mono fun _ _ _ h => h.1
  have hempty : Runs.Reach ShmStarts ShmStep
      (({ yielded with pass := some [(0, true)] } : ShmProcess Nat).turn (0, true) []) :=
    .next ShmOp.turn (.next ShmOp.begin h1 (ShmStep.begin rfl rfl)) (@ShmStep.turn _ _ _ (0, true) [] rfl)
  have h2 := Runs.Reach.next ShmOp.put h1 (ShmStep.put 0 (Fill.next 1 [7]) rfl)
  have h3 := Runs.Reach.next ShmOp.begin h2 (ShmStep.begin rfl rfl)
  have h4 := Runs.Reach.next ShmOp.turn h3 (@ShmStep.turn _ _ _ (0, true) [] rfl)
  have h5 := Runs.Reach.next ShmOp.finish h4 (ShmStep.finish rfl)
  have h6 := Runs.Reach.next ShmOp.begin h5 (ShmStep.begin rfl rfl)
  have h7 := Runs.Reach.next ShmOp.turn h6 (@ShmStep.turn _ _ _ (0, true) [] rfl)
  refine ⟨⟨_, hempty, List.mem_cons_self ..⟩, ⟨_, h7, rfl, rfl⟩, fun h => ?_⟩
  have hfull := (h _ hempty).full 0 false (List.mem_cons_self ..)
  cases hfull

end

end Mtcl
