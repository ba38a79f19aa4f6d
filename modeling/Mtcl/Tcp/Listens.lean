import Mathlib.Data.Finset.Lattice.Lemmas
import Mtcl.Tcp.Invariant

/-!
# Several calls of `listen`

`ConnTcp::listen` writes its new socket over the one it had, before it knows whether it can listen on it, and
then resets the polled set.  `listens_keep_iff` says when earlier calls and connections survive this: a call
that fails must come when no listening socket is polled, and a call that succeeds when nothing is polled at all.
-/

namespace Mtcl

namespace Process

/-- The socket on which the call of `listen` listens when it returns `0`; `none` when it returns `-1`. -/
def listened (p : Process) (sck : Option (Nat × Bool)) : Option Nat :=
  match sck.filter fun s => decide (s.1 ∉ p.openFds) with
  | none => none
  | some (x, ok) => if ok then some x else none

/-- The polled sockets that `update` takes for listening ones. -/
def recognised (p : Process) : Finset Nat := p.conn.set.filter fun x => p.conn.listenSck = some x

/-- The sockets on which somebody listens are polled and recognised, and so is every connection polled that has
been yielded and not been pushed since, and is not closed. -/
structure Serves (p : Process) (sockets : Finset Nat) : Prop where
  accepted : sockets ⊆ p.recognised
  yielded : ∀ id < p.allocated, (p.handles id).closedRd = false → armed id p.log = true →
    ∃ fd ∈ p.conn.set, (p.handles id).fd = some fd

/-- The polled set, its maximum and the recognised sockets are as they were. -/
structure Undisturbed (p p' : Process) : Prop where
  set : p'.conn.set = p.conn.set
  fdmax : p'.conn.fdmax = p.conn.fdmax
  recognised : p'.recognised = p.recognised

/-- When the call fails no listening socket is polled, and when it succeeds nothing is. -/
def ListenFits (p : Process) (sck : Option (Nat × Bool)) : Prop :=
  if p.listened sck = none then p.recognised = ∅ else p.conn.set = ∅

theorem mem_recognised {p : Process} {x : Nat} : x ∈ p.recognised ↔ x ∈ p.conn.set ∧ p.conn.listenSck = some x :=
  Finset.mem_filter

theorem recognised_of_conn {p q : Process} (h : q.conn = p.conn) : q.recognised = p.recognised := by
  unfold recognised
  rw [h]

/-! ### What `listen` does -/

/-- A call that returns `-1` forgets the socket there was. -/
theorem listen_fails {p : Process} {sck : Option (Nat × Bool)} (h : p.listened sck = none) :
    (p.listen sck).conn.set = p.conn.set ∧ (p.listen sck).conn.fdmax = p.conn.fdmax ∧
      (p.listen sck).conn.connections = p.conn.connections ∧ (p.listen sck).handles = p.handles ∧
      (p.listen sck).allocated = p.allocated ∧ (p.listen sck).log = p.log ∧
      ∀ x, (p.listen sck).conn.listenSck = some x → x ∉ p.openFds := by
  cases hsck : sck.filter fun s => decide (s.1 ∉ p.openFds) with
  | none =>
    unfold listen
    rw [hsck]
    exact ⟨rfl, rfl, rfl, rfl, rfl, rfl, fun y hy => by cases hy⟩
  | some s =>
    obtain ⟨x, ok⟩ := s
    have hx : x ∉ p.openFds := by simpa using (Option.filter_eq_some_iff.1 hsck).2
    unfold listened at h
    rw [hsck] at h
    cases ok with
    | true => cases h
    | false =>
      unfold listen
      rw [hsck]
      refine ⟨rfl, rfl, rfl, rfl, rfl, rfl, fun y hy => ?_⟩
      have hxy : x = y := Option.some.inj hy
      rw [← hxy]
      exact hx

/-- A call that returns `0` polls its socket and nothing else. -/
theorem listen_succeeds {p : Process} {sck : Option (Nat × Bool)} {x : Nat} (h : p.listened sck = some x) :
    x ∉ p.openFds ∧ (p.listen sck).conn.set = {x} ∧ (p.listen sck).conn.listenSck = some x ∧
      (p.listen sck).conn.connections = p.conn.connections ∧ (p.listen sck).handles = p.handles ∧
      (p.listen sck).allocated = p.allocated ∧ (p.listen sck).log = p.log := by
  unfold listened at h
  cases hsck : sck.filter fun s => decide (s.1 ∉ p.openFds) with
  | none =>
    rw [hsck] at h
    cases h
  | some s =>
    obtain ⟨y, ok⟩ := s
    have hy : y ∉ p.openFds := by simpa using (Option.filter_eq_some_iff.1 hsck).2
    rw [hsck] at h
    cases ok with
    | false => cases h
    | true =>
      cases h
      unfold listen
      rw [hsck]
      exact ⟨hy, rfl, rfl, rfl, rfl, rfl, rfl⟩

/-! ### What the other operations do -/

private theorem armed_of_unknown {id : Nat} {log : List Event} (h : ∀ e ∈ log, e.handle ≠ id) :
    armed id log = false := by
  induction log with
  | nil => rfl
  | cons e log ih =>
    have hrest := ih fun e' he' => h e' (List.mem_cons_of_mem _ he')
    have hne := h e (List.mem_cons_self ..)
    cases e with
    | eos i => exact hrest
    | closed i fd => exact hrest
    | pushed i => rw [armed, hrest, Bool.and_false]
    | polled i =>
      have hi : i ≠ id := hne
      rw [armed, hrest, Bool.or_false]
      simpa using hi

private theorem armed_eosEvent (p : Process) (id i : Nat) (wr : Bool) :
    armed i (p.eosEvent id wr ++ p.log) = armed i p.log := by
  unfold eosEvent
  split <;> rfl

/-- What a run with these sockets keeps. -/
structure ServesInv (p : Process) (sockets : Finset Nat) : Prop where
  inv : p.Inv
  listen : p.ListenInv
  polled : PolledInv p.conn
  serves : p.Serves sockets
  listed : p.recognised ⊆ sockets

variable {p q : Process} {sockets : Finset Nat}

private theorem ServesInv.not_listening (h : p.ServesInv sockets) {id fd x : Nat} (hid : id < p.allocated)
    (hfd : (p.handles id).fd = some fd) (hx : p.conn.listenSck = some x) : x ≠ fd := by
  rintro rfl
  exact (h.listen x hx).2 id hid hfd

private theorem ServesInv.apart (h : p.ServesInv sockets) {id i fd x : Nat} (hid : id < p.allocated)
    (hi : i < p.allocated) (hfd : (p.handles id).fd = some fd) (hx : (p.handles i).fd = some x)
    (hne : i ≠ id) : x ≠ fd := by
  rintro rfl
  exact hne (h.inv.1.inj i hi id hid x hx hfd)

/-- Putting a descriptor that is not the listening socket into the set, or taking it out, leaves the listening
sockets. -/
private theorem recognised_of_set (fd : Nat) (hsck : p.conn.listenSck ≠ some fd)
    (hl : q.conn.listenSck = p.conn.listenSck) (hset : ∀ x, x ≠ fd → (x ∈ q.conn.set ↔ x ∈ p.conn.set)) :
    q.recognised = p.recognised := by
  ext x
  rw [mem_recognised, mem_recognised, hl]
  by_cases hx : x = fd
  · rw [hx]
    exact iff_of_false (fun h => hsck h.2) fun h => hsck h.2
  · rw [hset x hx]

/-- No operation but `listen` changes which listening sockets there are. -/
private theorem ServesInv.recognised_step (h : p.ServesInv sockets) (hstep : p.TableStep q) :
    q.recognised = p.recognised := by
  cases hstep with
  | same hs => exact recognised_of_conn hs.conn
  | @close id hid wr rd =>
    rcases hfd : (p.handles id).fd with _ | fd
    · exact recognised_of_conn (p.closeHandle_noFd hfd wr rd).1
    · have hconn := (p.closeHandle_table hfd (fun hrd => by simp [h.inv.has_entry hid hfd hrd]) wr rd).1
      split at hconn
      · refine recognised_of_set fd (fun e => h.not_listening hid hfd e rfl) (by rw [hconn]; rfl) fun x hx => ?_
        rw [hconn]
        exact ⟨Finset.mem_of_mem_erase, fun hm => Finset.mem_erase.2 ⟨hx, hm⟩⟩
      · exact recognised_of_conn hconn
  | delete hid => exact recognised_of_conn (p.deleteUnused_handles _).2.1
  | @yield id hid hrd =>
    obtain ⟨fd, e1, e2⟩ := h.inv.1.listed _ hid hrd
    change (p.handles _).fd = some fd at e1
    refine recognised_of_set fd (fun e => h.not_listening hid e1 e rfl) ?_ fun x hx => ?_
    · unfold notifyYield
      rw [e1, hrd]
      rfl
    · unfold notifyYield
      rw [e1, hrd]
      exact ⟨fun hm => (Finset.mem_insert.1 hm).resolve_left hx, Finset.mem_insert_of_mem⟩
  | add hs => rfl
  | @clear idx hset hsck he =>
    exact recognised_of_set idx hsck rfl fun x hx => ⟨Finset.mem_of_mem_erase, fun hm => Finset.mem_erase.2 ⟨hx, hm⟩⟩
  | @push idx id hset hsck he =>
    exact recognised_of_set idx hsck rfl fun x hx => ⟨Finset.mem_of_mem_erase, fun hm => Finset.mem_erase.2 ⟨hx, hm⟩⟩

/-- No operation but `listen` takes a connection that has been yielded off the polled set, but for pushing it. -/
private theorem ServesInv.yielded_step (h : p.ServesInv sockets) (hstep : p.TableStep q) {i : Nat}
    (hi : i < q.allocated) (hopen : (q.handles i).closedRd = false) (harmed : armed i q.log = true) :
    ∃ fd ∈ q.conn.set, (q.handles i).fd = some fd := by
  have hold := h.serves.yielded i
  cases hstep with
  | same hs =>
    have hc : (q.handles i).control = (p.handles i).control := congrFun hs.control i
    have hrd : (q.handles i).closedRd = (p.handles i).closedRd := congrArg Control.closedRd hc
    have hfd : (q.handles i).fd = (p.handles i).fd := congrArg Control.fd hc
    rw [hs.conn, hfd]
    rw [hs.allocated] at hi
    rw [hrd] at hopen
    rw [hs.log] at harmed
    exact hold hi hopen harmed
  | @close id hid wr rd =>
    obtain ⟨⟨hn, -⟩, fd', wire, answers, eos, deleted, hh, -⟩ := p.closeHandle_handles id wr rd
    rw [hn] at hi
    have hsame : i ≠ id → (p.closeHandle id wr rd).handles i = p.handles i := by
      intro hne
      rw [hh, Function.update_of_ne hne]
    have hrd : (p.handles i).closedRd = false := by
      by_cases hne : i = id
      · rw [hh, hne, Function.update_self] at hopen
        rw [hne]
        exact (Bool.or_eq_false_iff.1 hopen).1
      · rw [hsame hne] at hopen
        exact hopen
    rcases hfd : (p.handles id).fd with _ | fd
    · obtain ⟨hconn, -, hlog, -⟩ := p.closeHandle_noFd hfd wr rd
      have hne : i ≠ id := by
        rintro rfl
        have hclosed := ((h.inv.1.noFd i hid).1 hfd).1
        rw [show (p.control i).closedRd = (p.handles i).closedRd from rfl, hrd] at hclosed
        cases hclosed
      rw [hlog, armed_eosEvent] at harmed
      rw [hconn, hsame hne]
      exact hold hi hrd harmed
    · obtain ⟨hconn, -, hlog, hfd'⟩ := p.closeHandle_table hfd (fun hrd => by simp [h.inv.has_entry hid hfd hrd]) wr rd
      have hlog' : armed i (p.closeHandle id wr rd).log = armed i p.log := by
        rw [hlog]
        split
        · exact armed_eosEvent p id i wr
        · exact armed_eosEvent p id i wr
      rw [hlog'] at harmed
      obtain ⟨x, hx, hfdx⟩ := hold hi hrd harmed
      by_cases hne : i = id
      · -- the read side stays open, so the connector is as it was
        subst hne
        have hflags : ((p.handles i).closedRd || rd) = false := by
          rw [hh, Function.update_self] at hopen
          exact hopen
        rw [hflags, Bool.false_and] at hfd'
        rw [hflags] at hconn
        rw [hconn, hfd', ← hfd]
        exact ⟨x, hx, hfdx⟩
      · rw [hsame hne]
        refine ⟨x, ?_, hfdx⟩
        rw [hconn]
        split
        · exact Finset.mem_erase.2 ⟨h.apart hid hi hfd hfdx hne, hx⟩
        · exact hx
  | @delete id hid =>
    obtain ⟨⟨hn, -⟩, hconn, -, hlog, deleted, hh, -⟩ := p.deleteUnused_handles id
    have hboth : ((p.deleteUnused id).handles i).fd = (p.handles i).fd ∧
        ((p.deleteUnused id).handles i).closedRd = (p.handles i).closedRd := by
      rw [hh]
      by_cases hne : i = id
      · rw [hne, Function.update_self]
        exact ⟨rfl, rfl⟩
      · rw [Function.update_of_ne hne]
        exact ⟨rfl, rfl⟩
    rw [hboth.1, hconn]
    rw [hn] at hi
    rw [hboth.2] at hopen
    rw [hlog] at harmed
    exact hold hi hopen harmed
  | @yield id hid hrd =>
    obtain ⟨fd, e1, e2⟩ := h.inv.1.listed _ hid hrd
    change (p.handles _).fd = some fd at e1
    have heq : p.notifyYield id = { p with conn := p.conn.fdSet fd, log := .polled id :: p.log } := by
      unfold notifyYield
      rw [e1, hrd]
      rfl
    rw [heq] at hi hopen harmed ⊢
    by_cases hne : i = id
    · rw [hne]
      exact ⟨fd, Finset.mem_insert_self .., e1⟩
    · have hold' : armed i p.log = true := by
        rw [armed, Bool.or_eq_true] at harmed
        rcases harmed with hid' | harmed
        · exact absurd (by simpa using hid' : id = i) (Ne.symm hne)
        · exact harmed
      obtain ⟨x, hx, hfdx⟩ := hold hi hopen hold'
      exact ⟨x, Finset.mem_insert_of_mem hx, hfdx⟩
  | @add s hs =>
    have hlt : i < p.allocated + 1 := hi
    by_cases hne : i = p.allocated
    · have hnone : armed i p.log = false := armed_of_unknown fun e he hei => by
        have := h.inv.2.known e he
        omega
      rw [show armed i (p.newHandle s).log = armed i p.log from rfl, hnone] at harmed
      cases harmed
    · have hsame : (p.newHandle s).handles i = p.handles i := put_handles_ne _ _ hne
      rw [hsame] at hopen ⊢
      exact hold (by omega) hopen harmed
  | @clear idx hset hsck he =>
    obtain ⟨x, hx, hfdx⟩ := hold hi hopen harmed
    refine ⟨x, Finset.mem_erase.2 ⟨?_, hx⟩, hfdx⟩
    rintro rfl
    rw [h.inv.has_entry hi hfdx hopen] at he
    cases he
  | @push idx id hset hsck he =>
    rw [armed, Bool.and_eq_true] at harmed
    obtain ⟨x, hx, hfdx⟩ := hold hi hopen harmed.2
    refine ⟨x, Finset.mem_erase.2 ⟨?_, hx⟩, hfdx⟩
    rintro rfl
    rw [h.inv.has_entry hi hfdx hopen] at he
    cases he
    simp at harmed

/-- Every operation but `listen` keeps what a run keeps. -/
theorem ServesInv.step (h : p.ServesInv sockets) (hstep : p.TableStep q) : q.ServesInv sockets := by
  have hrec := h.recognised_step hstep
  refine ⟨inv_tableStep h.inv hstep, listenInv_evolves h.inv h.listen (.single hstep),
    polledInv_evolves h.inv h.polled (.single hstep),
    ⟨?_, fun i hi hopen harmed => h.yielded_step hstep hi hopen harmed⟩, ?_⟩
  · rw [hrec]
    exact h.serves.accepted
  · rw [hrec]
    exact h.listed

theorem ServesInv.evolves (h : p.ServesInv sockets) (he : p.Evolves q) : q.ServesInv sockets := by
  induction he with
  | refl => exact h
  | tail _ hstep ih => exact ih.step hstep

/-! ### Calls of `listen` that fit -/

private theorem ServesInv.recognised_fails (h : p.ServesInv sockets) {sck : Option (Nat × Bool)}
    (hfails : p.listened sck = none) : (p.listen sck).recognised = ∅ := by
  obtain ⟨hset, -, -, -, -, -, hnew⟩ := listen_fails hfails
  refine Finset.eq_empty_of_forall_notMem fun x hx => ?_
  obtain ⟨hx, hsck⟩ := mem_recognised.1 hx
  rw [hset] at hx
  exact hnew x hsck (h.inv.1.polled x hx)

private theorem undisturbed_of_fits (h : p.ServesInv sockets) {sck : Option (Nat × Bool)}
    (hfails : p.listened sck = none) (hnone : p.recognised = ∅) : p.Undisturbed (p.listen sck) := by
  obtain ⟨hset, hmax, -⟩ := listen_fails hfails
  refine ⟨hset, hmax, ?_⟩
  rw [hnone]
  exact h.recognised_fails hfails

private theorem ServesInv.fails (h : p.ServesInv sockets) {sck : Option (Nat × Bool)} (hfails : p.listened sck = none)
    (hnone : p.recognised = ∅) (hi : (p.listen sck).Inv) (hl : (p.listen sck).ListenInv) :
    (p.listen sck).ServesInv sockets := by
  obtain ⟨hset, -, hconn, hhandles, halloc, hlog, -⟩ := listen_fails hfails
  have hrec := h.recognised_fails hfails
  refine ⟨hi, hl, fun x hx => ?_, ⟨?_, fun i hi' hopen harmed => ?_⟩, ?_⟩
  · rw [hset] at hx
    rcases h.polled x hx with hsck | hentry
    · have hmem : x ∈ p.recognised := mem_recognised.2 ⟨hx, hsck⟩
      rw [hnone] at hmem
      cases hmem
    · rw [hconn]
      exact Or.inr hentry
  · rw [hrec, ← hnone]
    exact h.serves.accepted
  · rw [halloc] at hi'
    rw [hhandles] at hopen ⊢
    rw [hlog] at harmed
    rw [hset]
    exact h.serves.yielded i hi' hopen harmed
  · rw [hrec]
    exact Finset.empty_subset _

/-- The call that succeeds when nothing is polled. -/
private theorem ServesInv.succeeds (h : p.ServesInv sockets) {sck : Option (Nat × Bool)} {x : Nat}
    (hsucceeds : p.listened sck = some x) (hempty : p.conn.set = ∅) (hi : (p.listen sck).Inv)
    (hl : (p.listen sck).ListenInv) : (p.listen sck).ServesInv (insert x sockets) := by
  obtain ⟨-, hset, hsck, -, hhandles, halloc, hlog⟩ := listen_succeeds hsucceeds
  have hnone : sockets = ∅ := by
    refine Finset.subset_empty.1 (h.serves.accepted.trans ?_)
    rw [recognised, hempty]
    exact Finset.empty_subset _
  have hrec : (p.listen sck).recognised = {x} := by
    ext y
    rw [mem_recognised, hset, hsck, Finset.mem_singleton]
    exact ⟨And.left, fun e => ⟨e, congrArg some e.symm⟩⟩
  refine ⟨hi, hl, fun y hy => ?_, ⟨?_, fun i hi' hopen harmed => ?_⟩, ?_⟩
  · rw [hset] at hy
    rw [hsck, Finset.mem_singleton.1 hy]
    exact Or.inl rfl
  · rw [hrec, hnone]
    exact Finset.Subset.refl _
  · rw [halloc] at hi'
    rw [hhandles] at hopen
    rw [hlog] at harmed
    obtain ⟨y, hy, -⟩ := h.serves.yielded i hi' hopen harmed
    rw [hempty] at hy
    cases hy
  · rw [hrec, hnone]
    exact Finset.Subset.refl _

private theorem ServesInv.empty_of_serves (h : p.ServesInv sockets) {sck : Option (Nat × Bool)} {x : Nat}
    (hsucceeds : p.listened sck = some x) (hs : (p.listen sck).Serves (insert x sockets)) : p.conn.set = ∅ := by
  obtain ⟨hnew, hset, -, -, hhandles, halloc, hlog⟩ := listen_succeeds hsucceeds
  refine Finset.eq_empty_of_forall_notMem fun y hy => ?_
  have hopened := h.inv.1.polled y hy
  have hgone : y ∉ (p.listen sck).conn.set := by
    rw [hset, Finset.mem_singleton]
    rintro rfl
    exact hnew hopened
  rcases h.polled y hy with hsck | ⟨i, hentry⟩
  · have hlisted : y ∈ sockets := h.listed (mem_recognised.2 ⟨hy, hsck⟩)
    have hrec := hs.accepted (Finset.mem_insert_of_mem hlisted)
    exact hgone (mem_recognised.1 hrec).1
  · obtain ⟨hi, hfd, hrd⟩ := h.inv.1.entry y i hentry
    have harmed := h.inv.2.armed y hy i hentry
    have hkept := hs.yielded i
    rw [hhandles, halloc, hlog] at hkept
    obtain ⟨z, hz, hfdz⟩ := hkept hi hrd harmed
    have hyz : z = y := Option.some.inj (hfdz.symm.trans hfd)
    rw [hyz] at hz
    exact hgone hz

end Process

/-! ### Runs -/

namespace App

/-- The sockets on which the operation begins to listen. -/
def sockets (p : Process) : Op → Finset Nat
  | .listen sck => match p.listened sck with
    | none => ∅
    | some x => {x}
  | _ => ∅

/-- One operation; the second component holds the sockets on which calls of `listen` have returned `0`. -/
def ListenStep (o : Op) (s s' : App × Finset Nat) : Prop :=
  s.1.step o = .ok s'.1 ∧ s'.2 = sockets s.1.proc o ∪ s.2

theorem ListenStep.mk' {o : Op} {s : App × Finset Nat} {a : App} (h : s.1.step o = .ok a) :
    ListenStep o s (a, sockets s.1.proc o ∪ s.2) := ⟨h, rfl⟩

/-- After the operation everything that somebody waits for is served, and a call of `listen` that has returned `-1` has
disturbed nothing. -/
def Kept (o : Op) (s s' : App × Finset Nat) : Prop :=
  s'.1.proc.Serves s'.2 ∧ ∀ sck, o = .listen sck → s.1.proc.listened sck = none → s.1.proc.Undisturbed s'.1.proc

/-- A call of `listen` fits what is polled. -/
def Fits (p : Process) : Op → Prop
  | .listen sck => p.ListenFits sck
  | _ => True

/-- The states of every run whose calls of `listen` all fit. -/
def ReachableFitting : App × Finset Nat → Prop :=
  Runs.Reach (fun s => Init s.1 ∧ s.2 = ∅) fun o s s' => Fits s.1.proc o ∧ ListenStep o s s'

variable {s s' : App × Finset Nat} {o : Op}

private theorem sockets_of_ne (p : Process) (ho : ∀ sck, o ≠ .listen sck) : sockets p o = ∅ := by
  cases o <;> first | rfl | exact absurd rfl (ho _)

/-- A call of `listen` keeps what a run keeps just when it fits. -/
private theorem listen_kept_iff {sck : Option (Nat × Bool)} (h : s.1.proc.ServesInv s.2) (hi : s'.1.proc.Inv)
    (hl : s'.1.proc.ListenInv) (hstep : ListenStep (.listen sck) s s') :
    (Kept (.listen sck) s s' ↔ s.1.proc.ListenFits sck) ∧ (s.1.proc.ListenFits sck → s'.1.proc.ServesInv s'.2) := by
  obtain ⟨hrun, hsockets⟩ := hstep
  have hproc : s'.1.proc = s.1.proc.listen sck := congrArg App.proc (Except.ok.inj hrun).symm
  unfold Kept Process.ListenFits
  rw [hproc] at hi hl ⊢
  rcases hsck : s.1.proc.listened sck with _ | x
  · have hsame : s'.2 = s.2 := by
      rw [hsockets, sockets, hsck]
      exact Finset.empty_union _
    rw [hsame, if_pos rfl]
    refine ⟨⟨fun hk => ?_, fun hnone => ?_⟩, fun hnone => h.fails hsck hnone hi hl⟩
    · rw [← (hk.2 sck rfl hsck).recognised]
      exact h.recognised_fails hsck
    · refine ⟨(h.fails hsck hnone hi hl).serves, fun sck' he _ => ?_⟩
      cases he
      exact Process.undisturbed_of_fits h hsck hnone
  · have hmore : s'.2 = insert x s.2 := by
      rw [hsockets, sockets, hsck]
      rfl
    rw [hmore, if_neg nofun]
    refine ⟨⟨fun hk => h.empty_of_serves hsck hk.1, fun hempty => ?_⟩, fun hempty => h.succeeds hsck hempty hi hl⟩
    refine ⟨(h.succeeds hsck hempty hi hl).serves, fun sck' he hnone => ?_⟩
    cases he
    rw [hsck] at hnone
    cases hnone

private theorem step_servesInv (h : s.1.proc.ServesInv s.2) (ho : ∀ sck, o ≠ .listen sck) (hstep : ListenStep o s s') :
    s'.1.proc.ServesInv s'.2 := by
  obtain ⟨hrun, hsockets⟩ := hstep
  rw [hsockets, sockets_of_ne _ ho, Finset.empty_union]
  exact h.evolves (step_evolves ho hrun)

private theorem ReachableFitting.inv (h : ReachableFitting s) : Reachable s.1 ∧ s.1.proc.ServesInv s.2 := by
  refine Runs.Reach.invariant (fun s => Reachable s.1 ∧ s.1.proc.ServesInv s.2) ?_ ?_ h
  · rintro s ⟨hinit, hnone⟩
    have hreach : Reachable s.1 := .start hinit
    obtain ⟨garbage, hproc, -⟩ := hinit
    refine ⟨hreach, hreach.inv, hreach.listenInv, ?_, ⟨?_, ?_⟩, ?_⟩
    · rw [hproc]
      exact fun x hx => absurd hx (Finset.notMem_empty x)
    · rw [hnone]
      exact Finset.empty_subset _
    · rw [hproc]
      exact fun i hi => absurd hi (Nat.not_lt_zero i)
    · rw [hproc]
      exact fun x hx => absurd (Process.mem_recognised.1 hx).1 (Finset.notMem_empty x)
  · rintro o s s' ⟨hreach, hinv⟩ ⟨hfits, hstep⟩
    have hreach' : Reachable s'.1 := .next o hreach hstep.1
    refine ⟨hreach', ?_⟩
    by_cases ho : ∃ sck, o = .listen sck
    · obtain ⟨sck, rfl⟩ := ho
      exact (listen_kept_iff hinv hreach'.inv hreach'.listenInv hstep).2 hfits
    · exact step_servesInv hinv (fun sck e => ho ⟨sck, e⟩) hstep

end App

/-- In a run whose calls of `listen` come, those that fail, when no listening socket is polled, and those that
succeed, when nothing is polled, every socket on which a call has returned `0` is polled and recognised in every
state, and every connection polled that was yielded and not pushed since; and the first call that does not fit
takes one of them away, or fails and leaves another set or other listening sockets. -/
theorem listens_keep_iff {s : App × Finset Nat} (h : App.ReachableFitting s) :
    s.1.proc.Serves s.2 ∧ ∀ o s', App.ListenStep o s s' → (App.Kept o s s' ↔ App.Fits s.1.proc o) := by
  obtain ⟨hreach, hinv⟩ := h.inv
  refine ⟨hinv.serves, fun o s' hstep => ?_⟩
  by_cases ho : ∃ sck, o = .listen sck
  · obtain ⟨sck, rfl⟩ := ho
    have hreach' : App.Reachable s'.1 := .next _ hreach hstep.1
    exact (App.listen_kept_iff hinv hreach'.inv hreach'.listenInv hstep).1
  · have hne : ∀ sck, o ≠ .listen sck := fun sck e => ho ⟨sck, e⟩
    refine iff_of_true ⟨(App.step_servesInv hinv hne hstep).serves, fun sck e => absurd e (hne sck)⟩ ?_
    cases o <;> first | trivial | exact absurd rfl (hne _)

/-- A call that gets no socket, one that listens on the socket 3, and a connection that is yielded. -/
theorem listens_keep_run :
    ∃ s : App × Finset Nat, s.2 = {3} ∧ s.1.proc.log = [.polled 0] ∧ s.1.proc.Serves s.2 ∧
      ∃ s', App.ListenStep (.listen none) s s' ∧ ¬ App.Kept (.listen none) s s' := by
  have h0 : App.ReachableFitting ({}, ∅) := .start ⟨⟨fun _ => 0, rfl, fun _ => rfl⟩, rfl⟩
  have h1 := Runs.Reach.next (Op.listen none) h0 ⟨rfl, .mk' rfl⟩
  have h2 := Runs.Reach.next (Op.listen (some (3, true))) h1 ⟨rfl, .mk' rfl⟩
  have h3 := Runs.Reach.next (Op.connect 0 (some { fd := 5 })) h2 ⟨trivial, .mk' rfl⟩
  have h4 := Runs.Reach.next (Op.yield 0) h3 ⟨trivial, .mk' rfl⟩
  have hkeep := listens_keep_iff h4
  refine ⟨_, rfl, rfl, hkeep.1, _, .mk' rfl, fun hk => ?_⟩
  have hfits : _ = (∅ : Finset Nat) := (hkeep.2 (.listen none) _ (.mk' rfl)).1 hk
  exact absurd hfits (by decide)

/-- The second endpoint takes the place of the first one, whose socket is not polled any more, nor is the
connection that was yielded; and when the second call fails the first socket stays polled and is no listening
socket any more. -/
theorem listens_lost :
    (∃ s : App × Finset Nat, Runs.Reach (fun s => App.Init s.1 ∧ s.2 = ∅) App.ListenStep s ∧ 3 ∈ s.2 ∧
      s.1.proc.conn.set = {4} ∧ (s.1.proc.handles 0).fd = some 5 ∧ s.1.proc.log = [.polled 0]) ∧
    ∃ s : App × Finset Nat, Runs.Reach (fun s => App.Init s.1 ∧ s.2 = ∅) App.ListenStep s ∧ 3 ∈ s.2 ∧
      s.1.proc.conn.set = {3} ∧ s.1.proc.conn.listenSck = none := by
  have h0 : Runs.Reach (fun s => App.Init s.1 ∧ s.2 = ∅) App.ListenStep ({}, ∅) :=
    .start ⟨⟨fun _ => 0, rfl, fun _ => rfl⟩, rfl⟩
  have h1 := Runs.Reach.next (Op.listen (some (3, true))) h0 (.mk' rfl)
  have h2 := Runs.Reach.next (Op.connect 0 (some { fd := 5 })) h1 (.mk' rfl)
  have h3 := Runs.Reach.next (Op.yield 0) h2 (.mk' rfl)
  have h4 := Runs.Reach.next (Op.listen (some (4, true))) h3 (.mk' rfl)
  have h5 := Runs.Reach.next (Op.listen none) h1 (.mk' rfl)
  exact ⟨⟨_, h4, by decide, rfl, rfl, rfl⟩, _, h5, by decide, rfl, rfl⟩

end Mtcl
