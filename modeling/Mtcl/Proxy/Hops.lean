import Mtcl.Base.Pairing
import Mtcl.Proxy.Listening

/-!
# Connections of one hop

A connection within the pool of a proxy has two ends: the handle of the process that asked for it, and the one the proxy
has made to the other process.  `proc2proc` maps the ID of each end to that of the other, and both handles are in
`id2handle`.

The ends can send EOS in either order.  When the second one has, `closeHop` erases what the tables have under
the ID of the first, and leaves what they have under that of the second.  `hops_cleaned` says that the tables
are as they should be after an iteration exactly when it is not the one in which a second end has sent EOS.
-/

namespace Mtcl

open Safety

variable {T : Type}

/-! ### One handle -/

section

variable {tr : Transport T} {w w' : Handed T} {id : Nat}

private theorem handed_apart (tr : Transport T) (w0 : Handed T) (id : Nat) :
    (handed tr id).Keeps fun w => ∀ j, j ≠ id → w.1.base j = w0.1.base j := by
  refine handed_keeps_of (fun m => Objects.handle_keeps ?_ ?_) fun _ h => h
  · intro o o' h ht j hj
    cases ht with
    | transport t => exact h j hj
    | put _ _ => exact (Objects.put_base_ne _ _ hj).trans (h j hj)
    | delete =>
      rw [Objects.deleteUnused_base]
      exact h j hj
  · intro o n h j hj
    exact (Objects.put_base_ne _ _ hj).trans (h j hj)

private theorem probe_apart {u u' : HandleUser Nat} {size size' : Nat} {blocking : Bool} {r : Ret}
    (hu : u.realHandle = some id) (h : u.probe (handed tr) size blocking w = .ok (r, size', u', w')) {j : Nat}
    (hj : j ≠ id) : w'.1.base j = w.1.base j := by
  have hk : ∀ i, u.realHandle = some i → (handed tr i).Keeps fun w1 => ∀ j, j ≠ id → w1.1.base j = w.1.base j := by
    intro i hi
    cases hu.symm.trans hi
    exact handed_apart tr w id
  exact HandleUser.probe_keeps_own hk (fun _ _ => rfl) h j hj

/-- Behind `HandleUser::close` the handle is closed on both sides if its read side was closed. -/
private theorem close_isClosed {u : HandleUser Nat} (hu : u.realHandle = some id) (h : u.close (handed tr) w = .ok w')
    {closed : Bool × Bool} (hclosed : u.isClosed (handed tr) w' = .ok closed) :
    closed = ((w.1.base id).closedRd, true) := by
  unfold HandleUser.close at h
  rw [hu] at h
  obtain ⟨o, ho, h⟩ := bind_eq_ok.1 h
  cases h
  change w.1.close tr id true false = .ok o at ho
  unfold HandleUser.isClosed at hclosed
  rw [hu] at hclosed
  obtain ⟨b, hb, hclosed⟩ := bind_eq_ok.1 hclosed
  cases hclosed
  obtain ⟨-, -, rfl⟩ := Objects.deref_eq_ok.1 hb
  change ((o.base id).closedRd, (o.base id).closedWr) = _
  rw [Objects.close_base ho, Function.update_self, Bool.or_false, Bool.or_true]

end

/-! ### What is said -/

namespace Proxy

variable {c : ProxySetting T} {ev : ProxyEvent (Handed T)} {s s' : Proxy (Handed T)} {pools : List (Bytes × List Bytes)}

/-- The handles `i` and `j` are the ends of a connection of one hop, and the proxy holds `j`. -/
def Opposite (c : ProxySetting T) (s : Proxy (Handed T)) (i j : Nat) : Prop :=
  s.proc2proc (c.address i) = some (c.address j) ∧ ∃ u, s.id2handle (c.address j) = some u ∧ u.realHandle = some j

/-- What `getNext` has returned is the EOS of a handle. -/
def EndsNow (c : ProxySetting T) (ev : ProxyEvent (Handed T)) : Prop :=
  ev.isNew = false ∧ ∃ r u w,
    (⟨some ev.id, true, ev.isNew⟩ : HandleUser Nat).probe (handed c.transport) ev.size true ev.world = .ok (r, 0, u, w)

/-- It is the EOS of an end of a connection, and the EOS of the other end has been received before. -/
def BothEnded (c : ProxySetting T) (ev : ProxyEvent (Handed T)) (s : Proxy (Handed T)) : Prop :=
  EndsNow c ev ∧ ∃ j, Opposite c s ev.id j ∧ (ev.world.1.base j).closedRd = true

/-- The tables are as they should be behind an iteration. -/
structure CleansUp (c : ProxySetting T) (ev : ProxyEvent (Handed T)) (s s' : Proxy (Handed T)) : Prop where
  symmetric : Pairing.Symmetric s'.proc2proc
  removed : EndsNow c ev → ∀ j, Opposite c s ev.id j → (ev.world.1.base j).closedRd = true →
    ∀ x, x = c.address ev.id ∨ x = c.address j → s'.proc2proc x = none ∧ s'.id2handle x = none
  others : ∀ x, s.id2handle x ≠ none → x ≠ c.address ev.id → s.proc2proc (c.address ev.id) ≠ some x →
    s'.proc2proc x = s.proc2proc x ∧ s'.id2handle x = s.id2handle x

/-- An iteration for a process of the pool that connects to a component of the pool, sends a message or sends
EOS.  A handle that is new, or is made in the iteration, has an address that no other handle in use has. -/
structure HopStep (c : ProxySetting T) (ev : ProxyEvent (Handed T)) (s s' : Proxy (Handed T)) : Prop where
  process : c.instanceName ev.id ≠ literal ['P']
  within : ev.isNew = true → ∀ sz cs u w comp,
    c.env.readMessage ev ⟨some ev.id, true, ev.isNew⟩ ev.world = .ok (sz, cs, u, w) →
      c.components (afterColon cs) = some comp → poolOf comp = [] ∨ poolOf comp = c.pool
  unheld : ev.isNew = true → s.id2handle (c.address ev.id) = none
  made : ∀ j, ev.world.1.allocated ≤ j → j < s'.world.1.allocated →
    s.id2handle (c.address j) = none ∧ c.address j ≠ c.address ev.id
  iterates : s.iteration c.env ev = .ok s'

/-- The tables that a connection of one hop is in or is looked up in. -/
structure Tables where
  proc2proc : Nat → Option Nat
  id2handle : Nat → Option (HandleUser Nat)
  loc2connID : Bimap Nat Nat

/-- The tables of a proxy. -/
def tables (s : Proxy (Handed T)) : Tables := ⟨s.proc2proc, s.id2handle, s.loc2connID⟩

namespace Tables

variable {t t' : Tables}

/-- What holds of the tables as long as no connection has ended on both sides. -/
structure Paired (c : ProxySetting T) (t : Tables) : Prop where
  symmetric : Pairing.Symmetric t.proc2proc
  proper : ∀ x, t.proc2proc x ≠ some x
  held : ∀ x y, t.proc2proc x = some y → ∃ u j, t.id2handle y = some u ∧ u.realHandle = some j ∧ c.address j = y
  unrouted : t.loc2connID.keyTree.elems = []

/-- What is not held is in no connection. -/
theorem Paired.absent (hp : t.Paired c) {x : Nat} (hx : t.id2handle x = none) : t.proc2proc x = none := by
  cases hy : t.proc2proc x with
  | none => rfl
  | some y =>
    obtain ⟨u, j, hu, -⟩ := hp.held y x ((hp.symmetric x y).1 hy)
    rw [hx] at hu
    cases hu

/-- No connection is made or ended, and what is held is held on; under `dest` there may be another user behind
the same handle. -/
structure Stays (dest : Option Nat) (t t' : Tables) : Prop where
  proc2proc : t'.proc2proc = t.proc2proc
  loc2connID : t'.loc2connID = t.loc2connID
  held : ∀ k u, t.id2handle k = some u →
    ∃ u', t'.id2handle k = some u' ∧ u'.realHandle = u.realHandle ∧ (some k ≠ dest → u' = u)

/-- A connection of the handles with the IDs `a` and `b` is made. -/
structure Joins (c : ProxySetting T) (a b : Nat) (t t' : Tables) : Prop where
  distinct : a ≠ b
  left : t.id2handle a = none
  right : t.id2handle b = none
  proc2proc : t'.proc2proc = Pairing.join t.proc2proc a b
  loc2connID : t'.loc2connID = t.loc2connID
  id2handle : ∃ u v i j, t'.id2handle = Function.update (Function.update t.id2handle b (some v)) a (some u) ∧
    u.realHandle = some i ∧ c.address i = a ∧ v.realHandle = some j ∧ c.address j = b

/-- What the tables have under `b` is erased. -/
structure Cuts (b : Nat) (t t' : Tables) : Prop where
  proc2proc : t'.proc2proc = Pairing.cut t.proc2proc b
  loc2connID : t'.loc2connID = t.loc2connID
  id2handle : t'.id2handle = Function.update t.id2handle b none

theorem Stays.refl (dest : Option Nat) (t : Tables) : t.Stays dest t :=
  ⟨rfl, rfl, fun _ u hu => ⟨u, hu, rfl, fun _ => rfl⟩⟩

theorem Stays.weaken {dest : Option Nat} (h : t.Stays none t') : t.Stays dest t' := by
  refine ⟨h.proc2proc, h.loc2connID, fun k u hu => ?_⟩
  obtain ⟨u', hu', hreal, hsame⟩ := h.held k u hu
  exact ⟨u', hu', hreal, fun _ => hsame nofun⟩

/-- Another entry is made, or one is replaced by a user behind the same handle. -/
theorem Stays.update {k : Nat} {u : HandleUser Nat} {dest : Option Nat}
    (hk : ∀ v, t.id2handle k = some v → u.realHandle = v.realHandle ∧ some k = dest) :
    t.Stays dest { t with id2handle := Function.update t.id2handle k (some u) } := by
  refine ⟨rfl, rfl, fun x v hv => ?_⟩
  dsimp only
  by_cases hx : x = k
  · subst hx
    obtain ⟨hreal, hdest⟩ := hk v hv
    exact ⟨u, Function.update_self .., hreal, fun hne => absurd hdest hne⟩
  · rw [Function.update_of_ne hx]
    exact ⟨v, hv, rfl, fun _ => rfl⟩

theorem Paired.stays (hp : t.Paired c) {dest : Option Nat} (h : t.Stays dest t') : t'.Paired c := by
  refine ⟨h.proc2proc ▸ hp.symmetric, h.proc2proc ▸ hp.proper, fun x y hxy => ?_, h.loc2connID ▸ hp.unrouted⟩
  rw [h.proc2proc] at hxy
  obtain ⟨u, j, hu, hj, hy⟩ := hp.held x y hxy
  obtain ⟨u', hu', hreal, -⟩ := h.held y u hu
  exact ⟨u', j, hu', hreal.trans hj, hy⟩

theorem Paired.joins (hp : t.Paired c) {a b : Nat} (h : t.Joins c a b t') : t'.Paired c := by
  obtain ⟨u, v, i, j, hid, hu, hi, hv, hj⟩ := h.id2handle
  refine ⟨?_, fun x => ?_, fun x y hxy => ?_, h.loc2connID ▸ hp.unrouted⟩
  · rw [h.proc2proc]
    exact hp.symmetric.join h.distinct (hp.absent h.left) (hp.absent h.right)
  · rw [h.proc2proc]
    intro hx
    rcases (Pairing.join_eq_some h.distinct).1 hx with ⟨rfl, hb⟩ | ⟨rfl, ha⟩ | ⟨-, -, hx⟩
    · exact h.distinct hb
    · exact h.distinct ha.symm
    · exact hp.proper x hx
  · rw [h.proc2proc] at hxy
    rw [hid]
    rcases (Pairing.join_eq_some h.distinct).1 hxy with ⟨-, rfl⟩ | ⟨-, rfl⟩ | ⟨-, -, hxy⟩
    · rw [Function.update_of_ne h.distinct.symm, Function.update_self]
      exact ⟨v, j, rfl, hv, hj⟩
    · rw [Function.update_self]
      exact ⟨u, i, rfl, hu, hi⟩
    · obtain ⟨u', j', hu', hj', hy⟩ := hp.held x y hxy
      have hya : y ≠ a := by
        rintro rfl
        rw [h.left] at hu'
        cases hu'
      have hyb : y ≠ b := by
        rintro rfl
        rw [h.right] at hu'
        cases hu'
      rw [Function.update_of_ne hya, Function.update_of_ne hyb]
      exact ⟨u', j', hu', hj', hy⟩

end Tables

/-! ### What the functions do to the tables -/

private theorem getID_eq {u : HandleUser Nat} {j : Nat} (hu : u.realHandle = some j) : c.env.getID u = c.address j := by
  unfold ProxyEnv.getID
  rw [hu]
  rfl

private theorem keepHandle_tables {u : HandleUser Nat} {j : Nat} (hu : u.realHandle = some j)
    (hnone : s.id2handle (c.address j) = none) :
    Returns (fun s' => ∃ u', u'.realHandle = some j ∧
      s'.tables = { s.tables with id2handle := Function.update s.id2handle (c.address j) (some u') })
        (s.keepHandle c.env u) := by
  unfold keepHandle
  refine (lift_returns _).bind ?_
  rintro ⟨u', w⟩ hy
  have hu' := (user_yield hy).2.1.trans hu
  dsimp only
  rw [getID_eq hu', hnone]
  exact .ok ⟨u', hu', rfl⟩

private theorem eraseHandle_tables (s : Proxy (Handed T)) (k : Nat) :
    Returns (fun s' => s'.tables = { s.tables with id2handle := Function.update s.id2handle k none })
    (s.eraseHandle c.env k) := by
  unfold eraseHandle
  split
  · rename_i hk
    refine .ok ?_
    rw [← hk, Function.update_eq_self]
    rfl
  · exact (lift_returns _).bind fun w _ => .ok rfl

/-- The EOS of the end `a` closes the other end `b`, which is erased if it has sent EOS too. -/
private theorem closeHop_tables {a b j : Nat} {u : HandleUser Nat} (hab : s.proc2proc a = some b)
    (hu : s.id2handle b = some u) (hj : u.realHandle = some j) :
    Returns (fun s' => (s.world.1.base j).closedRd = false ∧ s'.tables = s.tables ∨
      (s.world.1.base j).closedRd = true ∧ s.tables.Cuts b s'.tables) (s.closeHop c.env a) := by
  unfold closeHop handleAt
  rw [hab]
  dsimp only
  rw [hu]
  refine (lift_returns _).bind fun w hw => (lift_returns _).bind fun closed hclosed => ?_
  have hboth := close_isClosed hj hw hclosed
  dsimp only
  split
  · rename_i htrue
    have hrd : (s.world.1.base j).closedRd = true := congrArg Prod.fst (hboth.symm.trans htrue)
    refine (eraseHandle_tables _ b).mono fun s1 h1 => .inr ⟨hrd, ?_⟩
    rw [h1]
    exact ⟨rfl, rfl, rfl⟩
  · rename_i hfalse
    refine .ok (.inl ⟨?_, rfl⟩)
    cases hrd : (s.world.1.base j).closedRd with
    | false => rfl
    | true =>
      rw [hrd] at hboth
      exact absurd hboth hfalse

/-- A process that is in no connection through another proxy. -/
private theorem closeRoute_tables (hs : s.loc2connID.keyTree.elems = []) (h : HandleUser Nat) :
    Returns (fun s' => s' = s) (s.closeRoute c.env h) := by
  unfold closeRoute
  rw [hs, if_neg List.not_mem_nil]
  exact .ok rfl

private theorem forward_tables (hp : s.tables.Paired c) (a : Nat) (m : Bytes) :
    Returns (fun s' => s.tables.Stays (s.proc2proc a) s'.tables) (s.forward c.env a m) := by
  have hroute : a ∉ s.loc2connID.keyTree.elems := by
    rw [show s.loc2connID.keyTree.elems = [] from hp.unrouted]
    exact List.not_mem_nil
  unfold forward
  rw [if_neg hroute]
  split
  · exact .ok (.refl _ _)
  · rename_i dest hdest
    obtain ⟨u, j, hu, -, -⟩ := hp.held a dest hdest
    change s.id2handle dest = some u at hu
    unfold handleAt
    rw [hu]
    refine (lift_returns _).bind ?_
    rintro ⟨r, u', w⟩ hsend
    refine .ok (.update fun v hv => ⟨?_, hdest.symm⟩)
    cases hu.symm.trans hv
    exact HandleUser.send_user hsend

/-- Handles that are made get addresses of their own. -/
private def Apart (c : ProxySetting T) (s : Proxy (Handed T)) (id n n' : Nat) : Prop :=
  ∀ j, n ≤ j → j < n' → s.id2handle (c.address j) = none ∧ c.address j ≠ c.address id

private theorem Apart.within {id n n' m m' : Nat} (h : Apart c s id n n') (hn : n ≤ m) (hn' : m' ≤ n') :
    Apart c s id m m' :=
  fun j hj hj' => h j (Nat.le_trans hn hj) (Nat.lt_of_lt_of_le hj' hn')

/-- What a branch for the handle `id` leaves, when the handles that it makes have addresses of their own. -/
private def Made (c : ProxySetting T) (s : Proxy (Handed T)) (id : Nat) (s' : Proxy (Handed T)) : Prop :=
  Onward s.world s'.world ∧ (Apart c s id s.world.1.allocated s'.world.1.allocated →
    s.tables.Stays none s'.tables ∨ ∃ b, s.tables.Joins c (c.address id) b s'.tables)

private theorem keepHandle_made {u : HandleUser Nat} {j : Nat} (hu : u.realHandle = some j)
    (hj : j < s.world.1.allocated) :
    Returns (fun s' => Onward s.world s'.world ∧ (s.id2handle (c.address j) = none → ∃ u', u'.realHandle = some j ∧
      s'.tables = { s.tables with id2handle := Function.update s.id2handle (c.address j) (some u') }))
        (s.keepHandle c.env u) :=
  fun s' hs' => ⟨(keepHandle_follows hu hj s' hs').1.onward, fun hnone => keepHandle_tables hu hnone s' hs'⟩

private theorem oneHop_made (hp : s.tables.Paired c) {u : HandleUser Nat} {id : Nat} (hu : u.realHandle = some id)
    (hid : id < s.world.1.allocated) (hnone : s.id2handle (c.address id) = none) (protocol : Bytes) (comp : Component) :
    Returns (fun x => Made c s id x.2) (s.oneHop c.env u protocol comp) := by
  unfold oneHop
  split
  · refine (keepHandle_made hu hid).bind fun s1 h1 => .ok ⟨h1.1, fun _ => .inl ?_⟩
    obtain ⟨u', -, htables⟩ := h1.2 hnone
    rw [htables]
    refine .update fun v hv => ?_
    change s.id2handle (c.address id) = some v at hv
    rw [hnone] at hv
    cases hv
  · refine (lift_returns _).bind ?_
    rintro ⟨found, w⟩ hw
    obtain ⟨hon, hnew⟩ := connectFirst_new hw
    cases found with
    | none =>
      refine (lift_returns _).bind fun w' hw' => .ok ⟨?_, fun _ => .inl (.refl _ _)⟩
      exact hon.trans (HandleUser.close_keeps (fun j => handed_keeps c.transport w j) (.refl _) hw')
    | some v =>
      obtain ⟨j, hv, hge, hlt⟩ := hnew v rfl
      dsimp only
      refine (keepHandle_made hv hlt).bind ?_
      rintro s1 ⟨hon1, h1⟩
      have hid1 : id < s1.world.1.allocated := Nat.lt_of_lt_of_le hid (hon.trans hon1).allocated
      refine (keepHandle_made hu hid1).bind ?_
      rintro s2 ⟨hon2, h2⟩
      refine .ok ⟨(hon.trans hon1).trans hon2, fun hapart => .inr ⟨c.address j, ?_⟩⟩
      -- the handle that was made has an address of its own
      obtain ⟨hnonej, hne⟩ := hapart j hge (Nat.lt_of_lt_of_le hlt (hon1.trans hon2).allocated)
      obtain ⟨v', hv', htables1⟩ := h1 hnonej
      have hid2handle : s1.id2handle = Function.update s.id2handle (c.address j) (some v') :=
        congrArg Tables.id2handle htables1
      have hnone1 : s1.id2handle (c.address id) = none := by
        rw [hid2handle, Function.update_of_ne hne.symm]
        exact hnone
      obtain ⟨u', hu', htables2⟩ := h2 hnone1
      rw [htables2, htables1, hid2handle]
      refine ⟨hne.symm, hnone, hnonej, ?_, rfl, u', v', id, j, rfl, hu', rfl, hv', rfl⟩
      have habsent := hp.absent hnone
      have habsentj := hp.absent hnonej
      change s.proc2proc (c.address id) = none at habsent
      change s.proc2proc (c.address j) = none at habsentj
      dsimp only [tables]
      rw [getID_eq hu, getID_eq hv, habsent, Function.update_of_ne hne, habsentj]
      rfl

private theorem read_allocated {h h' : HandleUser Nat} {id : Nat} {w w' : Handed T} {sz : Nat} {buff : Bytes}
    (hh : h.realHandle = some id) (hread : c.env.readMessage ev h w = .ok (sz, buff, h', w')) : id < w.1.allocated := by
  unfold ProxyEnv.readMessage at hread
  obtain ⟨⟨r, sz1, h1, w1⟩, hprobe, -⟩ := bind_eq_ok.1 hread
  obtain ⟨id', b, hid', -, hb, -⟩ := HandleUser.probe_cases hprobe
  cases hh.symm.trans hid'
  exact (Objects.deref_eq_ok.1 hb).1

private theorem newProcess_made (hp : s.tables.Paired c) (hnone : s.id2handle (c.address ev.id) = none)
    (hwithin : ∀ sz cs u w comp, c.env.readMessage ev ⟨some ev.id, true, ev.isNew⟩ s.world = .ok (sz, cs, u, w) →
      c.components (afterColon cs) = some comp → poolOf comp = [] ∨ poolOf comp = c.pool) :
    Returns (fun x => Made c s ev.id x.2) (s.newProcess c.env ev ⟨some ev.id, true, ev.isNew⟩) := by
  unfold newProcess
  refine (lift_returns _).bind ?_
  rintro ⟨sz, cs, u, w⟩ hread
  obtain ⟨hon, hu, -⟩ := user_read hread
  dsimp only
  split
  · exact .ok ⟨hon, fun _ => .inl (.refl _ _)⟩
  · rename_i comp hcomp
    have hid : ev.id < w.1.allocated := Nat.lt_of_lt_of_le (read_allocated rfl hread) hon.allocated
    split
    · refine (oneHop_made (s := { s with world := w }) hp hu hid hnone _ _).mono fun x hx =>
        ⟨hon.trans hx.1, fun hapart => ?_⟩
      exact hx.2 (hapart.within hon.allocated (Nat.le_refl _))
    · rename_i hother
      exact absurd (hwithin sz cs u w comp hread hcomp) hother

/-! ### An iteration -/

/-- What an iteration does to the tables. -/
private inductive Effect (c : ProxySetting T) (ev : ProxyEvent (Handed T)) (s s' : Proxy (Handed T)) : Prop
  | stays (hno : ¬BothEnded c ev s) (h : s.tables.Stays (s.proc2proc (c.address ev.id)) s'.tables)
  | joins (hno : ¬BothEnded c ev s) {b : Nat} (h : s.tables.Joins c (c.address ev.id) b s'.tables)
  | cuts (hboth : BothEnded c ev s) {b : Nat} (hab : s.proc2proc (c.address ev.id) = some b)
      (h : s.tables.Cuts b s'.tables)

private theorem Effect.world (h : Effect c ev s s') (w : Handed T) : Effect c ev s { s' with world := w } := by
  cases h with
  | stays hno h => exact .stays hno h
  | joins hno h => exact .joins hno h
  | cuts hboth hab h => exact .cuts hboth hab h

private theorem closeHop_effect (hp : s.tables.Paired c) (hends : EndsNow c ev) {w : Handed T}
    (hapart : ∀ j, j ≠ ev.id → w.1.base j = ev.world.1.base j) :
    Returns (Effect c ev s) (({ s with world := w } : Proxy (Handed T)).closeHop c.env (c.address ev.id)) := by
  cases hb : s.proc2proc (c.address ev.id) with
  | none =>
    unfold closeHop
    dsimp only
    rw [hb]
    refine .ok (.stays ?_ (.refl _ _))
    rintro ⟨-, j, ⟨hpair, -⟩, -⟩
    rw [hb] at hpair
    cases hpair
  | some b =>
    obtain ⟨u, j, hu, hj, rfl⟩ := hp.held _ b hb
    have hne : j ≠ ev.id := by
      rintro rfl
      exact hp.proper _ hb
    refine (closeHop_tables (s := { s with world := w }) hb hu hj).mono fun s1 h1 => ?_
    dsimp only at h1
    rw [hapart j hne] at h1
    rcases h1 with ⟨hopen, h1⟩ | ⟨hclosed, h1⟩
    · refine .stays ?_ (h1 ▸ .refl _ _)
      -- the other end is the handle under its ID
      rintro ⟨-, j', ⟨hpair, u', hu', hj'⟩, hclosed⟩
      have hjj : c.address j' = c.address j := Option.some.inj (hpair.symm.trans hb)
      rw [hjj] at hu'
      cases hu.symm.trans hu'
      cases hj.symm.trans hj'
      rw [hopen] at hclosed
      cases hclosed
    · exact .cuts ⟨hends, j, ⟨hb, u, hu, hj⟩, hclosed⟩ hb h1

private theorem message_effect (hp : s.tables.Paired c) (hold : ev.isNew = false) :
    Returns (fun x => Effect c ev s x.2)
      (({ s with world := ev.world } : Proxy (Handed T)).message c.env ev ⟨some ev.id, true, ev.isNew⟩) := by
  unfold message
  refine (lift_returns _).bind ?_
  rintro ⟨r, sz, h, w⟩ hprobe
  have hid : c.env.getID h = c.address ev.id := getID_eq (HandleUser.probe_user hprobe)
  dsimp only
  split
  · rename_i hsz
    subst hsz
    refine (closeRoute_tables (s := { s with world := w }) hp.unrouted h).bind ?_
    rintro s0 rfl
    rw [hid]
    exact (closeHop_effect hp ⟨hold, r, h, w, hprobe⟩ fun j hj => probe_apart rfl hprobe hj).bind fun s1 h1 => .ok h1
  · rename_i hsz
    have hno : ¬BothEnded c ev s := by
      rintro ⟨⟨-, r', u', w', hprobe'⟩, -⟩
      cases hprobe.symm.trans hprobe'
      exact hsz rfl
    refine (lift_returns _).bind ?_
    rintro ⟨r1, bs, h1, w1⟩ hreceive
    have hid1 : c.env.getID h1 = c.address ev.id :=
      getID_eq ((HandleUser.receive_user hreceive).trans (HandleUser.probe_user hprobe))
    rw [hid1]
    exact (forward_tables (s := { s with world := w1 }) hp _ _).bind fun s2 h2 => .ok (.stays hno h2)

private theorem hop_effect (hp : s.tables.Paired c) (h : HopStep c ev s s') : Effect c ev s s' := by
  have hprocess : c.env.instanceName ev.id ≠ literal ['P'] := h.process
  have hit := h.iterates
  unfold iteration dispatch at hit
  dsimp only at hit
  rw [if_neg hprocess] at hit
  cases hnew : ev.isNew with
  | false =>
    rw [if_neg (by rw [hnew]; exact Bool.false_ne_true)] at hit
    refine ((message_effect hp hnew).bind fun x hx => ?_) s' hit
    exact (lift_returns _).bind fun w _ => .ok (hx.world w)
  | true =>
    rw [if_pos hnew] at hit
    have hno : ¬BothEnded c ev s := by
      rintro ⟨⟨hold, -⟩, -⟩
      rw [hnew] at hold
      cases hold
    have hmade : Made c { s with world := ev.world } ev.id s' := by
      refine ((newProcess_made (s := { s with world := ev.world }) hp (h.unheld hnew) (h.within hnew)).bind
        fun x hx => ?_) s' hit
      refine (lift_returns _).bind fun w hw => .ok ?_
      have hon : Onward x.2.world w :=
        HandleUser.destroy_keeps (fun j => handed_keeps c.transport x.2.world j) (.refl _) hw
      exact ⟨hx.1.trans hon, fun hapart => hx.2 (hapart.within (Nat.le_refl _) hon.allocated)⟩
    rcases hmade.2 h.made with hs | ⟨b, hj⟩
    · exact .stays hno hs.weaken
    · exact .joins hno hj

theorem hop_paired (hp : s.tables.Paired c) (hno : ¬BothEnded c ev s) (h : HopStep c ev s s') : s'.tables.Paired c := by
  cases hop_effect hp h with
  | stays _ h => exact hp.stays h
  | joins _ h => exact hp.joins h
  | cuts hboth _ _ => exact absurd hboth hno

/-- What an iteration leaves is right exactly when it does not end a connection. -/
private theorem cleansUp_iff (hp : s.tables.Paired c) (h : HopStep c ev s s') : CleansUp c ev s s' ↔
    ¬BothEnded c ev s := by
  constructor
  · intro hclean hboth
    cases hop_effect hp h with
    | stays hno _ => exact hno hboth
    | joins hno _ => exact hno hboth
    | @cuts _ b hab hcut =>
      -- the other entry is left
      have hne : c.address ev.id ≠ b := fun he => hp.proper _ (he ▸ hab)
      have hsymm : Pairing.Symmetric (Pairing.cut s.proc2proc b) := hcut.proc2proc ▸ hclean.symmetric
      exact Pairing.not_symmetric_cut hne hab hsymm
  · intro hno
    have hp' := hop_paired hp hno h
    refine ⟨hp'.symmetric, fun hends j hopp hclosed => absurd ⟨hends, j, hopp, hclosed⟩ hno, fun x hx hself hopp => ?_⟩
    obtain ⟨u, hu⟩ := Option.ne_none_iff_exists'.1 hx
    cases hop_effect hp h with
    | stays _ h =>
      obtain ⟨u', hu', -, hsame⟩ := h.held x u hu
      refine ⟨congrFun h.proc2proc x, hu'.trans ?_⟩
      rw [hsame fun he => hopp he.symm, hu]
    | @joins _ b h =>
      have hxb : x ≠ b := by
        rintro rfl
        exact hx h.right
      obtain ⟨v, w, i, j, hid, -⟩ := h.id2handle
      refine ⟨(congrFun h.proc2proc x).trans (Pairing.join_of_ne _ hself hxb), (congrFun hid x).trans ?_⟩
      rw [Function.update_of_ne hself, Function.update_of_ne hxb]
      rfl
    | cuts hboth _ _ => exact absurd hboth hno

/-! ### Runs -/

private theorem connectProxy_tables (name addr : Bytes) (s : Proxy (Handed T)) :
    Returns (fun s' => s'.tables = s.tables) (s.connectProxy c.env name addr) := by
  unfold connectProxy
  refine (lift_returns _).bind ?_
  rintro ⟨u, w⟩ -
  dsimp only
  split
  · exact .ok rfl
  · refine (lift_returns _).bind ?_
    rintro ⟨r, u1, w1⟩ -
    refine (lift_returns _).bind ?_
    rintro ⟨u2, w2⟩ -
    exact .ok rfl

private theorem start_tables (pools : List (Bytes × List Bytes)) (s : Proxy (Handed T)) :
    Returns (fun s' => s'.tables = s.tables) (start c.env pools s) :=
  start_returns (R := fun s s' => s'.tables = s.tables) (fun _ => rfl)
    (fun h h' => h'.trans h) connectProxy_tables pools s

private theorem start_paired (h : Starts c pools s) : s.tables.Paired c := by
  obtain ⟨w, h⟩ := h
  rw [start_tables pools _ s h]
  exact ⟨Pairing.symmetric_none, nofun, nofun, rfl⟩

/-- In every run in which no connection ends on both sides, `proc2proc` is symmetric, and an iteration leaves
the tables as they should be exactly when it does not end a connection on its second side. -/
theorem hops_cleaned (h : Runs.Reach (Starts c pools) (fun ev s s' => ¬BothEnded c ev s ∧ HopStep c ev s s') s) :
    Pairing.Symmetric s.proc2proc ∧ ∀ ev s', HopStep c ev s s' → (CleansUp c ev s s' ↔ ¬BothEnded c ev s) := by
  have hp : s.tables.Paired c := by
    refine h.invariant (fun s => s.tables.Paired c) (fun s hs => start_paired hs) ?_
    rintro ev s s' hp ⟨hno, hstep⟩
    exact hop_paired hp hno hstep
  exact ⟨hp.symmetric, fun ev s' hstep => cleansUp_iff hp hstep⟩

/-! ### A connection that ends -/

section

/-- The proxy of a pool with a component `c` in it, to which there are connections by the protocol `T`. -/
private def hopSetting : ProxySetting (List Bytes) where
  pool := literal ['B']
  components name := if name = literal ['c'] then some ⟨[], [], [literal ['T']]⟩ else none
  hash _ := 5
  instanceName _ := literal ['T']
  address id := id + 1
  transport := queued
  dial _ t := .ok (true, t)

/-- A process asks for a connection to `c`. -/
private def asks : ProxyEvent (Handed (List Bytes)) where
  id := 0
  isNew := true
  world := ({ base := fun _ => { counter := 1 }, transport := [literal ['T', ':', 'c']], allocated := 1 },
    fun _ => false)

/-- The EOS of a handle, which `getNext` returns in an object of its own. -/
private def eosOf (id : Nat) (w : Handed (List Bytes)) : ProxyEvent (Handed (List Bytes)) where
  id := id
  isNew := false
  world := ({ w.1.put id { w.1.base id with counter := (w.1.base id).counter + 1 } with transport := [[]] }, w.2)

/-- The proxy behind an iteration. -/
private def behindEvent (ev : ProxyEvent (Handed (List Bytes))) (s : Proxy (Handed (List Bytes))) :
    Proxy (Handed (List Bytes)) :=
  (s.iteration hopSetting.env ev).toOption.getD s

private def unconnected : Proxy (Handed (List Bytes)) := { world := ({ transport := [] }, fun _ => false) }
private def connectedHop : Proxy (Handed (List Bytes)) := behindEvent asks unconnected
private def halfEnded : Proxy (Handed (List Bytes)) := behindEvent (eosOf 1 connectedHop.world) connectedHop
private def endedHop : Proxy (Handed (List Bytes)) := behindEvent (eosOf 0 halfEnded.world) halfEnded

private theorem asks_step : HopStep hopSetting asks unconnected connectedHop where
  process := by decide
  within := by
    intro _ sz cs u w comp _ hcomp
    change (if afterColon cs = literal ['c'] then some _ else none) = some comp at hcomp
    split at hcomp
    · cases hcomp
      exact .inl rfl
    · cases hcomp
  unheld _ := rfl
  made := by
    intro j hj hj'
    exact ⟨rfl, fun he => absurd (Nat.succ.inj he) (Nat.ne_of_gt hj)⟩
  iterates := rfl

/-- An EOS, for which no handle is made. -/
private theorem eos_step {id : Nat} {s s' : Proxy (Handed (List Bytes))}
    (hmade : s'.world.1.allocated = s.world.1.allocated)
    (h : s.iteration hopSetting.env (eosOf id s.world) = .ok s') : HopStep hopSetting (eosOf id s.world) s s' where
  process := by
    change literal ['T'] ≠ literal ['P']
    decide
  within := nofun
  unheld := nofun
  made := by
    intro j hj hj'
    rw [hmade] at hj'
    exact absurd hj (Nat.not_le_of_lt hj')
  iterates := h

private theorem eos_first : ¬BothEnded hopSetting (eosOf 1 connectedHop.world) connectedHop := by
  rintro ⟨-, j, ⟨hpair, -⟩, hclosed⟩
  have hj : j + 1 = 1 := (Option.some.inj hpair).symm
  cases Nat.succ.inj hj
  cases hclosed

private theorem half_reached :
    Runs.Reach (Starts hopSetting [])
    (fun ev s s' => ¬BothEnded hopSetting ev s ∧ HopStep hopSetting ev s s') halfEnded := by
  have h0 : Starts hopSetting [] unconnected := ⟨_, rfl⟩
  have hasks : ¬BothEnded hopSetting asks unconnected := by
    rintro ⟨⟨hold, -⟩, -⟩
    cases hold
  exact .next _ (.next _ (.start h0) ⟨hasks, asks_step⟩) ⟨eos_first, eos_step rfl rfl⟩

/-- One end has sent EOS. -/
theorem hops_cleaned_run :
    ∃ s, Runs.Reach (Starts hopSetting []) (fun ev s s' => ¬BothEnded hopSetting ev s ∧ HopStep hopSetting ev s s') s ∧
    s.proc2proc 1 = some 2 ∧ Pairing.Symmetric s.proc2proc :=
  ⟨halfEnded, half_reached, rfl, (hops_cleaned half_reached).1⟩

/-- Both ends have sent EOS, the one that the proxy made first.  The entries of the other one are left. -/
theorem hops_left : ∃ s s', Runs.Reach (Starts hopSetting []) (HopStep hopSetting) s ∧
    HopStep hopSetting (eosOf 0 s.world) s s' ∧ BothEnded hopSetting (eosOf 0 s.world) s ∧
    ¬Pairing.Symmetric s'.proc2proc ∧ s'.proc2proc 1 = some 2 ∧ s'.id2handle 1 ≠ none := by
  refine ⟨halfEnded, endedHop, half_reached.mono fun _ _ _ h => h.2, eos_step rfl rfl, ?_, ?_, rfl, nofun⟩
  · exact ⟨⟨rfl, _, _, _, rfl⟩, 1, ⟨rfl, _, rfl, rfl⟩, rfl⟩
  · intro h
    have h2 : endedHop.proc2proc 2 = some 1 := (h 1 2).1 rfl
    cases h2

end

end Proxy

end Mtcl
