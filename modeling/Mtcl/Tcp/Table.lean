import Mtcl.ConnTcp

/-!
# The connection table

The invariant of `ConnTcp` and of the log, and that every operation of a process keeps it.  `TableInv` speaks of the
connector, of the part of each handle object that the connector depends on (`Control`) and of the open descriptors;
`LogInv` says what the log may hold.  Closing and deleting are all that changes `Control`, so one lemma for each of
its effects (`TableInv.flags`, `TableInv.closeRead`) carries the table through.
-/

namespace Mtcl

/-- The part of a handle object that the connector depends on. -/
structure Control where
  fd : Option Nat
  closedRd : Bool
  closedWr : Bool
  deleted : Bool

def HandleTCP.control (h : HandleTCP) : Control := ⟨h.fd, h.closedRd, h.closedWr, h.deleted⟩

/-- `fdmax` is the greatest member of the set, or `-1`. -/
def IsMax (set : Finset Nat) (fdmax : Int) : Prop :=
  (set = ∅ ∧ fdmax = -1) ∨ ∃ m ∈ set, fdmax = m ∧ ∀ fd ∈ set, fd ≤ m

/-- The connection table, the polled set, the handles `0 … n - 1` and the open descriptors fit together. -/
structure TableInv (c : ConnTcp) (ctl : Nat → Control) (n : Nat) (opened : Finset Nat) : Prop where
  entry : ∀ fd id, c.connections.find? fd = some id → id < n ∧ (ctl id).fd = some fd ∧ (ctl id).closedRd = false
  listed : ∀ id < n, (ctl id).closedRd = false → ∃ fd, (ctl id).fd = some fd ∧ c.connections.find? fd = some id
  polled : ∀ fd ∈ c.set, fd ∈ opened
  max : IsMax c.set c.fdmax
  isOpen : ∀ id < n, ∀ fd, (ctl id).fd = some fd → fd ∈ opened
  inj : ∀ id < n, ∀ id' < n, ∀ fd, (ctl id).fd = some fd → (ctl id').fd = some fd → id = id'
  noFd : ∀ id < n, (ctl id).fd = none ↔ (ctl id).closedRd = true ∧ (ctl id).closedWr = true
  deleted : ∀ id < n, (ctl id).deleted = true → (ctl id).fd = none

/-! ### The maximum -/

private theorem lastBelow_spec (set : Finset Nat) (k : Nat) :
    (ConnTcp.lastBelow set k = -1 ∧ ∀ fd ∈ set, k ≤ fd) ∨
      ∃ m ∈ set, m < k ∧ ConnTcp.lastBelow set k = m ∧ ∀ fd ∈ set, fd < k → fd ≤ m := by
  induction k with
  | zero => exact Or.inl ⟨rfl, fun _ _ => Nat.zero_le _⟩
  | succ k ih =>
    unfold ConnTcp.lastBelow
    split
    · rename_i hk
      exact Or.inr ⟨k, hk, Nat.lt_succ_self k, rfl, fun fd _ hlt => Nat.le_of_lt_succ hlt⟩
    · rename_i hk
      have hne : ∀ fd ∈ set, fd ≠ k := fun fd hfd e => hk (e ▸ hfd)
      rcases ih with ⟨h1, h2⟩ | ⟨m, hm, hlt, h1, h2⟩
      · exact Or.inl ⟨h1, fun fd hfd => Nat.lt_of_le_of_ne (h2 fd hfd) (hne fd hfd).symm⟩
      · refine Or.inr ⟨m, hm, Nat.lt_succ_of_lt hlt, h1, fun fd hfd hf => ?_⟩
        exact h2 fd hfd (Nat.lt_of_le_of_ne (Nat.le_of_lt_succ hf) (hne fd hfd))

private theorem isMax_fdClr {c : ConnTcp} (h : IsMax c.set c.fdmax) (fd : Nat) :
    IsMax (c.fdClr fd).set (c.fdClr fd).fdmax := by
  change IsMax (c.set.erase fd) (if (fd : Int) = c.fdmax then ConnTcp.lastBelow (c.set.erase fd) fd else c.fdmax)
  rcases h with ⟨h1, h2⟩ | ⟨m, hm, h1, h2⟩
  · rw [if_neg (by omega)]
    exact Or.inl ⟨by rw [h1]; rfl, h2⟩
  · split
    · rename_i heq
      have hfm : fd = m := by omega
      subst hfm
      rcases lastBelow_spec (c.set.erase fd) fd with ⟨e, hle⟩ | ⟨k, hk, -, e, hle⟩
      · refine Or.inl ⟨Finset.eq_empty_of_forall_notMem fun x hx => ?_, e⟩
        obtain ⟨hne, hx'⟩ := Finset.mem_erase.1 hx
        exact hne (Nat.le_antisymm (h2 x hx') (hle x hx))
      · refine Or.inr ⟨k, hk, e, fun x hx => hle x hx ?_⟩
        obtain ⟨hne, hx'⟩ := Finset.mem_erase.1 hx
        exact Nat.lt_of_le_of_ne (h2 x hx') hne
    · rename_i hne
      have hfm : m ≠ fd := by
        rintro rfl
        exact hne h1.symm
      exact Or.inr ⟨m, Finset.mem_erase.2 ⟨hfm, hm⟩, h1, fun x hx => h2 x (Finset.mem_of_mem_erase hx)⟩

private theorem isMax_fdSet {c : ConnTcp} (h : IsMax c.set c.fdmax) (fd : Nat) :
    IsMax (c.fdSet fd).set (c.fdSet fd).fdmax := by
  change IsMax (insert fd c.set) (if c.fdmax < fd then (fd : Int) else c.fdmax)
  rcases h with ⟨h1, h2⟩ | ⟨m, hm, h1, h2⟩
  · rw [if_pos (by omega)]
    refine Or.inr ⟨fd, Finset.mem_insert_self .., rfl, fun x hx => ?_⟩
    rcases Finset.mem_insert.1 hx with rfl | hx
    · exact Nat.le_refl _
    · rw [h1] at hx
      cases hx
  · split
    · refine Or.inr ⟨fd, Finset.mem_insert_self .., rfl, fun x hx => ?_⟩
      rcases Finset.mem_insert.1 hx with rfl | hx
      · exact Nat.le_refl _
      · have := h2 x hx
        omega
    · refine Or.inr ⟨m, Finset.mem_insert_of_mem hm, h1, fun x hx => ?_⟩
      rcases Finset.mem_insert.1 hx with rfl | hx
      · omega
      · exact h2 x hx

/-! ### The table under each change -/

namespace TableInv

variable {c : ConnTcp} {ctl : Nat → Control} {n : Nat} {opened : Finset Nat}

/-- A descriptor is taken off the polled set. -/
theorem fdClr (h : TableInv c ctl n opened) (fd : Nat) : TableInv (c.fdClr fd) ctl n opened :=
  { h with
    polled := fun x hx => h.polled x (Finset.mem_of_mem_erase hx)
    max := isMax_fdClr h.max fd }

/-- The descriptor of an entry is put into the polled set. -/
theorem fdSet (h : TableInv c ctl n opened) {fd id : Nat} (he : c.connections.find? fd = some id) :
    TableInv (c.fdSet fd) ctl n opened :=
  { h with
    polled := by
      intro x hx
      rcases Finset.mem_insert.1 hx with rfl | hx
      · obtain ⟨h1, h2, -⟩ := h.entry x id he
        exact h.isOpen id h1 x h2
      · exact h.polled x hx
    max := isMax_fdSet h.max fd }

/-- A handle changes in a way the connector does not depend on. -/
private theorem update (h : TableInv c ctl n opened) {id : Nat} {k : Control} (hfd : k.fd = (ctl id).fd)
    (hrd : k.closedRd = (ctl id).closedRd) (hno : id < n → (k.fd = none ↔ k.closedRd = true ∧ k.closedWr = true))
    (hdel : id < n → k.deleted = true → k.fd = none) : TableInv c (Function.update ctl id k) n opened := by
  have e1 : ∀ i, (Function.update ctl id k i).fd = (ctl i).fd := by
    intro i
    rcases eq_or_ne i id with rfl | hne
    · rw [Function.update_self, hfd]
    · rw [Function.update_of_ne hne]
  have e2 : ∀ i, (Function.update ctl id k i).closedRd = (ctl i).closedRd := by
    intro i
    rcases eq_or_ne i id with rfl | hne
    · rw [Function.update_self, hrd]
    · rw [Function.update_of_ne hne]
  refine ⟨?_, ?_, h.polled, h.max, ?_, ?_, ?_, ?_⟩
  · simpa only [e1, e2] using h.entry
  · simpa only [e1, e2] using h.listed
  · simpa only [e1] using h.isOpen
  · simpa only [e1] using h.inj
  · intro i hi
    rcases eq_or_ne i id with rfl | hne
    · rw [Function.update_self]
      exact hno hi
    · rw [Function.update_of_ne hne]
      exact h.noFd i hi
  · intro i hi
    rcases eq_or_ne i id with rfl | hne
    · rw [Function.update_self]
      exact hdel hi
    · rw [Function.update_of_ne hne]
      exact h.deleted i hi

/-- A handle that keeps its read side open, or both sides of which were closed before, changes its other flags. -/
theorem flags (h : TableInv c ctl n opened) {id : Nat} {k : Control} (hfd : k.fd = (ctl id).fd)
    (hrd : k.closedRd = (ctl id).closedRd) (hwr : (ctl id).closedRd = true → k.closedWr = (ctl id).closedWr)
    (hdel : id < n → k.deleted = true → k.fd = none) : TableInv c (Function.update ctl id k) n opened := by
  refine h.update hfd hrd (fun hi => ?_) hdel
  rw [hfd, hrd]
  cases he : (ctl id).closedRd with
  | true => rw [hwr he, h.noFd id hi, he]
  | false =>
    obtain ⟨fd, e, -⟩ := h.listed id hi he
    simp [e]

/-- The read side of a handle is closed: its entry goes, and with its write side closed its descriptor. -/
theorem closeRead (h : TableInv c ctl n opened) {id fd : Nat} (hid : id < n) (hfd : (ctl id).fd = some fd) {k : Control}
    (hrd : k.closedRd = true) (hk : k.fd = if k.closedWr then none else some fd)
    (hdel : k.deleted = true → k.fd = none) :
    TableInv ({ c with connections := c.connections.erase fd }.fdClr fd) (Function.update ctl id k) n
      (if k.closedWr then opened.erase fd else opened) := by
  -- another handle has another descriptor
  have hother : ∀ i < n, i ≠ id → ∀ x, (ctl i).fd = some x → x ≠ fd := by
    rintro i hi hne x hx rfl
    exact hne (h.inj i hi id hid x hx hfd)
  have hstays : ∀ x ∈ opened, x ≠ fd → x ∈ if k.closedWr then opened.erase fd else opened := by
    intro x hx hne
    split
    · exact Finset.mem_erase.2 ⟨hne, hx⟩
    · exact hx
  have hkfd : ∀ x, k.fd = some x → x = fd ∧ k.closedWr = false := by
    intro x hx
    rw [hk] at hx
    split at hx
    · cases hx
    · rename_i hw
      cases hx
      exact ⟨rfl, by simpa using hw⟩
  refine ⟨?_, ?_, ?_, isMax_fdClr h.max fd, ?_, ?_, ?_, ?_⟩
  · intro x i hx
    change (c.connections.erase fd).find? x = some i at hx
    rw [OrdMap.find?_erase] at hx
    split at hx
    · cases hx
    · rename_i hne
      obtain ⟨h1, h2, h3⟩ := h.entry x i hx
      have : i ≠ id := by
        rintro rfl
        rw [hfd] at h2
        exact hne (Option.some.inj h2).symm
      rw [Function.update_of_ne this]
      exact ⟨h1, h2, h3⟩
  · intro i hi hr
    rcases eq_or_ne i id with rfl | hne
    · rw [Function.update_self, hrd] at hr
      cases hr
    · rw [Function.update_of_ne hne] at hr ⊢
      obtain ⟨x, h1, h2⟩ := h.listed i hi hr
      refine ⟨x, h1, ?_⟩
      change (c.connections.erase fd).find? x = some i
      rw [OrdMap.find?_erase, if_neg (hother i hi hne x h1), h2]
  · intro x hx
    obtain ⟨hne, hx⟩ := Finset.mem_erase.1 hx
    exact hstays x (h.polled x hx) hne
  · intro i hi x hx
    rcases eq_or_ne i id with rfl | hne
    · rw [Function.update_self] at hx
      obtain ⟨rfl, hw⟩ := hkfd x hx
      rw [hw]
      exact h.isOpen i hi x hfd
    · rw [Function.update_of_ne hne] at hx
      exact hstays x (h.isOpen i hi x hx) (hother i hi hne x hx)
  · intro i hi j hj x hx hy
    rcases eq_or_ne i id with e | hne <;> rcases eq_or_ne j id with e' | hne'
    · exact e.trans e'.symm
    · rw [e, Function.update_self] at hx
      rw [Function.update_of_ne hne'] at hy
      exact absurd (hkfd x hx).1 (hother j hj hne' x hy)
    · rw [e', Function.update_self] at hy
      rw [Function.update_of_ne hne] at hx
      exact absurd (hkfd x hy).1 (hother i hi hne x hx)
    · rw [Function.update_of_ne hne] at hx
      rw [Function.update_of_ne hne'] at hy
      exact h.inj i hi j hj x hx hy
  · intro i hi
    rcases eq_or_ne i id with rfl | hne
    · rw [Function.update_self, hk, hrd]
      cases k.closedWr <;> simp
    · rw [Function.update_of_ne hne]
      exact h.noFd i hi
  · intro i hi
    rcases eq_or_ne i id with rfl | hne
    · rw [Function.update_self]
      exact hdel
    · rw [Function.update_of_ne hne]
      exact h.deleted i hi

/-- A new handle is entered under a descriptor that was not open. -/
theorem add (h : TableInv c ctl n opened) {fd : Nat} (hfd : fd ∉ opened) :
    TableInv { c with connections := c.connections.insert fd n }
      (Function.update ctl n ⟨some fd, false, false, false⟩) (n + 1) (insert fd opened) := by
  have hold : ∀ i < n + 1, i ≠ n → i < n := fun i hi hne => Nat.lt_of_le_of_ne (Nat.le_of_lt_succ hi) hne
  have hother : ∀ i < n, ∀ x, (ctl i).fd = some x → x ≠ fd := by
    rintro i hi x hx rfl
    exact hfd (h.isOpen i hi x hx)
  refine ⟨?_, ?_, fun x hx => Finset.mem_insert_of_mem (h.polled x hx), h.max, ?_, ?_, ?_, ?_⟩
  · intro x i hx
    change (c.connections.insert fd n).find? x = some i at hx
    rw [OrdMap.find?_insert] at hx
    split at hx
    · rename_i e
      cases hx
      rw [Function.update_self, e]
      exact ⟨Nat.lt_succ_self _, rfl, rfl⟩
    · obtain ⟨h1, h2, h3⟩ := h.entry x i hx
      rw [Function.update_of_ne (Nat.ne_of_lt h1)]
      exact ⟨Nat.lt_succ_of_lt h1, h2, h3⟩
  · intro i hi hr
    rcases eq_or_ne i n with rfl | hne
    · rw [Function.update_self]
      exact ⟨fd, rfl, OrdMap.find?_insert_self ..⟩
    · rw [Function.update_of_ne hne] at hr ⊢
      obtain ⟨x, h1, h2⟩ := h.listed i (hold i hi hne) hr
      refine ⟨x, h1, ?_⟩
      change (c.connections.insert fd n).find? x = some i
      rw [OrdMap.find?_insert, if_neg (hother i (hold i hi hne) x h1), h2]
  · intro i hi x hx
    rcases eq_or_ne i n with rfl | hne
    · rw [Function.update_self] at hx
      cases hx
      exact Finset.mem_insert_self ..
    · rw [Function.update_of_ne hne] at hx
      exact Finset.mem_insert_of_mem (h.isOpen i (hold i hi hne) x hx)
  · intro i hi j hj x hx hy
    rcases eq_or_ne i n with e | hne <;> rcases eq_or_ne j n with e' | hne'
    · exact e.trans e'.symm
    · rw [e, Function.update_self] at hx
      rw [Function.update_of_ne hne'] at hy
      exact absurd (Option.some.inj hx).symm (hother j (hold j hj hne') x hy)
    · rw [e', Function.update_self] at hy
      rw [Function.update_of_ne hne] at hx
      exact absurd (Option.some.inj hy).symm (hother i (hold i hi hne) x hx)
    · rw [Function.update_of_ne hne] at hx
      rw [Function.update_of_ne hne'] at hy
      exact h.inj i (hold i hi hne) j (hold j hj hne') x hx hy
  · intro i hi
    rcases eq_or_ne i n with rfl | hne
    · rw [Function.update_self]
      simp
    · rw [Function.update_of_ne hne]
      exact h.noFd i (hold i hi hne)
  · intro i hi
    rcases eq_or_ne i n with rfl | hne
    · rw [Function.update_self]
      simp
    · rw [Function.update_of_ne hne]
      exact h.deleted i (hold i hi hne)

end TableInv

/-- Every polled descriptor is that of the listening socket or of an entry. -/
def PolledInv (c : ConnTcp) : Prop := ∀ fd ∈ c.set, c.listenSck = some fd ∨ ∃ id, c.connections.find? fd = some id

namespace PolledInv

variable {c : ConnTcp}

theorem fdClr (h : PolledInv c) (fd : Nat) : PolledInv (c.fdClr fd) :=
  fun x hx => h x (Finset.mem_of_mem_erase hx)

theorem fdSet (h : PolledInv c) {fd id : Nat} (he : c.connections.find? fd = some id) : PolledInv (c.fdSet fd) := by
  intro x hx
  rcases Finset.mem_insert.1 hx with rfl | hx
  · exact Or.inr ⟨id, he⟩
  · exact h x hx

theorem erase (h : PolledInv c) (fd : Nat) :
    PolledInv ({ c with connections := c.connections.erase fd }.fdClr fd) := by
  intro x hx
  obtain ⟨hne, hx⟩ := Finset.mem_erase.1 hx
  refine (h x hx).imp_right ?_
  rintro ⟨i, hi⟩
  refine ⟨i, ?_⟩
  change (c.connections.erase fd).find? x = some i
  rw [OrdMap.find?_erase, if_neg hne, hi]

theorem add (h : PolledInv c) (fd id : Nat) : PolledInv { c with connections := c.connections.insert fd id } := by
  intro x hx
  refine (h x hx).imp_right ?_
  rintro ⟨i, hi⟩
  change ∃ i, (c.connections.insert fd id).find? x = some i
  rw [OrdMap.find?_insert]
  split
  · exact ⟨id, rfl⟩
  · exact ⟨i, hi⟩

end PolledInv

/-! ### The log -/

/-- The handle an event is about. -/
def Event.handle : Event → Nat
  | .eos h => h
  | .closed h _ => h
  | .pushed h => h
  | .polled h => h

/-- How often a descriptor of a handle was closed. -/
def closings (id : Nat) (log : List Event) : Nat :=
  log.countP fun e => match e with
    | .closed h _ => h == id
    | _ => false

/-- The handle was yielded after it was last pushed. -/
def armed (id : Nat) : List Event → Bool
  | [] => false
  | .polled h :: log => h == id || armed id log
  | .pushed h :: log => h != id && armed id log
  | .eos _ :: log => armed id log
  | .closed _ _ :: log => armed id log

/-- Every push of a handle comes after a yield of it and after no other push since. -/
def PushedOnce : List Event → Prop
  | [] => True
  | .pushed h :: log => armed h log = true ∧ PushedOnce log
  | _ :: log => PushedOnce log

/-- The log fits the connector and the handles `0 … n - 1`. -/
structure LogInv (c : ConnTcp) (ctl : Nat → Control) (n : Nat) (log : List Event) : Prop where
  known : ∀ e ∈ log, e.handle < n
  eos : ∀ id < n, log.count (.eos id) = if (ctl id).closedWr then 1 else 0
  closed : ∀ id < n, closings id log = if (ctl id).fd = none then 1 else 0
  armed : ∀ fd ∈ c.set, ∀ id, c.connections.find? fd = some id → armed id log = true
  pushed : PushedOnce log

namespace LogInv

variable {c c' : ConnTcp} {ctl : Nat → Control} {n : Nat} {log : List Event}

/-- Fewer descriptors are polled, or fewer have an entry. -/
theorem shrink (h : LogInv c ctl n log)
    (hc : ∀ fd ∈ c'.set, ∀ id, c'.connections.find? fd = some id → fd ∈ c.set ∧ c.connections.find? fd = some id) :
    LogInv c' ctl n log :=
  { h with armed := fun fd hfd id he => h.armed fd (hc fd hfd id he).1 id (hc fd hfd id he).2 }

/-- The other flags of a handle change. -/
theorem flags (h : LogInv c ctl n log) {id : Nat} {k : Control} (hfd : k.fd = (ctl id).fd)
    (hwr : k.closedWr = (ctl id).closedWr) : LogInv c (Function.update ctl id k) n log := by
  refine { h with eos := fun i hi => ?_, closed := fun i hi => ?_ }
  · rw [h.eos i hi]
    rcases eq_or_ne i id with rfl | hne
    · rw [Function.update_self, hwr]
    · rw [Function.update_of_ne hne]
  · rw [h.closed i hi]
    rcases eq_or_ne i id with rfl | hne
    · rw [Function.update_self, hfd]
    · rw [Function.update_of_ne hne]

/-- An event of a handle there is. -/
theorem known_cons (h : LogInv c ctl n log) {e : Event} (he : e.handle < n) : ∀ x ∈ e :: log, x.handle < n := by
  intro x hx
  rcases List.mem_cons.1 hx with rfl | hx
  · exact he
  · exact h.known x hx

/-- EOS is sent on a handle whose write side was open. -/
theorem sendEos (h : LogInv c ctl n log) {id : Nat} (hid : id < n) (hwr : (ctl id).closedWr = false) {k : Control}
    (hfd : k.fd = (ctl id).fd) (hk : k.closedWr = true) :
    LogInv c (Function.update ctl id k) n (.eos id :: log) := by
  refine ⟨h.known_cons hid, ?_, ?_, h.armed, h.pushed⟩
  · intro i hi
    rcases eq_or_ne i id with rfl | hne
    · rw [List.count_cons_self, h.eos i hi, Function.update_self, hwr, hk]
      rfl
    · rw [List.count_cons_of_ne (by simpa using hne.symm), h.eos i hi, Function.update_of_ne hne]
  · intro i hi
    change closings i log = _
    rw [h.closed i hi]
    rcases eq_or_ne i id with rfl | hne
    · rw [Function.update_self, hfd]
    · rw [Function.update_of_ne hne]

/-- The descriptor of a handle is closed. -/
theorem close (h : LogInv c ctl n log) {id fd : Nat} (hid : id < n) (hfd : (ctl id).fd = some fd) {k : Control}
    (hk : k.fd = none) (hwr : k.closedWr = (ctl id).closedWr) :
    LogInv c (Function.update ctl id k) n (.closed id fd :: log) := by
  refine ⟨h.known_cons hid, ?_, ?_, h.armed, h.pushed⟩
  · intro i hi
    rw [List.count_cons_of_ne (by simp), h.eos i hi]
    rcases eq_or_ne i id with rfl | hne
    · rw [Function.update_self, hwr]
    · rw [Function.update_of_ne hne]
  · intro i hi
    have hcount := h.closed i hi
    unfold closings at hcount ⊢
    rw [List.countP_cons, hcount]
    rcases eq_or_ne i id with rfl | hne
    · simp [Function.update_self, hk, hfd]
    · simp [Function.update_of_ne hne, hne.symm]

/-- A handle is entered that has no events yet. -/
theorem add (h : LogInv c ctl n log) {fd : Nat} (hset : ∀ x ∈ c.set, x ≠ fd) :
    LogInv { c with connections := c.connections.insert fd n }
      (Function.update ctl n ⟨some fd, false, false, false⟩) (n + 1) log := by
  have hold : ∀ i < n + 1, i ≠ n → i < n := fun i hi hne => Nat.lt_of_le_of_ne (Nat.le_of_lt_succ hi) hne
  refine ⟨fun e he => Nat.lt_succ_of_lt (h.known e he), ?_, ?_, ?_, h.pushed⟩
  · intro i hi
    rcases eq_or_ne i n with rfl | hne
    · rw [Function.update_self, if_neg (by simp), List.count_eq_zero]
      exact fun he => Nat.lt_irrefl _ (h.known _ he)
    · rw [Function.update_of_ne hne]
      exact h.eos i (hold i hi hne)
  · intro i hi
    rcases eq_or_ne i n with rfl | hne
    · rw [Function.update_self, if_neg (by simp), closings, List.countP_eq_zero]
      rintro (k | ⟨k, x⟩ | k | k) he
      · simp
      · have : k < i := h.known _ he
        simp
        omega
      · simp
      · simp
    · rw [Function.update_of_ne hne]
      exact h.closed i (hold i hi hne)
  · intro x hx i hi
    change (c.connections.insert fd n).find? x = some i at hi
    rw [OrdMap.find?_insert, if_neg (hset x hx)] at hi
    exact h.armed x hx i hi

/-- A yield puts the descriptor of a handle into the polled set. -/
theorem poll (h : LogInv c ctl n log) {id fd : Nat} (hid : id < n) (he : c.connections.find? fd = some id) :
    LogInv (c.fdSet fd) ctl n (.polled id :: log) := by
  refine ⟨h.known_cons hid, ?_, h.closed, ?_, h.pushed⟩
  · intro i hi
    rw [List.count_cons_of_ne (by simp), h.eos i hi]
  · intro x hx i hi
    change c.connections.find? x = some i at hi
    simp only [Mtcl.armed]
    rcases Finset.mem_insert.1 hx with rfl | hx
    · rw [he] at hi
      cases hi
      simp
    · simp [h.armed x hx i hi]

/-- A handle that `update` finds ready is pushed and its descriptor taken off the polled set. -/
theorem push (h : LogInv c ctl n log) {id fd : Nat} (hid : id < n) (hset : fd ∈ c.set)
    (he : c.connections.find? fd = some id)
    (hinj : ∀ x, c.connections.find? x = some id → x = fd) : LogInv (c.fdClr fd) ctl n (.pushed id :: log) := by
  refine ⟨h.known_cons hid, ?_, h.closed, ?_, h.armed fd hset id he, h.pushed⟩
  · intro i hi
    rw [List.count_cons_of_ne (by simp), h.eos i hi]
  · intro x hx i hi
    change c.connections.find? x = some i at hi
    obtain ⟨hne, hx⟩ := Finset.mem_erase.1 hx
    have hid' : id ≠ i := by
      rintro rfl
      exact hne (hinj x hi)
    simp [Mtcl.armed, hid', h.armed x hx i hi]

end LogInv

end Mtcl
