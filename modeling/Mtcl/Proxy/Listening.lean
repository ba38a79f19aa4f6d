import Mtcl.Base.Runs
import Mtcl.Ownership
import Mtcl.Proxy.Main

/-!
# The connections a proxy listens to

The proxy runs over handles of an arbitrary transport, and it is written down which of them have been handed
back to the `Manager`: `notify_yield` has been called for them since they were made or `getNext` returned them,
so that they are polled or in the ready queue.

`proxy_listens` says when the proxy has handed back every connection in `proxies` and `id2handle` at the end of
each iteration, as long as its read side is open.  The exception is a connection of another proxy that it
accepts: that one is moved to the heap as it is.
-/

namespace Mtcl

open Safety

variable {T : Type}

/-- The handles, and which of them have been handed back. -/
abbrev Handed (T : Type) := Objects T × (Nat → Bool)

/-- The virtual functions of the handle `id`. -/
def handed (tr : Transport T) (id : Nat) : CommunicationHandle (Handed T) where
  base w := (handle tr id).base w.1
  setProbed pr w := ((handle tr id).setProbed pr w.1, w.2)
  probe size blocking w := do
    let (r, size, o) ← (handle tr id).probe size blocking w.1
    return (r, size, (o, w.2))
  receive n w := do
    let (r, bs, o) ← (handle tr id).receive n w.1
    return (r, bs, (o, w.2))
  send bs w := do
    let (r, o) ← (handle tr id).send bs w.1
    return (r, (o, w.2))
  close wr rd w := do
    let o ← (handle tr id).close wr rd w.1
    return (o, w.2)
  yield w := do
    let o ← (handle tr id).yield w.1
    return (o, if (w.1.base id).closedRd then w.2 else Function.update w.2 id true)
  incrementReferenceCounter w := do
    let o ← (handle tr id).incrementReferenceCounter w.1
    return (o, w.2)
  decrementReferenceCounter w := do
    let o ← (handle tr id).decrementReferenceCounter w.1
    return (o, w.2)

/-- What a proxy is set up with; `dial` tells whether the transport gets a connection. -/
structure ProxySetting (T : Type) where
  pool : Bytes
  components : Components
  hash : Bytes → Nat
  instanceName : Nat → Bytes
  address : Nat → Nat
  transport : Transport T
  dial : Bytes → T → Except Stop (Bool × T)

namespace ProxySetting

/-- `Manager::connect`. -/
def connect (c : ProxySetting T) (s : Bytes) (w : Handed T) : Except Stop (HandleUser Nat × Handed T) := do
  let (connected, t) ← c.dial s w.1.transport
  let o := { w.1 with transport := t }
  if connected then do
    let id := o.allocated
    let w : Handed T := (o.create, Function.update w.2 id false)
    let (r, w) ← (handed c.transport id).send (List.replicate sizeofInt 0) w
    match r with
    | .error _ => return ({}, w)
    | .ok _ => HandleUser.mk' (handed c.transport) (some id) true true w
  else return (⟨none, true, true⟩, (o, w.2))

/-- The proxy's environment. -/
def env (c : ProxySetting T) : ProxyEnv (Handed T) where
  pool := c.pool
  components := c.components
  hash := c.hash
  vt := handed c.transport
  instanceName := c.instanceName
  address := c.address
  connect := c.connect

end ProxySetting

/-! ### What happens to the handles -/

/-- The read side is closed, or the handle has been handed back. -/
def Settled (w : Handed T) (id : Nat) : Prop := (w.1.base id).closedRd = true ∨ w.2 id = true

/-- No handle is lost, no read side opened, none taken from the `Manager`. -/
structure Onward (w w' : Handed T) : Prop where
  allocated : w.1.allocated ≤ w'.1.allocated
  closedRd : ∀ id < w.1.allocated, (w.1.base id).closedRd = true → (w'.1.base id).closedRd = true
  handed : ∀ id < w.1.allocated, w.2 id = true → w'.2 id = true

theorem Onward.refl (w : Handed T) : Onward w w := ⟨Nat.le_refl _, fun _ _ h => h, fun _ _ h => h⟩

theorem Onward.trans {w w' w'' : Handed T} (h : Onward w w') (h' : Onward w' w'') : Onward w w'' where
  allocated := Nat.le_trans h.allocated h'.allocated
  closedRd id hid hc := h'.closedRd id (Nat.lt_of_lt_of_le hid h.allocated) (h.closedRd id hid hc)
  handed id hid hc := h'.handed id (Nat.lt_of_lt_of_le hid h.allocated) (h.handed id hid hc)

theorem Onward.settled {w w' : Handed T} (h : Onward w w') {id : Nat} (hid : id < w.1.allocated) (hs : Settled w id) :
    Settled w' id :=
  hs.imp (h.closedRd id hid) (h.handed id hid)

section

variable {tr : Transport T} {w w' : Handed T} {id : Nat}

/-- The functions of a handle that hand nothing back. -/
private def unhanded (tr : Transport T) (id : Nat) : CommunicationHandle (Handed T) :=
  { handed tr id with yield := fun _ => .error .undefined }

private theorem unhanded_keeps {I : Handed T → Prop} (hk : ∀ m, (handle tr id).Keeps fun o => I (o, m)) :
    (unhanded tr id).Keeps I where
  setProbed pr w h := (hk w.2).setProbed pr w.1 h
  probe := by
    intro size blocking w r size' w' h he
    obtain ⟨⟨r1, s1, o⟩, ho, he⟩ := bind_eq_ok.1 he
    cases he
    exact (hk w.2).probe h ho
  receive := by
    intro n w r bs w' h he
    obtain ⟨⟨r1, s1, o⟩, ho, he⟩ := bind_eq_ok.1 he
    cases he
    exact (hk w.2).receive h ho
  send := by
    intro bs w r w' h he
    obtain ⟨⟨r1, o⟩, ho, he⟩ := bind_eq_ok.1 he
    cases he
    exact (hk w.2).send h ho
  close := by
    intro wr rd w w' h he
    obtain ⟨o, ho, he⟩ := bind_eq_ok.1 he
    cases he
    exact (hk w.2).close h ho
  yield := nofun
  incrementReferenceCounter := by
    intro w w' h he
    obtain ⟨o, ho, he⟩ := bind_eq_ok.1 he
    cases he
    exact (hk w.2).incrementReferenceCounter h ho
  decrementReferenceCounter := by
    intro w w' h he
    obtain ⟨o, ho, he⟩ := bind_eq_ok.1 he
    cases he
    exact (hk w.2).decrementReferenceCounter h ho

/-- All functions, of what handing back keeps too. -/
theorem handed_keeps_of {I : Handed T → Prop} (hk : ∀ m, (handle tr id).Keeps fun o => I (o, m))
    (hmark : ∀ w, I w → I (w.1, Function.update w.2 id true)) : (handed tr id).Keeps I :=
  { unhanded_keeps hk with
    yield := by
      intro w w' h he
      obtain ⟨o, ho, he⟩ := bind_eq_ok.1 he
      cases he
      have ho' : I (o, w.2) := (hk w.2).yield h ho
      split
      · exact ho'
      · exact hmark _ ho' }

private theorem onward_put (o : Objects T) (m : Nat → Bool) {b : CommBase}
    (hb : (o.base id).closedRd = true → b.closedRd = true) : Onward (o, m) (o.put id b, m) := by
  refine ⟨Nat.le_refl _, fun j _ hc => ?_, fun _ _ h => h⟩
  change ((o.put id b).base j).closedRd = true
  by_cases hj : j = id
  · subst hj
    rw [Objects.put_base_self]
    exact hb hc
  · rw [Objects.put_base_ne _ _ hj]
    exact hc

private theorem onward_transport (w : Handed T) (t : T) : Onward w ({ w.1 with transport := t }, w.2) :=
  ⟨Nat.le_refl _, fun _ _ h => h, fun _ _ h => h⟩

private theorem onward_touches {o o' : Objects T} (m : Nat → Bool) (h : Objects.Touches id o o') :
    Onward (o, m) (o', m) := by
  cases h with
  | transport t => exact onward_transport (o, m) t
  | put _ hrd => exact onward_put o m hrd
  | delete =>
    have hd : Objects.Touches id o (o.deleteUnused id) := .delete o
    refine ⟨hd.calm.allocated.ge, fun j _ hc => ?_, fun _ _ h => h⟩
    rw [Objects.deleteUnused_base]
    exact hc

theorem handed_keeps (tr : Transport T) (w0 : Handed T) (id : Nat) : (handed tr id).Keeps (Onward w0) := by
  refine handed_keeps_of (fun m => ?_) fun w h => ?_
  · exact Objects.handle_keeps (fun h ht => h.trans (onward_touches m ht)) fun n h =>
      h.trans (onward_put _ m fun h => h)
  · refine ⟨h.allocated, h.closedRd, fun j hj hm => ?_⟩
    by_cases hji : j = id
    · subst hji
      exact Function.update_self ..
    · exact (Function.update_of_ne hji ..).trans (h.handed j hj hm)

private theorem handed_close {wr : Bool} (h : (handed tr id).close wr true w = .ok w') :
    (w'.1.base id).closedRd = true := by
  obtain ⟨o, ho, h⟩ := bind_eq_ok.1 h
  cases h
  change w.1.close tr id wr true = .ok o at ho
  change (o.base id).closedRd = true
  rw [Objects.close_base ho, Function.update_self, Bool.or_true]

/-- `Handle::yield` hands the handle back, unless there is nothing to listen to. -/
private theorem handed_yield (h : (handed tr id).yield w = .ok w') : Settled w' id := by
  obtain ⟨o, ho, h⟩ := bind_eq_ok.1 h
  cases h
  change w.1.yield tr id = .ok o at ho
  unfold Objects.yield at ho
  obtain ⟨b, hb, ho⟩ := bind_eq_ok.1 ho
  obtain ⟨-, -, rfl⟩ := Objects.deref_eq_ok.1 hb
  cases hrd : (w.1.base id).closedRd with
  | true =>
    rw [if_pos hrd] at ho
    cases ho
    exact .inl hrd
  | false => exact .inr (Function.update_self ..)

/-! ### What `HandleUser` does -/

theorem user_yield {u u' : HandleUser Nat} (h : u.yield (handed tr) w = .ok (u', w')) :
    Onward w w' ∧ u'.realHandle = u.realHandle ∧ ∀ j, u.realHandle = some j → Settled w' j := by
  refine ⟨HandleUser.yield_keeps (fun j => handed_keeps tr w j) (.refl w) h, HandleUser.yield_user h, fun j hj => ?_⟩
  unfold HandleUser.yield at h
  dsimp only at h
  rw [hj] at h
  obtain ⟨w1, h1, h⟩ := bind_eq_ok.1 h
  cases h
  exact handed_yield h1

private theorem user_destroy {u : HandleUser Nat} (h : u.destroy (handed tr) w = .ok w') :
    Onward w w' ∧ ∀ j < w.1.allocated, u.realHandle = some j → u.isReadable = true → Settled w' j := by
  refine ⟨HandleUser.destroy_keeps (fun j => handed_keeps tr w j) (.refl w) h, fun j hj hu hr => ?_⟩
  unfold HandleUser.destroy at h
  rw [if_pos hr, hu] at h
  obtain ⟨w1, h1, h⟩ := bind_eq_ok.1 h
  cases hy : u.yield (handed tr) w with
  | error e =>
    rw [hy] at h1
    cases h1
  | ok x =>
    obtain ⟨u1, w2⟩ := x
    rw [hy] at h1
    cases h1
    obtain ⟨hon, -, hs⟩ := user_yield hy
    have h2 : Onward w2 w' := (handed_keeps tr w2 j).decrementReferenceCounter (.refl w2) h
    exact h2.settled (Nat.lt_of_lt_of_le hj hon.allocated) (hs j hu)

/-- A user has the handle to read from, or it is settled. -/
private def Minds (w : Handed T) (u : HandleUser Nat) (id : Nat) : Prop :=
  id < w.1.allocated ∧ (Settled w id ∨ u.realHandle = some id ∧ u.isReadable = true)

private theorem Minds.onward {u : HandleUser Nat} (h : Minds w u id) (hon : Onward w w') : Minds w' u id :=
  ⟨Nat.lt_of_lt_of_le h.1 hon.allocated, h.2.imp_left (hon.settled h.1)⟩

private theorem Minds.reads {u u' : HandleUser Nat} (h : Minds w u id) (hon : Onward w w')
    (hu : u'.realHandle = u.realHandle)
    (hr : u'.isReadable = u.isReadable ∨ ∃ id wr w1, u.realHandle = some id ∧
      (handed tr id).close wr true w1 = .ok w') :
    Minds w' u' id := by
  refine ⟨Nat.lt_of_lt_of_le h.1 hon.allocated, ?_⟩
  rcases h.2 with hs | ⟨hid, hread⟩
  · exact .inl (hon.settled h.1 hs)
  · rcases hr with hr | ⟨k, wr, w1, hk, hc⟩
    · exact .inr ⟨hu.trans hid, hr.trans hread⟩
    · cases hid.symm.trans hk
      exact .inl (.inl (handed_close hc))

private theorem user_probe {u u' : HandleUser Nat} {size size' : Nat} {r : Ret}
    (h : u.probe (handed tr) size true w = .ok (r, size', u', w')) :
    Onward w w' ∧ u'.realHandle = u.realHandle ∧ ∀ id, Minds w u id → Minds w' u' id := by
  have hon := HandleUser.probe_keeps (fun j => handed_keeps tr w j) (.refl w) h
  exact ⟨hon, HandleUser.probe_user h, fun id hm =>
    hm.reads hon (HandleUser.probe_user h) (HandleUser.probe_unreadable h)⟩

private theorem user_receive {u u' : HandleUser Nat} {size : Nat} {r : Ret} {bs : Bytes}
    (h : u.receive (handed tr) size w = .ok (r, bs, u', w')) :
    Onward w w' ∧ u'.realHandle = u.realHandle ∧ ∀ id, Minds w u id → Minds w' u' id := by
  have hon := HandleUser.receive_keeps (fun j => handed_keeps tr w j) (.refl w) h
  exact ⟨hon, HandleUser.receive_user h, fun id hm =>
    hm.reads hon (HandleUser.receive_user h) (HandleUser.receive_unreadable h)⟩

end

/-! ### What the proxy does -/

section

variable {c : ProxySetting T} {w w' : Handed T}

private theorem connect_new {le : Bytes} {u : HandleUser Nat} (h : c.connect le w = .ok (u, w')) :
    Onward w w' ∧ ∀ j, u.realHandle = some j → w.1.allocated ≤ j ∧ j < w'.1.allocated := by
  unfold ProxySetting.connect at h
  obtain ⟨⟨connected, t⟩, -, h⟩ := bind_eq_ok.1 h
  dsimp only at h
  cases connected with
  | false =>
    cases h
    exact ⟨onward_transport w t, nofun⟩
  | true =>
    rw [if_pos rfl] at h
    obtain ⟨⟨r, w1⟩, h1, h⟩ := bind_eq_ok.1 h
    have hcreate : Onward w (({ w.1 with transport := t } : Objects T).create,
      Function.update w.2 w.1.allocated false) := by
      refine ⟨Nat.le_succ _, fun j hj hc => ?_, fun j hj hh => ?_⟩
      · change ((w.1.put w.1.allocated {}).base j).closedRd = true
        rw [Objects.put_base_ne _ _ (Nat.ne_of_lt hj)]
        exact hc
      · change Function.update w.2 w.1.allocated false j = true
        rw [Function.update_of_ne (Nat.ne_of_lt hj)]
        exact hh
    have hsend : Onward w w1 := (handed_keeps c.transport w w.1.allocated).send hcreate h1
    have hlt : w.1.allocated < w1.1.allocated := by
      have h2 := (handed_keeps c.transport _ w.1.allocated).send (.refl _) h1
      exact Nat.lt_of_lt_of_le (Nat.lt_succ_self _) h2.allocated
    cases r with
    | error e =>
      cases h
      exact ⟨hsend, nofun⟩
    | ok n =>
      dsimp only at h
      unfold HandleUser.mk' at h
      obtain ⟨w2, h2, h⟩ := bind_eq_ok.1 h
      cases h
      have hinc : Onward w1 w' := (handed_keeps c.transport w1 w.1.allocated).incrementReferenceCounter (.refl w1) h2
      refine ⟨hsend.trans hinc, fun j hj => ?_⟩
      cases hj
      exact ⟨Nat.le_refl _, Nat.lt_of_lt_of_le hlt hinc.allocated⟩

theorem connectFirst_new {protocol : Bytes} {les : List Bytes} {found : Option (HandleUser Nat)}
    (h : c.env.connectFirst protocol les w = .ok (found, w')) :
    Onward w w' ∧ ∀ u, found = some u → ∃ j, u.realHandle = some j ∧ w.1.allocated ≤ j ∧ j < w'.1.allocated := by
  induction les generalizing w with
  | nil =>
    cases h
    exact ⟨.refl _, nofun⟩
  | cons le les ih =>
    unfold ProxyEnv.connectFirst at h
    split at h
    · obtain ⟨⟨u, w1⟩, h1, h⟩ := bind_eq_ok.1 h
      obtain ⟨hon, hlt⟩ := connect_new h1
      dsimp only at h
      split at h
      · rename_i hvalid
        cases h
        refine ⟨hon, fun u' hu => ?_⟩
        cases hu
        obtain ⟨j, hj⟩ := Option.isSome_iff_exists.1 hvalid
        exact ⟨j, hj, hlt j hj⟩
      · obtain ⟨hon', hnew⟩ := ih h
        refine ⟨hon.trans hon', fun u' hu => ?_⟩
        obtain ⟨j, hj, hge, hlt'⟩ := hnew u' hu
        exact ⟨j, hj, Nat.le_trans hon.allocated hge, hlt'⟩
    · exact ih h

end

namespace Proxy

/-- The proxy has the handle in `proxies` or in `id2handle`. -/
def Holds {W : Type} (s : Proxy W) (id : Nat) : Prop :=
  (∃ name p u, s.proxies name = some (some p) ∧ s.heap[p]? = some u ∧ u.realHandle = some id) ∨
    ∃ k u, s.id2handle k = some u ∧ u.realHandle = some id

/-- Every connection that the proxy holds has been handed back, as long as its read side is open. -/
def Listening (s : Proxy (Handed T)) : Prop := ∀ id, s.Holds id → Settled s.world id

/-- What the proxy holds in addition is settled. -/
structure Follows (s s' : Proxy (Handed T)) : Prop where
  onward : Onward s.world s'.world
  holds : ∀ id, s'.Holds id → s.Holds id ∨ id < s'.world.1.allocated ∧ Settled s'.world id

variable {c : ProxySetting T} {s s' s'' : Proxy (Handed T)}

theorem Follows.refl (s : Proxy (Handed T)) : s.Follows s := ⟨.refl _, fun _ => .inl⟩

theorem Follows.trans (h : s.Follows s') (h' : s'.Follows s'') : s.Follows s'' where
  onward := h.onward.trans h'.onward
  holds id hid := by
    rcases h'.holds id hid with hid | hid
    · rcases h.holds id hid with hid | ⟨hlt, hs⟩
      · exact .inl hid
      · exact .inr ⟨Nat.lt_of_lt_of_le hlt h'.onward.allocated, h'.onward.settled hlt hs⟩
    · exact .inr hid

/-- A change of the world and of tables that are not about what is held. -/
private theorem follows_of (hon : Onward s.world s'.world) (hproxies : s'.proxies = s.proxies)
    (hheap : s'.heap = s.heap) (hid : s'.id2handle = s.id2handle) : s.Follows s' := by
  refine ⟨hon, fun id h => .inl ?_⟩
  unfold Holds at h ⊢
  rwa [hproxies, hheap, hid] at h

private theorem Follows.after (h : s'.Follows s'') (hworld : s'.world = s.world) (hproxies : s'.proxies = s.proxies)
    (hheap : s'.heap = s.heap) (hid : s'.id2handle = s.id2handle) : s.Follows s'' :=
  (follows_of (hworld ▸ .refl s'.world) hproxies hheap hid).trans h

theorem lift_returns {α : Type} (x : Except Stop α) : Returns (fun a => x = .ok a) (lift x) := (lift_safe x).returns

/-- Other users behind the same handles. -/
private theorem holds_update {k id : Nat} {u : HandleUser Nat} (hu : u.realHandle = some id → s.Holds id) {w : Handed T}
    (h : ({ s with world := w, id2handle := Function.update s.id2handle k (some u) } :
      Proxy (Handed T)).Holds id) : s.Holds id := by
  rcases h with h | ⟨j, v, hv, hid⟩
  · exact .inl h
  · change Function.update s.id2handle k (some u) j = some v at hv
    by_cases hj : j = k
    · subst hj
      rw [Function.update_self] at hv
      cases hv
      exact hu hid
    · rw [Function.update_of_ne hj] at hv
      exact .inr ⟨j, v, hv, hid⟩

private theorem sendThrough_follows (s : Proxy (Handed T)) (ptr : Option Nat) (buff : Bytes) :
    Returns s.Follows (s.sendThrough c.env ptr buff) := by
  unfold sendThrough
  split
  · exact .error
  · rename_i p
    cases hp : s.heap[p]? with
    | none => exact .error
    | some u =>
      refine (lift_returns _).bind ?_
      rintro ⟨r, u', w'⟩ hu
      refine .ok ⟨HandleUser.send_keeps (fun j => handed_keeps c.transport s.world j) (.refl _) hu, fun id h => .inl ?_⟩
      rcases h with ⟨name, q, v, hq, hv, hid⟩ | h
      · change (s.heap.set p u')[q]? = some v at hv
        refine .inl ⟨name, q, ?_⟩
        by_cases hpq : p = q
        · subst hpq
          rw [List.getElem?_set_self (List.getElem?_eq_some_iff.1 hp).1] at hv
          cases hv
          exact ⟨u, hq, hp, (HandleUser.send_user hu).symm.trans hid⟩
        · rw [List.getElem?_set_ne hpq] at hv
          exact ⟨v, hq, hv, hid⟩
      · exact .inr h

private theorem handleAt_follows (s : Proxy (Handed T)) (k : Nat) :
    s.Follows (s.handleAt k).2 ∧ ∀ id, (s.handleAt k).1.realHandle = some id → s.Holds id := by
  unfold handleAt
  split
  · rename_i u hu
    exact ⟨.refl s, fun id hid => .inr ⟨k, u, hu, hid⟩⟩
  · refine ⟨⟨.refl _, fun id h => .inl (holds_update (w := s.world) (fun hn => ?_) h)⟩, fun id hn => ?_⟩
    · cases hn
    · cases hn

private theorem eraseHandle_follows (s : Proxy (Handed T)) (k : Nat) : Returns s.Follows (s.eraseHandle c.env k) := by
  unfold eraseHandle
  split
  · exact .ok (.refl s)
  · refine (lift_returns _).bind fun w hw => .ok ⟨(user_destroy hw).1, fun id h => .inl ?_⟩
    rcases h with h | ⟨j, v, hv, hid⟩
    · exact .inl h
    · change Function.update s.id2handle k none j = some v at hv
      by_cases hj : j = k
      · subst hj
        rw [Function.update_self] at hv
        cases hv
      · rw [Function.update_of_ne hj] at hv
        exact .inr ⟨j, v, hv, hid⟩

/-- What is put into `id2handle` has been handed back. -/
theorem keepHandle_follows {u : HandleUser Nat} {id : Nat} (hu : u.realHandle = some id)
    (hid : id < s.world.1.allocated) :
    Returns (fun s' => s.Follows s' ∧ Settled s'.world id) (s.keepHandle c.env u) := by
  unfold keepHandle
  refine (lift_returns _).bind ?_
  rintro ⟨u', w'⟩ hy
  obtain ⟨hon, hreal, hset⟩ := user_yield hy
  have hlt := Nat.lt_of_lt_of_le hid hon.allocated
  dsimp only
  split
  · refine .ok ⟨⟨hon, fun k h => ?_⟩, hset id hu⟩
    rcases h with h | ⟨j, v, hv, hk⟩
    · exact .inl (.inl h)
    · change Function.update s.id2handle _ (some u') j = some v at hv
      by_cases hj : j = c.env.getID u'
      · rw [hj, Function.update_self] at hv
        cases hv
        cases hu.symm.trans (hreal.symm.trans hk)
        exact .inr ⟨hlt, hset id hu⟩
      · rw [Function.update_of_ne hj] at hv
        exact .inl (.inr ⟨j, v, hv, hk⟩)
  · refine (lift_returns _).bind fun w2 hw2 => .ok ?_
    have hon2 := (user_destroy hw2).1
    exact ⟨follows_of (hon.trans hon2) rfl rfl rfl, hon2.settled hlt (hset id hu)⟩

private theorem frameEOS_follows (s : Proxy (Handed T)) (identifier : Nat) :
    Returns s.Follows (s.frameEOS c.env identifier) := by
  unfold frameEOS
  split
  · refine (fromBimap_safe _).returns.bind fun hID _ => ?_
    split
    · exact .error
    · refine (lift_returns _).bind fun w hw => (lift_returns _).bind fun closed _ => ?_
      have hon : Onward s.world w := HandleUser.close_keeps (fun j => handed_keeps c.transport s.world j) (.refl _) hw
      have hs : s.Follows { s with world := w } := follows_of hon rfl rfl rfl
      dsimp only
      split
      · refine (eraseHandle_follows _ hID).bind fun s1 h1 => (fromBimap_safe _).returns.bind fun b _ => .ok ?_
        exact (hs.trans h1).trans (follows_of (.refl _) rfl rfl rfl)
      · exact .ok hs
  · exact .ok (.refl s)

/-- A message is sent to a handle in `id2handle`. -/
private theorem sendAt_follows (s : Proxy (Handed T)) (k : Nat) (bs : Bytes) {r : Ret}
    {u : HandleUser Nat} {w : Handed T}
    (h : (s.handleAt k).1.send c.env.vt bs (s.handleAt k).2.world = .ok (r, u, w)) :
    s.Follows { (s.handleAt k).2 with
      world := w, id2handle := Function.update (s.handleAt k).2.id2handle k (some u) } := by
  obtain ⟨hf, hheld⟩ := handleAt_follows s k
  refine ⟨hf.onward.trans (HandleUser.send_keeps (fun j => handed_keeps c.transport _ j) (.refl _) h),
    fun id hid => .inl ?_⟩
  have hu (id : Nat) (hr : u.realHandle = some id) : s.Holds id := hheld id ((HandleUser.send_user h).symm.trans hr)
  unfold handleAt at hid
  split at hid
  · exact holds_update (hu id) hid
  · refine holds_update (s := s) (k := k) (u := u) (w := w) (hu id) ?_
    rcases hid with hid | ⟨j, v, hv, hid⟩
    · exact .inl hid
    · rw [Function.update_idem] at hv
      exact .inr ⟨j, v, hv, hid⟩

private theorem frameFWD_follows (s : Proxy (Handed T)) (identifier : Nat) (payload : Bytes) :
    Returns s.Follows (s.frameFWD c.env identifier payload) := by
  unfold frameFWD
  split
  · refine (fromBimap_safe _).returns.bind fun key _ => (lift_returns _).bind ?_
    rintro ⟨r, u, w⟩ hu
    exact .ok (sendAt_follows s key payload hu)
  · exact .ok (.refl s)

private theorem frameCONN_follows (s : Proxy (Handed T)) (via : Option Nat) (identifier : Nat) (payload : Bytes) :
    Returns s.Follows (s.frameCONN c.env via identifier payload) := by
  unfold frameCONN
  split
  · exact .ok (.refl s)
  · refine (lift_returns _).bind ?_
    rintro ⟨found, w⟩ hw
    obtain ⟨hon, hnew⟩ := connectFirst_new hw
    cases found with
    | none => exact .ok (follows_of hon rfl rfl rfl)
    | some u =>
      have hs : s.Follows (({ s with world := w } : Proxy (Handed T)).associate c.env u identifier via) :=
        follows_of hon rfl rfl rfl
      obtain ⟨j, hj, -, hlt⟩ := hnew u rfl
      exact (keepHandle_follows hj hlt).mono fun s1 h1 => hs.trans h1.1

private theorem closeHop_follows (s : Proxy (Handed T)) (connId : Nat) :
    Returns s.Follows (s.closeHop c.env connId) := by
  unfold closeHop
  split
  · exact .ok (.refl s)
  · rename_i dest _
    refine (lift_returns _).bind fun w hw => (lift_returns _).bind fun closed _ => ?_
    have hf := (handleAt_follows s dest).1
    have hon := HandleUser.close_keeps (fun j => handed_keeps c.transport (s.handleAt dest).2.world j) (.refl _) hw
    dsimp only
    split
    · refine (eraseHandle_follows _ dest).mono fun s1 h1 => hf.trans (Follows.trans ?_ h1)
      exact follows_of hon rfl rfl rfl
    · exact .ok (hf.trans (follows_of hon rfl rfl rfl))

private theorem closeRoute_follows (s : Proxy (Handed T)) (h : HandleUser Nat) :
    Returns s.Follows (s.closeRoute c.env h) := by
  unfold closeRoute
  split
  · refine (fromBimap_safe _).returns.bind fun v _ => ?_
    dsimp only
    refine (sendThrough_follows _ _ _).bind fun s1 h1 => (lift_returns _).bind fun closed _ => ?_
    have hs : s.Follows s1 := h1.after rfl rfl rfl rfl
    split
    · refine (fromBimap_safe _).returns.bind fun b _ => (eraseHandle_follows _ _).mono fun s2 h2 =>
        hs.trans (Follows.trans ?_ h2)
      exact follows_of (.refl _) rfl rfl rfl
    · exact .ok hs
  · exact .ok (.refl s)

private theorem forward_follows (s : Proxy (Handed T)) (connId : Nat) (m : Bytes) :
    Returns s.Follows (s.forward c.env connId m) := by
  unfold forward
  split
  · refine (fromBimap_safe _).returns.bind fun v _ => ?_
    exact (sendThrough_follows _ _ _).mono fun s1 h1 => h1.after rfl rfl rfl rfl
  · split
    · exact .ok (.refl s)
    · rename_i dest _
      refine (lift_returns _).bind ?_
      rintro ⟨r, u, w⟩ hu
      exact .ok (sendAt_follows s dest m hu)

/-! ### An iteration -/

/-- What a branch leaves: the proxy holds nothing new that is not settled, and the handle that `getNext`
returned is settled or still with the user it was returned to. -/
private def Leaves (s : Proxy (Handed T)) (id : Nat) (x : HandleUser Nat × Proxy (Handed T)) : Prop :=
  s.Follows x.2 ∧ Minds x.2.world x.1 id

private theorem leaves_read {id : Nat} {u u' : HandleUser Nat} {w : Handed T}
    (h : Onward s.world w ∧ u'.realHandle = u.realHandle ∧ ∀ id, Minds s.world u id → Minds w u' id)
    (hm : Minds s.world u id) : Leaves s id (u', { s with world := w }) :=
  ⟨follows_of h.1 rfl rfl rfl, h.2.2 id hm⟩

theorem user_read {ev : ProxyEvent (Handed T)} {u u' : HandleUser Nat} {w w' : Handed T} {sz : Nat} {buff : Bytes}
    (h : c.env.readMessage ev u w = .ok (sz, buff, u', w')) :
    Onward w w' ∧ u'.realHandle = u.realHandle ∧ ∀ id, Minds w u id → Minds w' u' id := by
  unfold ProxyEnv.readMessage at h
  obtain ⟨⟨r, sz1, u1, w1⟩, h1, h⟩ := bind_eq_ok.1 h
  obtain ⟨⟨r2, bs, u2, w2⟩, h2, h⟩ := bind_eq_ok.1 h
  cases h
  obtain ⟨hon1, hu1, hm1⟩ := user_probe h1
  obtain ⟨hon2, hu2, hm2⟩ := user_receive h2
  exact ⟨hon1.trans hon2, hu2.trans hu1, fun id hm => hm2 id (hm1 id hm)⟩

private theorem keepHandle_leaves {id : Nat} {u : HandleUser Nat} (hs : s.Follows s') (hu : u.realHandle = some id)
    (hm : id < s'.world.1.allocated) :
    Returns (Leaves s id) (do
      let s ← s'.keepHandle c.env u
      pure (({} : HandleUser Nat), s)) := by
  refine (keepHandle_follows hu hm).bind fun s1 h1 => .ok ⟨hs.trans h1.1, ?_, .inl h1.2⟩
  exact Nat.lt_of_lt_of_le hm h1.1.onward.allocated

private theorem oneHop_leaves {id : Nat} {u : HandleUser Nat} (hu : u.realHandle = some id) (hm : Minds s.world u id)
    (protocol : Bytes) (comp : Component) : Returns (Leaves s id) (s.oneHop c.env u protocol comp) := by
  unfold oneHop
  split
  · exact keepHandle_leaves (.refl s) hu hm.1
  · refine (lift_returns _).bind ?_
    rintro ⟨found, w⟩ hw
    obtain ⟨hon, hnew⟩ := connectFirst_new hw
    cases found with
    | none =>
      refine (lift_returns _).bind fun w' hw' => .ok ?_
      have hon' := hon.trans (HandleUser.close_keeps (fun j => handed_keeps c.transport w j) (.refl _) hw')
      exact ⟨follows_of hon' rfl rfl rfl, hm.onward hon'⟩
    | some v =>
      dsimp only
      obtain ⟨j, hj, -, hlt⟩ := hnew v rfl
      refine (keepHandle_follows hj hlt).bind fun s1 h1 => ?_
      have hw : s.Follows { s with world := w } := follows_of hon rfl rfl rfl
      have hf : s.Follows s1 := hw.trans (h1.1.after rfl rfl rfl rfl)
      exact keepHandle_leaves hf hu (Nat.lt_of_lt_of_le hm.1 hf.onward.allocated)

private theorem otherPool_leaves {id : Nat} {u : HandleUser Nat} (hu : u.realHandle = some id) (hm : Minds s.world u id)
    (connectString pool : Bytes) : Returns (Leaves s id) (s.otherPool c.env u connectString pool) := by
  unfold otherPool
  dsimp only
  have hs : s.Follows { s with proxies := Function.update s.proxies pool (some ((s.proxies pool).getD none)) } := by
    refine ⟨.refl _, fun id h => .inl ?_⟩
    rcases h with ⟨name, p, v, hp, hv⟩ | h
    · refine .inl ⟨name, p, v, ?_, hv⟩
      change Function.update s.proxies pool _ name = some (some p) at hp
      by_cases hn : name = pool
      · subst hn
        rw [Function.update_self] at hp
        cases hx : s.proxies name with
        | none =>
          rw [hx] at hp
          cases hp
        | some ptr =>
          rw [hx] at hp
          exact hp
      · rwa [Function.update_of_ne hn] at hp
    · exact .inr h
  refine (sendThrough_follows _ _ _).bind fun s1 h1 => ?_
  have hf := hs.trans h1
  refine keepHandle_leaves (hf.trans (follows_of (.refl _) rfl rfl rfl)) hu ?_
  exact Nat.lt_of_lt_of_le hm.1 hf.onward.allocated

private theorem Leaves.after {id : Nat} {x : HandleUser Nat × Proxy (Handed T)} (h : Leaves s' id x)
    (hs : s.Follows s') : Leaves s id x :=
  ⟨hs.trans h.1, h.2⟩

private theorem frame_leaves {ev : ProxyEvent (Handed T)} {id : Nat} {u : HandleUser Nat} (hm : Minds s.world u id) :
    Returns (Leaves s id) (s.frame c.env ev u) := by
  unfold frame
  refine (lift_returns _).bind ?_
  rintro ⟨sz, buff, u', w⟩ hread
  obtain ⟨hf, hm'⟩ := leaves_read (user_read hread) hm
  dsimp only
  split
  · exact .error
  · refine Returns.bind (P := ({ s with world := w } : Proxy (Handed T)).Follows) ?_ fun s1 h1 =>
      .ok ⟨hf.trans h1, hm'.onward h1.onward⟩
    split
    · exact frameEOS_follows _ _
    · split
      · exact frameFWD_follows _ _ _
      · split
        · exact frameCONN_follows _ _ _ _
        · exact .ok (.refl _)

private theorem newProcess_leaves {ev : ProxyEvent (Handed T)} {id : Nat} {u : HandleUser Nat}
    (hu : u.realHandle = some id) (hm : Minds s.world u id) :
    Returns (Leaves s id) (s.newProcess c.env ev u) := by
  unfold newProcess
  refine (lift_returns _).bind ?_
  rintro ⟨sz, cs, u', w⟩ hread
  have hr := user_read hread
  obtain ⟨hf, hm'⟩ := leaves_read hr hm
  have hu' := hr.2.1.trans hu
  dsimp only
  split
  · exact .ok ⟨hf, hm'⟩
  · split
    · exact (oneHop_leaves (s := { s with world := w }) hu' hm' _ _).mono fun x hx => hx.after hf
    · exact (otherPool_leaves (s := { s with world := w }) hu' hm' _ _).mono fun x hx => hx.after hf

private theorem message_leaves {ev : ProxyEvent (Handed T)} {id : Nat} {u : HandleUser Nat} (hm : Minds s.world u id) :
    Returns (Leaves s id) (s.message c.env ev u) := by
  unfold message
  refine (lift_returns _).bind ?_
  rintro ⟨r, sz, u', w⟩ hprobe
  obtain ⟨hf, hm'⟩ := leaves_read (user_probe hprobe) hm
  dsimp only
  split
  · refine (closeRoute_follows _ _).bind fun s1 h1 => (closeHop_follows _ _).bind fun s2 h2 => .ok ?_
    have h3 := h1.trans h2
    exact ⟨hf.trans h3, hm'.onward h3.onward⟩
  · refine (lift_returns _).bind ?_
    rintro ⟨r1, bs, u1, w1⟩ hreceive
    obtain ⟨hf1, hm1⟩ := leaves_read (s := { s with world := w }) (user_receive hreceive) hm'
    refine (forward_follows _ _ _).bind fun s2 h2 => .ok ?_
    exact ⟨(hf.trans hf1).trans h2, hm1.onward h2.onward⟩

private theorem unhanded_same (tr : Transport T) (m : Nat → Bool) (id : Nat) :
    (unhanded tr id).Keeps fun w => w.2 = m :=
  unhanded_keeps fun _ => Objects.handle_keeps (fun h _ => h) fun _ h => h

private theorem probe_handed {tr : Transport T} {u u' : HandleUser Nat} {size size' : Nat} {w w' : Handed T} {r : Ret}
    (h : u.probe (handed tr) size true w = .ok (r, size', u', w')) : w'.2 = w.2 := by
  obtain ⟨id, b, -, -, -, h⟩ := HandleUser.probe_cases h
  have hk := unhanded_same tr w.2 id
  rcases h with ⟨rfl, -⟩ | ⟨-, -, -, -, r0, w0, h0, hout⟩
  · rfl
  · have h0' : w0.2 = w.2 := hk.probe rfl h0
    cases hout with
    | closed _ hc => exact hk.close h0' hc
    | failed _ => exact h0'
    | eos _ hc => exact hk.close (hk.setProbed _ _ h0') hc
    | header _ => exact hk.setProbed _ _ h0'

private theorem receiveProbed_handed {tr : Transport T} {u u' : HandleUser Nat} {size : Nat} {w w' : Handed T}
    {r : Ret} {bs : Bytes} (h : u.receiveProbed (handed tr) size w = .ok (r, bs, u', w')) : w'.2 = w.2 := by
  obtain ⟨-, id, b, -, -, h⟩ := HandleUser.receiveProbed_cases h
  have hk := unhanded_same tr w.2 id
  rcases h with ⟨-, -, -, rfl⟩ | ⟨-, h⟩
  · rfl
  · exact hk.receive (hk.setProbed _ _ rfl) h

private theorem read_handed {ev : ProxyEvent (Handed T)} {u u' : HandleUser Nat} {w w' : Handed T}
    {sz : Nat} {buff : Bytes} (h : c.env.readMessage ev u w = .ok (sz, buff, u', w')) : w'.2 = w.2 := by
  unfold ProxyEnv.readMessage at h
  obtain ⟨⟨r, sz1, u1, w1⟩, h1, h⟩ := bind_eq_ok.1 h
  obtain ⟨⟨r2, bs, u2, w2⟩, h2, h⟩ := bind_eq_ok.1 h
  cases h
  rw [← probe_handed h1]
  obtain ⟨_, _, -, -, h2⟩ := HandleUser.receive_cases h2
  rcases h2 with ⟨-, -, -, -, -, rfl⟩ | ⟨-, -, -, h2⟩ | ⟨-, r0, size0, u0, w0, h0, h2⟩
  · rfl
  · exact receiveProbed_handed h2
  · rw [← probe_handed h0]
    rcases h2 with ⟨-, -, -, -, rfl⟩ | ⟨-, h2⟩
    · rfl
    · exact receiveProbed_handed h2

private theorem toHeap_holds {id : Nat} {u : HandleUser Nat} (hu : u.realHandle = some id) (w : Handed T)
    (name : Bytes) :
    let s' : Proxy (Handed T) := { s with
      world := w
      heap := s.heap ++ [u]
      proxies := Function.update s.proxies name (some (some s.heap.length)) }
    ∀ j, s'.Holds j → s.Holds j ∨ j = id := by
  intro s' j hj
  rcases hj with ⟨n, p, v, hp, hv, hvj⟩ | h
  · change (s.heap ++ [u])[p]? = some v at hv
    change Function.update s.proxies name _ n = some (some p) at hp
    rcases Nat.lt_or_ge p s.heap.length with hlt | hge
    · by_cases hn : n = name
      · subst hn
        rw [Function.update_self] at hp
        cases hp
        exact absurd hlt (Nat.lt_irrefl _)
      · rw [Function.update_of_ne hn] at hp
        rw [List.getElem?_append_left hlt] at hv
        exact .inl (.inl ⟨n, p, v, hp, hv, hvj⟩)
    · rw [List.getElem?_append_right hge] at hv
      rw [List.mem_singleton.1 (List.mem_of_getElem? hv)] at hvj
      exact .inr (Option.some.inj (hvj.symm.trans hu))
  · exact .inl (.inr h)

/-- The connection of another proxy that is accepted. -/
private theorem newProxy_holds {ev : ProxyEvent (Handed T)} {id : Nat} {u : HandleUser Nat}
    (hu : u.realHandle = some id) :
    Returns (fun x => ∃ sz buff u' w, c.env.readMessage ev u s.world = .ok (sz, buff, u', w) ∧ x.1 = {} ∧
      x.2.world = w ∧ x.2.Holds id ∧ ∀ j, x.2.Holds j → s.Holds j ∨ j = id) (s.newProxy c.env ev u) := by
  have hself {u' : HandleUser Nat} (hu' : u'.realHandle = some id) (w : Handed T) (name : Bytes) :
      ({ s with
        world := w
        heap := s.heap ++ [u']
        proxies := Function.update s.proxies name (some (some s.heap.length)) } : Proxy (Handed T)).Holds id :=
    .inl ⟨name, s.heap.length, u', Function.update_self .., List.getElem?_concat_length .., hu'⟩
  unfold newProxy
  refine (lift_returns _).bind ?_
  rintro ⟨sz, buff, u', w⟩ hread
  have hu' := (user_read hread).2.1.trans hu
  dsimp only
  split
  · split
    · exact .error
    · exact .ok ⟨sz, buff, u', w, hread, rfl, rfl, hself hu' w _, toHeap_holds hu' w _⟩
  · exact .ok ⟨sz, buff, u', w, hread, rfl, rfl, hself hu' w _, toHeap_holds hu' w _⟩

/-- The `Manager` between two iterations: handles are made, read sides closed and handles handed back, and
`getNext` returns the handle `id`, which is then no longer polled or in the queue. -/
structure Between (id : Nat) (w w' : Handed T) : Prop where
  allocated : w.1.allocated ≤ w'.1.allocated
  settled : ∀ j < w.1.allocated, j ≠ id → Settled w j → Settled w' j
  named : id < w'.1.allocated
  returned : w'.2 id = false

/-- A connection of another proxy is accepted, and its peer has not closed it yet when its announcement has been
read. -/
def AcceptsProxy (c : ProxySetting T) (ev : ProxyEvent (Handed T)) : Prop :=
  c.instanceName ev.id = literal ['P'] ∧ ev.isNew = true ∧ ∃ sz buff u w,
    c.env.readMessage ev ⟨some ev.id, true, ev.isNew⟩ ev.world = .ok (sz, buff, u, w) ∧
      (w.1.base ev.id).closedRd = false

/-- Everything that the proxy holds exists. -/
def Bounded (s : Proxy (Handed T)) : Prop := ∀ id, s.Holds id → id < s.world.1.allocated

private theorem iteration_listens {ev : ProxyEvent (Handed T)} (hb : s.Bounded) (hl : s.Listening)
    (hev : Between ev.id s.world ev.world) :
    Returns (fun s' => s'.Bounded ∧ (s'.Listening ↔ ¬AcceptsProxy c ev)) (s.iteration c.env ev) := by
  let s1 : Proxy (Handed T) := { s with world := ev.world }
  let h : HandleUser Nat := ⟨some ev.id, true, ev.isNew⟩
  have hm : Minds s1.world h ev.id := ⟨hev.named, .inr ⟨rfl, rfl⟩⟩
  -- what was held before and is not the handle returned is still settled
  have hold {w : Handed T} (hon : Onward ev.world w) {j : Nat} (hj : s1.Holds j) : j < w.1.allocated ∧
      (j ≠ ev.id → Settled w j) := by
    have hlt := Nat.lt_of_lt_of_le (hb j hj) hev.allocated
    exact ⟨Nat.lt_of_lt_of_le hlt hon.allocated, fun hne => hon.settled hlt (hev.settled j (hb j hj) hne (hl j hj))⟩
  unfold iteration dispatch
  dsimp only
  by_cases hnewP : c.env.instanceName ev.id = literal ['P'] ∧ ev.isNew = true
  · rw [if_pos hnewP.1, if_pos hnewP.2]
    refine (newProxy_holds (s := s1) rfl).bind ?_
    rintro ⟨h', s2⟩ ⟨sz, buff, u, w, hread, rfl, hworld, hself, hholds⟩
    refine (lift_returns _).bind fun w3 hw3 => .ok ?_
    cases hw3
    have hon : Onward ev.world s2.world := hworld ▸ (user_read hread).1
    have hflag : s2.world.2 ev.id = false := by
      rw [hworld, read_handed hread]
      exact hev.returned
    refine ⟨fun j hj => ?_, fun hlist hacc => ?_, fun hacc j hj => ?_⟩
    · rcases hholds j hj with hj | rfl
      · exact (hold hon hj).1
      · exact Nat.lt_of_lt_of_le hev.named hon.allocated
    · obtain ⟨-, -, sz', buff', u', w', hread', hopen⟩ := hacc
      cases hread.symm.trans hread'
      rcases hlist ev.id hself with hc | hf
      · rw [hworld, hopen] at hc
        cases hc
      · rw [hflag] at hf
        cases hf
    · have hclosed : Settled s2.world ev.id := by
        left
        rw [hworld]
        by_contra hopen
        exact hacc ⟨hnewP.1, hnewP.2, sz, buff, u, w, hread, Bool.eq_false_iff.2 hopen⟩
      by_cases hje : j = ev.id
      · rw [hje]
        exact hclosed
      · exact (hold hon ((hholds j hj).resolve_right hje)).2 hje
  · have hno : ¬AcceptsProxy c ev := fun hacc => hnewP ⟨hacc.1, hacc.2.1⟩
    refine Returns.bind (P := Leaves s1 ev.id) ?_ ?_
    · split
      · rename_i hp
        rw [if_neg fun hnew => hnewP ⟨hp, hnew⟩]
        exact frame_leaves hm
      · split
        · exact newProcess_leaves rfl hm
        · exact message_leaves hm
    · rintro ⟨h', s2⟩ ⟨hf, hm2⟩
      refine (lift_returns _).bind fun w3 hw3 => .ok ?_
      obtain ⟨hon3, hdestroy⟩ := user_destroy hw3
      have hself : Settled w3 ev.id := by
        rcases hm2.2 with hs | ⟨hreal, hread⟩
        · exact hon3.settled hm2.1 hs
        · exact hdestroy ev.id hm2.1 hreal hread
      have hall {j : Nat} (hj : s2.Holds j) : j < w3.1.allocated ∧ Settled w3 j := by
        rcases hf.holds j hj with hj | ⟨hlt, hs⟩
        · have h1 := hold (hf.onward.trans hon3) hj
          refine ⟨h1.1, ?_⟩
          by_cases hje : j = ev.id
          · exact hje ▸ hself
          · exact h1.2 hje
        · exact ⟨Nat.lt_of_lt_of_le hlt hon3.allocated, hon3.settled hlt hs⟩
      exact ⟨fun j hj => (hall hj).1, iff_of_true (fun j hj => (hall hj).2) hno⟩

/-! ### Runs -/

private theorem connectProxy_follows (name addr : Bytes) (s : Proxy (Handed T)) :
    Returns s.Follows (s.connectProxy c.env name addr) := by
  unfold connectProxy
  refine (lift_returns _).bind ?_
  rintro ⟨u, w⟩ hconn
  obtain ⟨hon, hlt⟩ := connect_new hconn
  dsimp only
  split
  · exact .ok (follows_of hon rfl rfl rfl)
  · rename_i id hid
    refine (lift_returns _).bind ?_
    rintro ⟨r, u1, w1⟩ hsend
    have hon1 : Onward w w1 := HandleUser.send_keeps (fun j => handed_keeps c.transport w j) (.refl _) hsend
    refine (lift_returns _).bind ?_
    rintro ⟨u2, w2⟩ hyield
    obtain ⟨hon2, hreal, hset⟩ := user_yield hyield
    have hu1 := (HandleUser.send_user hsend).trans hid
    refine .ok ⟨(hon.trans hon1).trans hon2, fun j hj => ?_⟩
    rcases toHeap_holds (hreal.trans hu1) w2 name j hj with hj | rfl
    · exact .inl hj
    · exact .inr ⟨Nat.lt_of_lt_of_le (hlt j hid).2 (hon1.trans hon2).allocated, hset j hu1⟩

private theorem start_follows (pools : List (Bytes × List Bytes)) (s : Proxy (Handed T)) :
    Returns s.Follows (start c.env pools s) :=
  start_returns Follows.refl Follows.trans connectProxy_follows pools s

/-- An iteration of the main loop, behind what the `Manager` does. -/
def Iterates (c : ProxySetting T) (ev : ProxyEvent (Handed T)) (s s' : Proxy (Handed T)) : Prop :=
  Between ev.id s.world ev.world ∧ s.iteration c.env ev = .ok s'

/-- The proxy has been started. -/
def Starts (c : ProxySetting T) (pools : List (Bytes × List Bytes)) (s : Proxy (Handed T)) : Prop :=
  ∃ w, start c.env pools { world := w } = .ok s

/-- In every run in which the proxy accepts no connection of another proxy, it has handed back every open
connection that it holds, at the end of each iteration; and the first connection of another proxy that it
accepts is not handed back. -/
theorem proxy_listens {pools : List (Bytes × List Bytes)}
    (h : Runs.Reach (Starts c pools) (fun ev s s' => ¬AcceptsProxy c ev ∧ Iterates c ev s s') s) :
    s.Listening ∧ ∀ ev s', Iterates c ev s s' → (s'.Listening ↔ ¬AcceptsProxy c ev) := by
  have hinv : s.Bounded ∧ s.Listening := by
    refine h.invariant (fun s => s.Bounded ∧ s.Listening) ?_ ?_
    · rintro s ⟨w, hs⟩
      have hf := start_follows pools _ s hs
      have hnone {id : Nat} : ¬({ world := w } : Proxy (Handed T)).Holds id := by
        rintro (⟨name, p, u, hp, -⟩ | ⟨k, u, hk, -⟩)
        · cases hp
        · cases hk
      exact ⟨fun id hid => ((hf.holds id hid).resolve_left hnone).1, fun id hid =>
        ((hf.holds id hid).resolve_left hnone).2⟩
    · rintro ev s s' ⟨hb, hl⟩ ⟨hacc, hbet, hit⟩
      obtain ⟨hb', hl'⟩ := iteration_listens hb hl hbet s' hit
      exact ⟨hb', hl'.2 hacc⟩
  exact ⟨hinv.2, fun ev s' ⟨hbet, hit⟩ => (iteration_listens hinv.1 hinv.2 hbet s' hit).2⟩

/-! ### A connection of another proxy -/

section

/-- One queue of messages for all handles. -/
def queued : Transport (List Bytes) where
  probe _ _ _ t := match t with
    | [] => .error .blocked
    | m :: _ => .ok (.ok sizeofSizeT, m.length, t)
  receive _ n t := .ok (.ok n, t.headD [], t.tail)
  send _ bs t := .ok (.ok bs.length, t)
  sendEOS _ t := .ok t
  notifyClose _ _ _ t := .ok t
  notifyYield _ t := .ok t

/-- The proxy of a pool with a component `c` in it; handle `0` is that of another proxy. -/
private def setting : ProxySetting (List Bytes) where
  pool := literal ['B']
  components name := if name = literal ['c'] then some ⟨[], [], []⟩ else none
  hash _ := 5
  instanceName id := if id = 0 then literal ['P'] else literal ['T']
  address id := id
  transport := queued
  dial _ t := .ok (true, t)

private def idle : Proxy (Handed (List Bytes)) := { world := ({ transport := [] }, fun _ => false) }

/-- A new handle with a message. -/
private def newEvent (id : Nat) (m : Bytes) : ProxyEvent (Handed (List Bytes)) where
  id := id
  isNew := true
  world := ({ transport := [m], allocated := id + 1 }, fun _ => false)

private theorem between (id : Nat) (m : Bytes) : Between id idle.world (newEvent id m).world :=
  ⟨Nat.zero_le _, fun _ h => absurd h (Nat.not_lt_zero _), Nat.lt_succ_self _, rfl⟩

/-- A process connects and is kept. -/
theorem proxy_listens_run : ∃ s, Runs.Reach (Starts setting [])
    (fun ev s s' => ¬AcceptsProxy setting ev ∧ Iterates setting ev s s') s ∧ s.Holds 1 ∧ s.Listening := by
  cases hs : idle.iteration setting.env (newEvent 1 (literal [':', 'c'])) with
  | error e => cases hs
  | ok s =>
    have h1 : Runs.Reach (Starts setting []) (fun ev s s' => ¬AcceptsProxy setting ev ∧ Iterates setting ev s s') s :=
      .next (newEvent 1 (literal [':', 'c'])) (.start ⟨_, rfl⟩) ⟨fun h => absurd h.1 (by decide), between 1 _, hs⟩
    refine ⟨s, h1, ?_, (proxy_listens h1).1⟩
    cases hs
    exact .inr ⟨1, _, rfl, rfl⟩

/-- The proxy of pool `A` connects and announces itself. -/
theorem proxy_deaf : ∃ s, Runs.Reach (Starts setting []) (Iterates setting) s ∧ s.Holds 0 ∧ ¬s.Listening := by
  let ev := newEvent 0 (ProxyFrame.toBytes ⟨Cmd.PRX.toByte, 0, literal ['A']⟩)
  cases hs : idle.iteration setting.env ev with
  | error e => cases hs
  | ok s =>
    have hheld : s.Holds 0 := by
      cases hs
      exact .inl ⟨literal ['A'], 0, _, rfl, rfl, rfl⟩
    refine ⟨s, .next ev (.start ⟨_, rfl⟩) ⟨between 0 _, hs⟩, hheld, fun hl => ?_⟩
    have h0 := hl 0 hheld
    cases hs
    rcases h0 with h0 | h0
    · cases h0
    · cases h0

end

end Proxy

end Mtcl
