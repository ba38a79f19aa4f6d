import Mtcl.Proxy.Peers

/-!
# The proxies find each other

Every proxy connects to the proxies of the pools whose names come behind its own, tells them its pool, and then
accepts the connections of the others.  A `Mesh` is all of them at once: in each step one of them makes an
attempt to connect, or accepts a connection, or does anything else in its main loop, and the connections are
written down.

`proxies_meet` says that in every run the handle that a proxy keeps for a pool is its end of a connection with
the proxy of this pool, and when the mesh is complete.
-/

namespace Mtcl

open Proxy Safety

variable {W : Type}

/-- The pools, what the proxies of the pools run with, and where they listen. -/
structure MeshSetting (W : Type) where
  pools : List (Bytes × List Bytes)
  components : Components
  hash : Bytes → Nat
  vt : Bytes → Nat → CommunicationHandle W
  instanceName : Bytes → Nat → Bytes
  address : Bytes → Nat → Nat
  dial : Bytes → Bytes → W → Except Stop (HandleUser Nat × W)
  listener : Bytes → Option Bytes

namespace MeshSetting

/-- The proxy of a pool, of which everything is written down that it sends. -/
def env (c : MeshSetting W) (pool : Bytes) : ProxyEnv (W × List (Sent Nat)) where
  pool := pool
  components := c.components
  hash := c.hash
  vt := record (c.vt pool)
  instanceName := c.instanceName pool
  address := c.address pool
  connect s w := do
    let (u, w') ← c.dial pool s w.1
    return (u, (w', w.2))

/-- The names of the pools. -/
def names (c : MeshSetting W) : List Bytes := c.pools.map Prod.fst

/-- The addresses of a pool are those of its proxy, and a new connection is open. -/
structure Right (c : MeshSetting W) : Prop where
  names : c.names.Nodup
  text : ∀ a ∈ c.names, 0 ∉ a
  listens : ∀ x ∈ c.pools, ∀ addr ∈ x.2, c.listener (proxyAddress addr) = some x.1
  opens : ∀ pool s w u w' j, c.dial pool s w = .ok (u, w') → u.realHandle = some j →
    ∃ b, (c.vt pool j).base w' = .ok b ∧ b.closedWr = false

end MeshSetting

/-- A connection between two proxies: the handle of the one that has made it, how much it had sent before, and
the handle of the one that has accepted it. -/
structure ProxyLink where
  caller : Bytes
  handle : Nat
  since : Nat
  callee : Bytes
  accepted : Option Nat := none
  deriving DecidableEq

namespace ProxyLink

/-- The connection has this end at the proxy of a pool. -/
def Uses (l : ProxyLink) (a : Bytes) (j : Nat) : Prop := l.caller = a ∧ l.handle = j ∨ l.callee = a ∧
    l.accepted = some j

/-- The connection has this end at the proxy of the pool `a`, and the other at that of `b`. -/
def Ends (l : ProxyLink) (a b : Bytes) (j : Nat) : Prop :=
  l.caller = a ∧ l.callee = b ∧ l.handle = j ∨ l.callee = a ∧ l.caller = b ∧ l.accepted = some j

/-- The connection has been made by one proxy to another. -/
abbrev Joins (a b : Bytes) (l : ProxyLink) : Prop := l.caller = a ∧ l.callee = b

theorem Ends.uses {l : ProxyLink} {a b : Bytes} {j : Nat} (h : l.Ends a b j) : l.Uses a j := by
  rcases h with ⟨h1, -, h3⟩ | ⟨h1, -, h3⟩
  · exact .inl ⟨h1, h3⟩
  · exact .inr ⟨h1, h3⟩

end ProxyLink

/-- The proxies, the attempts that they have still to make and those that have failed, and the connections. -/
structure Mesh (W : Type) where
  proxy : Bytes → Proxy (W × List (Sent Nat))
  todo : Bytes → List (Bytes × Bytes)
  failed : List (Bytes × Bytes) := []
  links : List ProxyLink := []

namespace Mesh

/-- What the proxies do. -/
inductive Op
  | dial (a : Bytes)
  | greet (k : Nat)
  | serve (b : Bytes)

/-- `getNext` returns a connection that has not been accepted before: a new handle, on which comes first what
has been sent first.  A link that is lost stays lost. -/
structure Accepts (c : MeshSetting W) (t : Mesh W) (l : ProxyLink) (ev : ProxyEvent (W × List (Sent Nat))) (m : Bytes)
    (h : HandleUser Nat) (w : W × List (Sent Nat)) : Prop where
  pending : l.accepted = none
  running : t.todo l.callee = []
  name : c.instanceName l.callee ev.id = literal ['P']
  new : ev.isNew = true
  log : ev.world.2 = (t.proxy l.callee).world.2
  fresh : ∀ l' ∈ t.links, ¬l'.Uses l.callee ev.id
  staysLost : StaysLost l.handle (t.proxy l.caller).world.2
  first : (sentTo l.handle ((t.proxy l.caller).world.2.drop l.since)).head? = some m
  takes : (c.env l.callee).Takes ev ⟨some ev.id, true, ev.isNew⟩ ev.world (.message m) h w

/-- A step of one of the proxies. -/
def Step (c : MeshSetting W) : Op → Mesh W → Mesh W → Prop
  | .dial a, t, t' => a ∈ c.names ∧ ∃ name addr rest s u w, t.todo a = (name, addr) :: rest ∧
      (t.proxy a).connectProxy (c.env a) name addr = .ok s ∧
      (c.env a).connect (proxyAddress addr) (t.proxy a).world = .ok (u, w) ∧
      match u.realHandle with
      | none => t' = { t with
          proxy := Function.update t.proxy a s
          todo := Function.update t.todo a rest
          failed := t.failed ++ [(a, name)] }
      | some j => (∀ l ∈ t.links, ¬l.Uses a j) ∧ ∃ b, c.listener (proxyAddress addr) = some b ∧ t' = { t with
          proxy := Function.update t.proxy a s
          todo := Function.update t.todo a rest
          links := t.links ++ [⟨a, j, (t.proxy a).world.2.length, b, none⟩] }
  | .greet k, t, t' => ∃ l ev m h w s, t.links[k]? = some l ∧ Accepts c t l ev m h w ∧
      (t.proxy l.callee).iteration (c.env l.callee) ev = .ok s ∧
      t' = { t with
        proxy := Function.update t.proxy l.callee s
        links := t.links.set k { l with accepted := some ev.id } }
  | .serve b, t, t' => ∃ ev s, t.todo b = [] ∧ ¬(c.instanceName b ev.id = literal ['P'] ∧ ev.isNew = true) ∧
      ev.world.2 = (t.proxy b).world.2 ∧ (t.proxy b).iteration (c.env b) ev = .ok s ∧
      t' = { t with proxy := Function.update t.proxy b s }

/-- No proxy has done anything. -/
def Starts (c : MeshSetting W) (t : Mesh W) : Prop :=
  ∃ w : Bytes → W, t = { proxy := fun a => { world := (w a, []) }, todo := fun a => attempts a c.pools }

end Mesh

/-! ### What is written down -/

private theorem env_keeps (c : MeshSetting W) (pool : Bytes) (l : List (Sent Nat)) : (c.env pool).Keeps fun w =>
    l <+: w.2 where
  handles h := record_keeps (c.vt pool) h l
  connect hl he := by
    obtain ⟨_, -, he⟩ := bind_eq_ok.1 he
    cases he
    exact hl

private theorem drop_prefix {log log' : List (Sent Nat)} {n : Nat} {x : Sent Nat} {rest : List (Sent Nat)}
    (h : log.drop n = x :: rest) (hp : log <+: log') : ∃ rest', log'.drop n = x :: rest' := by
  obtain ⟨more, rfl⟩ := hp
  have hn : n ≤ log.length := by
    by_contra hlt
    rw [List.drop_eq_nil_of_le (by omega)] at h
    cases h
  exact ⟨rest ++ more, by rw [List.drop_append_of_le_length hn, h, List.cons_append]⟩

/-- The first message that has come through is the first one that has been sent. -/
private theorem first_sent {log rest : List (Sent Nat)} {n j : Nat} {m m' : Bytes} {r : Ret} (hp : StaysLost j log)
    (h : log.drop n = .message j m r :: rest) (hfirst : (sentTo j (log.drop n)).head? = some m') : m' = m := by
  rw [h, show Sent.message j m r :: rest = [Sent.message j m r] ++ rest from rfl, sentTo_append] at hfirst
  cases r with
  | ok k =>
    rw [sentTo_message] at hfirst
    exact (Option.some.inj hfirst).symm
  | error e =>
    -- a connection that is lost at once stays so
    rw [sentTo_failed, List.nil_append] at hfirst
    have hmem : m' ∈ sentTo j rest := List.mem_of_mem_head? hfirst
    have hd : StaysLost j (.message j m (.error e) :: rest) := h ▸ List.Pairwise.drop hp
    obtain ⟨b, hb, he⟩ := List.mem_filterMap.1 hmem
    have hno := (List.pairwise_cons.1 hd).1 b hb m e
    match b with
    | .message i m2 (.ok k) =>
      dsimp only at he
      split at he
      · rename_i hi
        exact absurd (congrArg (Sent.message · m2 (.ok k)) hi) (hno m2 k rfl)
      · cases he
    | .message i m2 (.error e2) => cases he
    | .eos i => cases he

/-! ### What the steps keep -/

namespace Mesh

variable {c : MeshSetting W} {t t' : Mesh W}

/-- What the attempts of a proxy come to: each has made a connection, has failed, or has still to be made. -/
def Counted (c : MeshSetting W) (t : Mesh W) : Prop :=
  ∀ a ∈ c.names, ∀ b addrs, (b, addrs) ∈ c.pools → a < b →
    t.links.countP (fun l => decide (l.Joins a b)) + t.failed.count (a, b) +
      (t.todo a).countP (fun x => decide (x.1 = b)) = addrs.length

/-- What every proxy knows, and what is on every connection. -/
structure Inv (c : MeshSetting W) (t : Mesh W) : Prop where
  pointed : ∀ a, (t.proxy a).Pointed
  peer : ∀ a b j, (t.proxy a).peer b = some j → ∃ l ∈ t.links, l.Ends a b j
  ordered : ∀ l ∈ t.links, l.caller < l.callee ∧ l.caller ∈ c.names ∧ l.callee ∈ c.names
  announced : ∀ l ∈ t.links, ∃ r rest, (t.proxy l.caller).world.2.drop l.since =
    .message l.handle (ProxyFrame.toBytes ⟨Cmd.PRX.toByte, 0, l.caller⟩) r :: rest
  called : ∀ l ∈ t.links, (t.proxy l.caller).peer l.callee ≠ none
  entered : ∀ l ∈ t.links, l.accepted ≠ none → (t.proxy l.callee).peer l.caller ≠ none
  apart : ∀ {i i' : Nat} {l l' : ProxyLink} {a : Bytes} {j : Nat}, t.links[i]? = some l → t.links[i']? = some l' →
    l.Uses a j → l'.Uses a j → i = i'
  todo : ∀ a, ∀ x ∈ t.todo a, x ∈ attempts a c.pools
  counted : Counted c t

/-- What an iteration leaves: the other proxies are the same, and more has been sent. -/
private theorem Inv.serve (h : t.Inv c) {b : Bytes} {s : Proxy (W × List (Sent Nat))} (hs : (t.proxy b).SamePeers s)
    (hlog : (t.proxy b).world.2 <+: s.world.2) : ({ t with proxy := Function.update t.proxy b s } : Mesh W).Inv c := by
  have hpeer : ∀ a name, (Function.update t.proxy b s a).peer name = (t.proxy a).peer name := by
    intro a name
    by_cases ha : a = b
    · subst ha
      rw [Function.update_self]
      exact hs.peer name
    · rw [Function.update_of_ne ha]
  refine ⟨fun a => ?_, fun a name j hp => ?_, h.ordered, fun l hl => ?_, fun l hl => ?_,
    fun l hl ha => ?_, h.apart, h.todo, h.counted⟩
  · dsimp only
    by_cases ha : a = b
    · subst ha
      rw [Function.update_self]
      exact hs.pointed (h.pointed a)
    · rw [Function.update_of_ne ha]
      exact h.pointed a
  · exact h.peer a name j ((hpeer a name).symm.trans hp)
  · obtain ⟨r, rest, hr⟩ := h.announced l hl
    dsimp only
    by_cases ha : l.caller = b
    · rw [ha, Function.update_self]
      rw [ha] at hr
      obtain ⟨rest', hr'⟩ := drop_prefix hr hlog
      exact ⟨r, rest', hr'⟩
    · rw [Function.update_of_ne ha]
      exact ⟨r, rest, hr⟩
  · dsimp only
    rw [hpeer]
    exact h.called l hl
  · dsimp only
    rw [hpeer]
    exact h.entered l hl ha

/-- An attempt that was to be made counts as what it has come to. -/
private theorem countP_todo {a name addr : Bytes} {rest : List (Bytes × Bytes)}
    (htodo : t.todo a = (name, addr) :: rest) (a' b : Bytes) : (t.todo a').countP (fun x => decide (x.1 = b)) =
      (Function.update t.todo a rest a').countP (fun x => decide (x.1 = b)) + if a = a' ∧ name = b then 1 else 0 := by
  by_cases ha : a' = a
  · subst ha
    rw [Function.update_self, htodo, List.countP_cons]
    simp
  · rw [Function.update_of_ne ha, if_neg fun h => ha h.1.symm]
    rfl

private theorem todo_rest {a name addr : Bytes} {rest : List (Bytes × Bytes)} (htodo : t.todo a = (name, addr) :: rest)
    {a' : Bytes} {x : Bytes × Bytes} (hx : x ∈ Function.update t.todo a rest a') : x ∈ t.todo a' := by
  by_cases ha : a' = a
  · subst ha
    rw [Function.update_self] at hx
    rw [htodo]
    exact List.mem_cons_of_mem _ hx
  · rwa [Function.update_of_ne ha] at hx

private theorem Inv.dialFailed (h : t.Inv c) {a name addr : Bytes} {rest : List (Bytes × Bytes)}
    (htodo : t.todo a = (name, addr) :: rest) {s : Proxy (W × List (Sent Nat))} (hs : (t.proxy a).SamePeers s)
    (hlog : (t.proxy a).world.2 <+: s.world.2) :
    ({ t with
        proxy := Function.update t.proxy a s
        todo := Function.update t.todo a rest
        failed := t.failed ++ [(a, name)] } : Mesh W).Inv c :=
  { h.serve hs hlog with
    todo := fun a' x hx => h.todo a' x (todo_rest htodo hx)
    counted := by
      intro a' ha' b addrs hb hlt
      rw [← h.counted a' ha' b addrs hb hlt, countP_todo htodo a' b, List.count_append, List.count_singleton]
      simp only [beq_iff_eq, Prod.mk.injEq]
      omega }

/-- The proxy of the pool `a` has put the handle `j` on the heap, as that of the pool `name`. -/
private structure Entered (s s' : Proxy (W × List (Sent Nat))) (name : Bytes) (j : Nat) : Prop where
  pointed : s'.Pointed
  peer : ∀ b, s'.peer b = if b = name then some j else s.peer b
  log : s.world.2 <+: s'.world.2

private theorem entered_toHeap {s : Proxy (W × List (Sent Nat))} (hs : s.Pointed) {v : HandleUser Nat} {j : Nat}
    (hv : v.realHandle = some j) {w : W × List (Sent Nat)} (hw : s.world.2 <+: w.2) (name : Bytes) :
    Entered s { s with
      world := w
      heap := s.heap ++ [v]
      proxies := Function.update s.proxies name (some (some s.heap.length)) } name j :=
  ⟨pointed_toHeap hs v w name, fun b => by rw [peer_toHeap hs, hv], hw⟩

section

variable {a name : Bytes} {j : Nat} {s : Proxy (W × List (Sent Nat))}

/-- What a proxy knows is what it knew, and the new handle. -/
private theorem Entered.known (he : Entered (t.proxy a) s name j) {a' b : Bytes} {k : Nat}
    (hp : (Function.update t.proxy a s a').peer b = some k) : (t.proxy a').peer b = some k ∨ a' = a ∧
      b = name ∧ k = j := by
  by_cases ha : a' = a
  · subst ha
    rw [Function.update_self, he.peer] at hp
    split at hp
    · cases hp
      exact .inr ⟨rfl, ‹_›, rfl⟩
    · exact .inl hp
  · rw [Function.update_of_ne ha] at hp
    exact .inl hp

private theorem Entered.knows (he : Entered (t.proxy a) s name j) {a' b : Bytes} (hp : (t.proxy a').peer b ≠ none) :
    (Function.update t.proxy a s a').peer b ≠ none := by
  by_cases ha : a' = a
  · subst ha
    rw [Function.update_self, he.peer]
    split
    · nofun
    · exact hp
  · rwa [Function.update_of_ne ha]

private theorem Entered.self (he : Entered (t.proxy a) s name j) :
    (Function.update t.proxy a s a).peer name ≠ none := by
  rw [Function.update_self, he.peer, if_pos rfl]
  nofun

private theorem Entered.allPointed (he : Entered (t.proxy a) s name j) (h : t.Inv c) (a' : Bytes) :
    (Function.update t.proxy a s a').Pointed := by
  by_cases ha : a' = a
  · rw [ha, Function.update_self]
    exact he.pointed
  · rw [Function.update_of_ne ha]
    exact h.pointed a'

private theorem Entered.announced (he : Entered (t.proxy a) s name j) {l : ProxyLink} {x : Sent Nat}
    {rest : List (Sent Nat)} (hr : (t.proxy l.caller).world.2.drop l.since = x :: rest) :
    ∃ rest', (Function.update t.proxy a s l.caller).world.2.drop l.since = x :: rest' := by
  by_cases ha : l.caller = a
  · rw [ha, Function.update_self]
    exact drop_prefix (ha ▸ hr) he.log
  · rw [Function.update_of_ne ha]
    exact ⟨rest, hr⟩

private theorem Inv.dialed (h : t.Inv c) (ha : a ∈ c.names) {addr : Bytes} {rest : List (Bytes × Bytes)}
    (htodo : t.todo a = (name, addr) :: rest) (he : Entered (t.proxy a) s name j) {r : Ret}
    (hlog : s.world.2 = (t.proxy a).world.2 ++ [.message j (ProxyFrame.toBytes ⟨Cmd.PRX.toByte, 0, a⟩) r])
    (hfresh : ∀ l ∈ t.links, ¬l.Uses a j) :
    ({ t with
        proxy := Function.update t.proxy a s
        todo := Function.update t.todo a rest
        links := t.links ++ [⟨a, j, (t.proxy a).world.2.length, name, none⟩] } : Mesh W).Inv c := by
  obtain ⟨hlt, addrs, hpool, -⟩ := mem_attempts.1 (h.todo a _ (htodo ▸ List.mem_cons_self ..))
  have hname : name ∈ c.names := List.mem_map.2 ⟨_, hpool, rfl⟩
  have hmem : ∀ {l}, l ∈ t.links ++ [(⟨a, j, (t.proxy a).world.2.length, name, none⟩ : ProxyLink)] →
      l ∈ t.links ∨ l = ⟨a, j, (t.proxy a).world.2.length, name, none⟩ := by
    intro l hl
    exact (List.mem_append.1 hl).imp_right List.mem_singleton.1
  refine ⟨he.allPointed h, fun a' b k hp => ?_, fun l hl => ?_, fun l hl => ?_, fun l hl => ?_,
    fun l hl hacc => ?_, ?_, ?_, ?_⟩
  · rcases he.known hp with hp | ⟨rfl, rfl, rfl⟩
    · obtain ⟨l, hl, hends⟩ := h.peer a' b k hp
      exact ⟨l, List.mem_append_left _ hl, hends⟩
    · exact ⟨_, List.mem_append_right _ (List.mem_singleton_self _), .inl ⟨rfl, rfl, rfl⟩⟩
  · rcases hmem hl with hl | rfl
    · exact h.ordered l hl
    · exact ⟨hlt, ha, hname⟩
  · rcases hmem hl with hl | rfl
    · obtain ⟨r', rest', hr⟩ := h.announced l hl
      exact ⟨r', he.announced hr⟩
    · refine ⟨r, [], ?_⟩
      dsimp only
      rw [Function.update_self, hlog, List.drop_left]
  · rcases hmem hl with hl | rfl
    · exact he.knows (h.called l hl)
    · exact he.self
  · rcases hmem hl with hl | rfl
    · exact he.knows (h.entered l hl hacc)
    · exact absurd rfl hacc
  · have hget : ∀ {i l}, (t.links ++ [(⟨a, j, (t.proxy a).world.2.length, name, none⟩ : ProxyLink)])[i]? = some l →
        t.links[i]? = some l ∨ i = t.links.length ∧ l = ⟨a, j, (t.proxy a).world.2.length, name, none⟩ := by
      intro i l hi
      rcases Nat.lt_or_ge i t.links.length with hlt | hge
      · rw [List.getElem?_append_left hlt] at hi
        exact .inl hi
      · rw [List.getElem?_append_right hge] at hi
        obtain ⟨hi0, hl⟩ := List.getElem?_eq_some_iff.1 hi
        have hi1 : i - t.links.length = 0 := by simpa using hi0
        refine .inr ⟨by omega, ?_⟩
        rw [← hl]
        simp [hi1]
    have hnew : ∀ {a' k}, (⟨a, j, (t.proxy a).world.2.length, name, none⟩ : ProxyLink).Uses a' k → a' = a ∧ k = j := by
      rintro a' k (⟨rfl, rfl⟩ | ⟨-, hk⟩)
      · exact ⟨rfl, rfl⟩
      · cases hk
    intro i i' l l' a' k hi hi' hu hu'
    rcases hget hi with hl | ⟨rfl, rfl⟩ <;> rcases hget hi' with hl' | ⟨rfl, rfl⟩
    · exact h.apart hl hl' hu hu'
    · obtain ⟨rfl, rfl⟩ := hnew hu'
      exact absurd hu (hfresh l (List.mem_of_getElem? hl))
    · obtain ⟨rfl, rfl⟩ := hnew hu
      exact absurd hu' (hfresh l' (List.mem_of_getElem? hl'))
    · rfl
  · exact fun a' x hx => h.todo a' x (todo_rest htodo hx)
  · intro a' ha' b addrs' hb hlt'
    rw [← h.counted a' ha' b addrs' hb hlt', countP_todo htodo a' b, List.countP_append, List.countP_singleton]
    simp only [ProxyLink.Joins, decide_eq_true_eq]
    omega

private theorem Inv.greeted (h : t.Inv c) {k : Nat} {l : ProxyLink} (hl : t.links[k]? = some l)
    (hpending : l.accepted = none) (hfresh : ∀ l' ∈ t.links, ¬l'.Uses l.callee j)
    (he : Entered (t.proxy l.callee) s l.caller j) : ({ t with
        proxy := Function.update t.proxy l.callee s
        links := t.links.set k { l with accepted := some j } } : Mesh W).Inv c := by
  obtain ⟨hk, hlk⟩ := List.getElem?_eq_some_iff.1 hl
  have hlmem : l ∈ t.links := List.mem_of_getElem? hl
  have hself : ({ l with accepted := some j } : ProxyLink) ∈ t.links.set k { l with accepted := some j } :=
    List.mem_set hk _
  have hmem : ∀ {l'}, l' ∈ t.links.set k { l with accepted := some j } →
      l' ∈ t.links ∨ l' = { l with accepted := some j } := fun hl' => List.mem_or_eq_of_mem_set hl'
  have hget : ∀ {i l'}, (t.links.set k { l with accepted := some j })[i]? = some l' →
      i ≠ k ∧ t.links[i]? = some l' ∨ i = k ∧ l' = { l with accepted := some j } := by
    intro i l' hi
    by_cases hik : k = i
    · subst hik
      rw [List.getElem?_set_self hk] at hi
      exact .inr ⟨rfl, (Option.some.inj hi).symm⟩
    · rw [List.getElem?_set_ne hik] at hi
      exact .inl ⟨Ne.symm hik, hi⟩
  refine ⟨he.allPointed h, fun a' b i hp => ?_, fun l' hl' => ?_, fun l' hl' => ?_, fun l' hl' =>
    ?_, fun l' hl' hacc => ?_, ?_, h.todo, ?_⟩
  · rcases he.known hp with hp | ⟨rfl, rfl, rfl⟩
    · obtain ⟨l', hl', hends⟩ := h.peer a' b i hp
      by_cases heq : l' = l
      · subst heq
        refine ⟨_, hself, .inl (hends.resolve_right ?_)⟩
        rintro ⟨-, -, hacc⟩
        rw [hpending] at hacc
        cases hacc
      · obtain ⟨i', hi'⟩ := List.mem_iff_getElem?.1 hl'
        have hne : k ≠ i' := by
          rintro rfl
          exact heq (Option.some.inj (hi'.symm.trans hl))
        exact ⟨l', List.mem_of_getElem? ((List.getElem?_set_ne hne).trans hi'), hends⟩
    · exact ⟨_, hself, .inr ⟨rfl, rfl, rfl⟩⟩
  · rcases hmem hl' with hl' | rfl
    · exact h.ordered l' hl'
    · exact h.ordered l hlmem
  · have hold : ∀ {l'}, l' ∈ t.links → ∃ r rest, (Function.update t.proxy l.callee s l'.caller).world.2.drop l'.since =
        .message l'.handle (ProxyFrame.toBytes ⟨Cmd.PRX.toByte, 0, l'.caller⟩) r :: rest := by
      intro l' hl'
      obtain ⟨r, rest, hr⟩ := h.announced l' hl'
      exact ⟨r, he.announced hr⟩
    rcases hmem hl' with hl' | rfl
    · exact hold hl'
    · have hsame := hold hlmem
      exact hsame
  · rcases hmem hl' with hl' | rfl
    · exact he.knows (h.called l' hl')
    · exact he.knows (h.called l hlmem)
  · rcases hmem hl' with hl' | rfl
    · exact he.knows (h.entered l' hl' hacc)
    · exact he.self
  · have huses : ∀ {a' i}, ({ l with accepted := some j } : ProxyLink).Uses a' i → l.Uses a' i ∨
      a' = l.callee ∧ i = j := by
      rintro a' i (hu | ⟨rfl, hu⟩)
      · exact .inl (.inl hu)
      · exact .inr ⟨rfl, (Option.some.inj hu).symm⟩
    intro i i' l1 l2 a' n hi hi' hu hu'
    rcases hget hi with ⟨hne, h1⟩ | ⟨rfl, rfl⟩ <;> rcases hget hi' with ⟨hne', h2⟩ | ⟨rfl, rfl⟩
    · exact h.apart h1 h2 hu hu'
    · rcases huses hu' with hu' | ⟨rfl, rfl⟩
      · exact h.apart h1 hl hu hu'
      · exact absurd hu (hfresh l1 (List.mem_of_getElem? h1))
    · rcases huses hu with hu | ⟨rfl, rfl⟩
      · exact h.apart hl h2 hu hu'
      · exact absurd hu' (hfresh l2 (List.mem_of_getElem? h2))
    · rfl
  · intro a' ha' b addrs hb hlt
    rw [← h.counted a' ha' b addrs hb hlt]
    dsimp only
    rw [List.countP_set hk, hlk]
    have hle : (if decide (l.Joins a' b) = true then 1 else 0) ≤ t.links.countP fun l => decide (l.Joins a' b) := by
      split
      · exact List.countP_pos_iff.2 ⟨l, hlmem, ‹_›⟩
      · exact Nat.zero_le _
    have hsame : decide (({ l with accepted := some j } : ProxyLink).Joins a' b) = decide (l.Joins a' b) := rfl
    rw [hsame, Nat.sub_add_cancel hle]

end

/-! ### Runs -/

private theorem inv_starts (hr : c.Right) (h : Starts c t) : t.Inv c := by
  obtain ⟨w, rfl⟩ := h
  refine ⟨fun a name p hp => ?_, fun a b j hp => ?_, nofun, nofun, nofun, nofun, nofun, fun a x hx => hx,
    fun a ha b addrs hb hlt => ?_⟩
  · cases hp
  · cases hp
  · dsimp only
    rw [countP_attempts hlt hr.names hb]
    exact Nat.zero_add _

private theorem inv_step (hr : c.Right) (h : t.Inv c) {o : Op} (hs : Step c o t t') : t'.Inv c := by
  cases o with
  | dial a =>
    obtain ⟨ha, name, addr, rest, s, u, w, htodo, hconn, hdial, hout⟩ := hs
    have hvt : (c.env a).vt = record (c.vt a) := rfl
    obtain ⟨u', w', hdial', hdone⟩ := connectProxy_announces hvt name addr (t.proxy a) s hconn
    cases hdial.symm.trans hdial'
    obtain ⟨⟨u1, v⟩, hd, hdial⟩ := bind_eq_ok.1 hdial
    cases hdial
    cases hu : u.realHandle with
    | none =>
      rw [hu] at hout hdone
      dsimp only at hout hdone
      subst hout
      refine h.dialFailed htodo ?_ ?_
      · rw [hdone]
        exact ⟨rfl, rfl, fun _ => rfl⟩
      · rw [hdone]
    | some j =>
      rw [hu] at hout hdone
      obtain ⟨hfresh, b, hb, rfl⟩ := hout
      obtain ⟨r, u2, w2, hlog, hu2, rfl⟩ := hdone (hr.opens a _ _ u v j hd hu)
      obtain ⟨-, addrs, hpool, haddr⟩ := mem_attempts.1 (h.todo a _ (htodo ▸ List.mem_cons_self ..))
      obtain rfl : name = b := Option.some.inj ((hr.listens _ hpool addr haddr).symm.trans hb)
      exact h.dialed ha htodo (entered_toHeap (h.pointed a) hu2 (hlog ▸ List.prefix_append ..) name) hlog hfresh
  | greet k =>
    obtain ⟨l, ev, m, u, w, s, hl, hacc, hit, rfl⟩ := hs
    have hlmem := List.mem_of_getElem? hl
    obtain ⟨r, rest, hfirst⟩ := h.announced l hlmem
    obtain rfl := first_sent hacc.staysLost hfirst hacc.first
    obtain ⟨hit', hw, hu⟩ := iteration_greets (s := t.proxy l.callee) (env_keeps c l.callee ev.world.2)
      (List.prefix_refl _) hacc.name hacc.new (hr.text _ (h.ordered l hlmem).2.1) hacc.takes
    cases hit.symm.trans hit'
    exact h.greeted hl hacc.pending hacc.fresh (entered_toHeap (h.pointed _) hu (hacc.log ▸ hw) l.caller)
  | serve b =>
    obtain ⟨ev, s, -, hother, hlog, hit, rfl⟩ := hs
    have hstays := iteration_stays (env_keeps c b ev.world.2) (List.prefix_refl _) hother s hit
    exact h.serve hstays.peers (hlog ▸ hstays.world)

/-- While a proxy has attempts to make, those that it has made are the first of its start. -/
private def Tried (c : MeshSetting W) (a : Bytes) (t : Mesh W) : Prop :=
  ∃ tried w, attempts a c.pools = tried ++ t.todo a ∧ (t.todo a ≠ [] →
    tried.foldlM (fun s x => s.connectProxy (c.env a) x.1 x.2) ({ world := (w, []) } : Proxy (W × List (Sent Nat))) =
      .ok (t.proxy a))

private theorem tried_starts (a : Bytes) (t : Mesh W) (h : Starts c t) : Tried c a t := by
  obtain ⟨w, rfl⟩ := h
  exact ⟨[], w a, rfl, fun _ => rfl⟩

/-- A step in which a proxy makes an attempt. -/
private theorem dial_cases {a : Bytes} (hs : Step c (.dial a) t t') :
    ∃ name addr rest s, t.todo a = (name, addr) :: rest ∧ (t.proxy a).connectProxy (c.env a) name addr = .ok s ∧
      t'.todo = Function.update t.todo a rest ∧ t'.proxy = Function.update t.proxy a s := by
  obtain ⟨-, name, addr, rest, s, u, w, htodo, hconn, -, hout⟩ := hs
  refine ⟨name, addr, rest, s, htodo, hconn, ?_⟩
  cases hu : u.realHandle with
  | none =>
    rw [hu] at hout
    rw [hout]
    exact ⟨rfl, rfl⟩
  | some j =>
    rw [hu] at hout
    obtain ⟨-, _, -, rfl⟩ := hout
    exact ⟨rfl, rfl⟩

private theorem Tried.dialed {a : Bytes} (h : Tried c a t) (hs : Step c (.dial a) t t') :
    ∃ tried w, attempts a c.pools = tried ++ t'.todo a ∧
      tried.foldlM (fun s x => s.connectProxy (c.env a) x.1 x.2) ({ world := (w, []) } : Proxy (W × List (Sent Nat))) =
        .ok (t'.proxy a) := by
  obtain ⟨name, addr, rest, s, htodo, hconn, htodo', hproxy'⟩ := dial_cases hs
  obtain ⟨tried, w, htried, hfold⟩ := h
  rw [htodo] at htried hfold
  rw [htodo', hproxy', Function.update_self, Function.update_self]
  refine ⟨tried ++ [(name, addr)], w, by rw [htried, List.append_assoc, List.singleton_append], ?_⟩
  rw [List.foldlM_append, hfold (List.cons_ne_nil _ _)]
  change (t.proxy a).connectProxy (c.env a) name addr >>= _ = _
  rw [hconn]
  rfl

private theorem tried_step {a : Bytes} (h : Tried c a t) {o : Op} (hs : Step c o t t') : Tried c a t' := by
  have hsame : t'.todo a = t.todo a → (t.todo a ≠ [] → t'.proxy a = t.proxy a) → Tried c a t' := by
    intro htodo hproxy
    obtain ⟨tried, w, htried, hfold⟩ := h
    refine ⟨tried, w, htodo ▸ htried, fun hne => ?_⟩
    rw [htodo] at hne
    rw [hproxy hne]
    exact hfold hne
  -- a proxy that does anything else has no attempts to make
  have hother : ∀ {b : Bytes} {s : Proxy (W × List (Sent Nat))}, t.todo b = [] → t.todo a ≠ [] →
      Function.update t.proxy b s a = t.proxy a := by
    intro b s hb hne
    refine Function.update_of_ne ?_ ..
    rintro rfl
    exact hne hb
  cases o with
  | dial b =>
    by_cases hab : a = b
    · subst hab
      obtain ⟨tried, w, htried, hfold⟩ := h.dialed hs
      exact ⟨tried, w, htried, fun _ => hfold⟩
    · obtain ⟨name, addr, rest, s, -, -, htodo, hproxy⟩ := dial_cases hs
      refine hsame ?_ fun _ => ?_
      · rw [htodo, Function.update_of_ne hab]
      · rw [hproxy, Function.update_of_ne hab]
  | greet k =>
    obtain ⟨l, ev, m, u, w, s, -, hacc, -, rfl⟩ := hs
    exact hsame rfl (hother hacc.running)
  | serve b =>
    obtain ⟨ev, s, hb, -, -, -, rfl⟩ := hs
    exact hsame rfl (hother hb)

private theorem unique_of_countP {α : Type} {p : α → Bool} {l : List α} (h : l.countP p ≤ 1) {x y : α} (hx : x ∈ l)
    (hpx : p x = true) (hy : y ∈ l) (hpy : p y = true) : x = y := by
  rw [List.countP_eq_length_filter] at h
  have hx' : x ∈ l.filter p := List.mem_filter.2 ⟨hx, hpx⟩
  have hy' : y ∈ l.filter p := List.mem_filter.2 ⟨hy, hpy⟩
  obtain ⟨z, hz⟩ := List.length_eq_one_iff.1 (Nat.le_antisymm h (List.length_pos_of_mem hx'))
  rw [hz] at hx' hy'
  rw [List.mem_singleton.1 hx', List.mem_singleton.1 hy']

/-- In every run the handle that a proxy keeps for a pool is its end of a connection with the proxy of this
pool, and of no other connection.  There are connections only from a pool to those behind it, one for each
address that could be connected to; when all have been accepted and no attempt has failed, every proxy has a
handle for every other pool; and when a pool has one address, the handles of the two proxies are the two ends of
the same connection.  A proxy never stops at a connection that it accepts, and its attempts are those of its
start. -/
theorem proxies_meet (hr : c.Right) (h : Runs.Reach (Starts c) (Step c) t) :
    (∀ a b j, (t.proxy a).peer b = some j → (∃ l ∈ t.links, l.Ends a b j) ∧ ∀ l ∈ t.links, l.Uses a j → l.Ends a b j) ∧
    (Counted c t ∧ ∀ l ∈ t.links, l.caller < l.callee) ∧
    ((∀ a ∈ c.names, t.todo a = []) → t.failed = [] → (∀ l ∈ t.links, l.accepted ≠ none) → (∀ x ∈ c.pools, x.2 ≠ []) →
      ∀ a ∈ c.names, ∀ b ∈ c.names, a ≠ b → (t.proxy a).peer b ≠ none) ∧
    (∀ a b addr j k, a ∈ c.names → (b, [addr]) ∈ c.pools → a < b → (t.proxy a).peer b = some j →
      (t.proxy b).peer a = some k → ∃ l ∈ t.links, l.Joins a b ∧ l.handle = j ∧ l.accepted = some k) ∧
    (∀ k l ev m u w, t.links[k]? = some l → Accepts c t l ev m u w → ∃ t', Step c (.greet k) t t') ∧
    ∀ a t', Step c (.dial a) t t' → t'.todo a = [] → ∃ w, start (c.env a) c.pools
      { world := (w, []) } = .ok (t'.proxy a) := by
  have hinv : t.Inv c := h.invariant (Inv c) (fun t => inv_starts hr) fun o t t' ht hs => inv_step hr ht hs
  have hpeer : ∀ a b j, (t.proxy a).peer b = some j →
      (∃ l ∈ t.links, l.Ends a b j) ∧ ∀ l ∈ t.links, l.Uses a j → l.Ends a b j := by
    intro a b j hp
    obtain ⟨l, hl, hends⟩ := hinv.peer a b j hp
    refine ⟨⟨l, hl, hends⟩, fun l' hl' hu => ?_⟩
    obtain ⟨i, hi⟩ := List.mem_iff_getElem?.1 hl
    obtain ⟨i', hi'⟩ := List.mem_iff_getElem?.1 hl'
    obtain rfl := hinv.apart hi hi' hends.uses hu
    rw [hi] at hi'
    exact Option.some.inj hi' ▸ hends
  refine ⟨hpeer, ⟨hinv.counted, fun l hl => (hinv.ordered l hl).1⟩, ?_, ?_, ?_, ?_⟩
  · intro htodo hfailed hacc haddrs
    -- of two pools the one in front has made a connection, and the other has accepted it
    have hlink : ∀ a ∈ c.names, ∀ b ∈ c.names, a < b → ∃ l ∈ t.links, l.Joins a b := by
      intro a ha b hb hlt
      obtain ⟨⟨b', addrs⟩, hpool, rfl⟩ := List.mem_map.1 hb
      have hcount := hinv.counted a ha b' addrs hpool hlt
      rw [htodo a ha, hfailed] at hcount
      have hpos : 0 < t.links.countP fun l => decide (l.Joins a b') := by
        have haddr : 0 < addrs.length := List.length_pos_iff.2 (haddrs _ hpool)
        rw [List.count_nil, List.countP_nil] at hcount
        omega
      obtain ⟨l, hl, hjoins⟩ := List.countP_pos_iff.1 hpos
      exact ⟨l, hl, of_decide_eq_true hjoins⟩
    intro a ha b hb hne
    by_cases hlt : a < b
    · obtain ⟨l, hl, rfl, rfl⟩ := hlink a ha b hb hlt
      exact hinv.called l hl
    · have hgt : b < a := by
        by_contra hn
        exact hne (List.le_antisymm (List.not_lt.1 hn) (List.not_lt.1 hlt))
      obtain ⟨l, hl, rfl, rfl⟩ := hlink b hb a ha hgt
      exact hinv.entered l hl (hacc l hl)
  · intro a b addr j k ha hpool hlt hj hk
    obtain ⟨l, hl, hends⟩ := hinv.peer a b j hj
    obtain ⟨l', hl', hends'⟩ := hinv.peer b a k hk
    have hno : ∀ l ∈ t.links, ¬l.Joins b a := by
      rintro l hl ⟨rfl, rfl⟩
      exact List.lt_asymm hlt (hinv.ordered l hl).1
    obtain ⟨h1, h2, h3⟩ := hends.resolve_right fun h => hno l hl ⟨h.2.1, h.1⟩
    obtain ⟨h4, h5, h6⟩ := hends'.resolve_left fun h => hno l' hl' ⟨h.1, h.2.1⟩
    -- there is only one connection between the two
    have hcount := hinv.counted a ha b [addr] hpool hlt
    have hone : t.links.countP (fun l => decide (l.Joins a b)) ≤ 1 := by
      rw [List.length_singleton] at hcount
      omega
    obtain rfl : l = l' := unique_of_countP hone hl (decide_eq_true ⟨h1, h2⟩) hl' (decide_eq_true ⟨h5, h4⟩)
    exact ⟨l, hl, ⟨h1, h2⟩, h3, h6⟩
  · intro k l ev m u w hl hacc
    have hlmem := List.mem_of_getElem? hl
    obtain ⟨r, rest, hfirst⟩ := hinv.announced l hlmem
    obtain rfl := first_sent hacc.staysLost hfirst hacc.first
    obtain ⟨hit, -⟩ := iteration_greets (s := t.proxy l.callee) (env_keeps c l.callee ev.world.2) (List.prefix_refl _)
      hacc.name hacc.new (hr.text _ (hinv.ordered l hlmem).2.1) hacc.takes
    exact ⟨_, l, ev, _, u, w, _, hl, hacc, hit, rfl⟩
  · intro a t' hs hdone
    have htried : Tried c a t := h.invariant (Tried c a) (tried_starts a) fun o t t' ht hs => tried_step ht hs
    obtain ⟨tried, w0, hall, hfold⟩ := htried.dialed hs
    rw [hdone, List.append_nil] at hall
    refine ⟨w0, ?_⟩
    rw [start_eq, show attempts (c.env a).pool c.pools = tried from hall]
    exact hfold

section

/-- One queue of messages for all handles. -/
private structure Letters where
  probed : Bool × Nat := (false, 0)
  inbox : List Bytes := []

private def letters : CommunicationHandle Letters where
  base w := .ok { probed := w.probed }
  setProbed pr w := { w with probed := pr }
  probe _ _ w := match w.inbox with
    | [] => .error .blocked
    | m :: _ => .ok (.ok sizeofSizeT, m.length, w)
  receive n w := .ok (.ok n, w.inbox.headD [], { w with inbox := w.inbox.tail })
  send bs w := .ok (.ok bs.length, w)
  close _ _ w := .ok w
  yield w := .ok w
  incrementReferenceCounter w := .ok w
  decrementReferenceCounter w := .ok w

/-- Two pools with one address each. -/
private def twoPools : MeshSetting Letters where
  pools := [(literal ['A'], [literal ['a']]), (literal ['B'], [literal ['b']])]
  components _ := none
  hash _ := 0
  vt _ _ := letters
  instanceName _ _ := literal ['P']
  address _ j := j
  dial _ _ w := .ok (⟨some 0, true, true⟩, w)
  listener s :=
    if s = proxyAddress (literal ['a']) then some (literal ['A'])
    else if s = proxyAddress (literal ['b']) then some (literal ['B'])
    else none

private theorem twoPools_right : twoPools.Right where
  names := by decide
  text := by decide
  listens := by decide
  opens _ _ _ _ _ _ _ _ := ⟨_, rfl, rfl⟩

private def asleep : Mesh Letters where
  proxy _ := { world := ({}, []) }
  todo a := attempts a twoPools.pools

/-- The proxy of the first pool has announced itself. -/
private def announcement : Bytes := ProxyFrame.toBytes ⟨Cmd.PRX.toByte, 0, literal ['A']⟩

/-- The connection before it is accepted. -/
private def first : ProxyLink := ⟨literal ['A'], 0, 0, literal ['B'], none⟩

private theorem first_dialed : ∃ t, Step twoPools (.dial (literal ['A'])) asleep t ∧
    (∀ a ∈ twoPools.names, t.todo a = []) ∧ t.failed = [] ∧
    t.links = [first] ∧ (t.proxy (literal ['A'])).world.2 = [.message 0 announcement (.ok announcement.length)] ∧
    t.proxy (literal ['B']) = { world := ({}, []) } := by
  cases hs :
      (asleep.proxy (literal ['A'])).connectProxy (twoPools.env (literal ['A'])) (literal ['B']) (literal ['b']) with
  | error e => cases hs
  | ok s =>
    refine ⟨_, ⟨by decide, literal ['B'], literal ['b'], [], s, _, _, rfl, hs, rfl, nofun, literal ['B'], rfl, rfl⟩,
      fun a hm => ?_, rfl, rfl, ?_, ?_⟩
    · dsimp only
      by_cases ha : a = literal ['A']
      · rw [ha, Function.update_self]
      · rw [Function.update_of_ne ha]
        rcases List.mem_cons.1 hm with h | hm
        · exact absurd h ha
        · rw [List.mem_singleton.1 hm]
          decide
    · cases hs
      rfl
    · have hne : literal ['B'] ≠ literal ['A'] := by decide
      dsimp only
      rw [Function.update_of_ne hne]
      rfl

/-- The first proxy connects to the second, which accepts the connection. -/
theorem proxies_meet_run : ∃ t, Runs.Reach (Starts twoPools) (Step twoPools) t ∧
    (t.proxy (literal ['A'])).peer (literal ['B']) ≠ none ∧ (t.proxy (literal ['B'])).peer (literal ['A']) ≠ none := by
  have h0 : Runs.Reach (Starts twoPools) (Step twoPools) asleep := .start ⟨fun _ => {}, rfl⟩
  obtain ⟨t1, hs1, htodo, hfailed, hlinks, hlog, hcallee⟩ := first_dialed
  have h1 := h0.next _ hs1
  let ev : ProxyEvent (Letters × List (Sent Nat)) :=
    { id := 1, isNew := true, world := ({ inbox := [announcement] }, []) }
  have hacc : Accepts twoPools t1 first ev announcement ⟨some 1, true, false⟩ ({}, []) := by
    refine ⟨rfl, htodo _ (by decide), rfl, rfl, ?_, ?_, ?_, ?_, ⟨_, _, _, _, rfl, rfl⟩⟩
    · rw [show first.callee = literal ['B'] from rfl, hcallee]
    · intro l hl
      rw [hlinks, List.mem_singleton] at hl
      subst hl
      rintro (⟨h, -⟩ | ⟨-, h⟩)
      · exact absurd h (by decide)
      · cases h
    · rw [show first.caller = literal ['A'] from rfl, hlog]
      exact List.pairwise_singleton ..
    · rw [show first.caller = literal ['A'] from rfl, hlog]
      rfl
  obtain ⟨t2, hs2⟩ := (proxies_meet twoPools_right h1).2.2.2.2.1 0 first ev announcement _ _ (by rw [hlinks]; rfl) hacc
  have h2 := h1.next _ hs2
  obtain ⟨l, ev', m, h, w, s, hl, -, -, rfl⟩ := hs2
  rw [hlinks] at hl
  cases hl
  have hcomplete := (proxies_meet twoPools_right h2).2.2.1 htodo hfailed (fun l hl => ?_) (by decide)
  · exact ⟨_, h2, hcomplete _ (by decide) _ (by decide) (by decide), hcomplete _ (by decide) _ (by decide) (by decide)⟩
  · dsimp only at hl
    rw [hlinks, List.set_cons_zero, List.mem_singleton] at hl
    rw [hl]
    nofun

end

end Mesh

end Mtcl
