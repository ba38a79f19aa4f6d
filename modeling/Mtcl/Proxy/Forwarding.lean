import Mtcl.Proxy.Wiring

/-!
# The proxy forwards what it reads

`Carries` says that a proxy stands where a switch stands that has read the same from the same handles.  An
iteration of the main loop for a handle that the proxy serves reads what the switch reads, puts it where the
switch puts it, and stops for no reason (`turn_carries`).  So in every run, whatever handles `getNext` returns
in whatever order, the proxy is that switch (`turns_carry`), and what `Switch` says of a switch is true of it.
-/

namespace Mtcl

open Sources Switch

namespace Proxy

variable {W : Type} {g : Wiring} {env : ProxyEnv W} {closed : Nat → Bool} {S : Nat → View → W → Prop}
  {Q : Nat → List Bytes} {x y : Nat → Port Bytes} {users : Nat → Nat} {s s' : Proxy W} {i j c via n : Nat}
  {ev : ProxyEvent W}

/-- The proxy stands where a switch stands.  Its tables are those of the wiring, and of the handles of a
connection that has not ended on both sides it is the only user. -/
structure Carries (g : Wiring) (env : ProxyEnv W) (S : Nat → View → W → Prop) (x : Nat → Port Bytes) (s : Proxy W) :
    Prop where
  shown : ∃ users, Shown g S x users s.world ∧ ∀ i, g.role i ≠ none → ¬(x i).Done → users i = 1
  tabled : Tabled g env x s

/-- What `getNext` returns: a handle that is not new, which has a user more.  Whatever else has happened since
the last iteration, the handles are as they were left. -/
structure HandsOut (S : Nat → View → W → Prop) (i : Nat) (w : W) (ev : ProxyEvent W) : Prop where
  id : ev.id = i
  old : ev.isNew = false
  world : ∀ v n ph out, Appears S v w → v i = some ⟨n + 1, ph, out⟩ →
    Appears S (Function.update v i (some ⟨n + 2, ph, out⟩)) ev.world

/-- A handle that has users can be handed out. -/
theorem HandsOut.exists {vt : Nat → CommunicationHandle W} (hd : Duplex vt closed S) {v : Nat → Option View}
    {ph : Phase (List Bytes) Bytes} {out : List Bytes × Bool} {w : W} (hs : Appears S v w)
    (hi : v i = some ⟨n + 1, ph, out⟩) : ∃ ev : ProxyEvent W, HandsOut S i w ev := by
  obtain ⟨w', hinc, -⟩ := hd.increment (hs i _ hi)
  refine ⟨⟨i, false, w', 0, fun _ => 0⟩, rfl, rfl, fun v n ph out hv hvi => ?_⟩
  obtain ⟨w'', hinc', hx⟩ := hd.increment (hv i _ hvi)
  obtain rfl : w' = w'' := Except.ok.inj (hinc.symm.trans hinc')
  exact hv.update hx fun k hk y hy => (hd.apart hk y).incrementReferenceCounter hy hinc

/-! ### Where things go -/

/-- Only the other end of a connection of one hop puts anything on an end of it. -/
theorem hop_only (hg : g.Fits env closed) (hi : g.role i = some (.hop j)) {k : Nat} (m : Option Bytes) (hk : k ≠ i) :
    toward j (g.onward k m) = none := by
  have hj := (hg.hop hi).2
  cases ho : g.onward k m with
  | none => rfl
  | some r =>
    obtain ⟨k', m'⟩ := r
    refine if_neg ?_
    rintro rfl
    rcases Wiring.onward_cases ho with ⟨hp, -⟩ | ⟨c, hc, -⟩ | ⟨-, b, f, -, -, ht, -⟩
    · rw [(hg.hop hp).2] at hj
      cases hj
      exact hk rfl
    · rw [hg.via hc] at hj
      cases hj
    · obtain ⟨r, hr, hc⟩ := hg.target.1 ht
      rw [hj] at hr
      cases hr
      cases hc

/-- On an end of a connection of one hop is what has been read from the other. -/
theorem hop_out (hg : g.Fits env closed) (hrun : Run g.onward closed Q x) (hi : g.role i = some (.hop j)) :
    (x j).out = ((x i).got, (x i).ended) := by
  have hall : (fun m => toward j (g.onward i m)) = some := by
    funext m
    unfold Wiring.onward
    rw [hi]
    exact if_pos rfl
  rw [hrun.fed fun k m hk _ => hop_only hg hi m hk, hall, List.filterMap_some]
  exact foldl_items (x i)

/-- The connection with a proxy does not end. -/
theorem proxy_open (hg : g.Fits env closed) (hrun : Run g.onward closed Q x) (hi : g.role i = some .proxy) :
    (x i).ended = false := by
  cases he : (x i).ended with
  | false => rfl
  | true =>
    have := ((hrun.read i).2 he).2
    rw [hg.endless hi] at this
    cases this

/-! ### The tables are looked up -/

section

variable {r : Role}

private theorem lift_of {α : Type} {z : Except Stop α} {a : α} (h : z = .ok a) : lift z = .ok a := by
  rw [h]
  rfl

theorem getID_real {u : HandleUser Nat} (hu : u.realHandle = some i) : env.getID u = env.address i := by
  unfold ProxyEnv.getID
  rw [hu]

/-- The handle of a connection through another proxy is found under its ID, and the other way round. -/
private theorem Tabled.lookup (ht : Tabled g env x s) (hi : g.target c = some i) (hd : ¬(x i).Done) :
    env.address i ∈ s.loc2connID.keyTree.elems ∧ s.loc2connID.getValue (env.address i) = some c ∧
      c ∈ s.loc2connID.valueTree.elems ∧ s.loc2connID.getKey c = some (env.address i) := by
  obtain ⟨live, hb, hlive⟩ := ht.routed
  have hmem := (hlive (env.address i) c).2 ⟨i, hi, rfl, hd⟩
  exact ⟨hb.mem_keys.2 ⟨c, hmem⟩, hb.getValue hmem, hb.mem_values.2 ⟨_, hmem⟩, hb.getKey hmem⟩

/-- An end of a connection of one hop is in no connection through another proxy. -/
private theorem Tabled.unrouted (hg : g.Fits env closed) (ht : Tabled g env x s) (hi : g.role i = some (.hop j)) :
    env.address i ∉ s.loc2connID.keyTree.elems := by
  obtain ⟨live, hb, hlive⟩ := ht.routed
  rw [hb.mem_keys]
  rintro ⟨c, hc⟩
  obtain ⟨k, hk, he, -⟩ := (hlive _ _).1 hc
  obtain ⟨r, hr, hrc⟩ := hg.target.1 hk
  cases hg.address (by rw [hr]; nofun) (by rw [hi]; nofun) he
  rw [hi] at hr
  cases hr
  cases hrc

private theorem Tabled.unknown (ht : Tabled g env x s) (hc : ∀ i, g.target c = some i → (x i).Done) :
    c ∉ s.loc2connID.valueTree.elems := by
  obtain ⟨live, hb, hlive⟩ := ht.routed
  rw [hb.mem_values]
  rintro ⟨k, hk⟩
  obtain ⟨i, hi, -, hd⟩ := (hlive _ _).1 hk
  exact hd (hc i hi)

end

/-! ### The branches -/

private theorem sendThrough_shown (hd : Duplex env.vt closed S) (ht : Tabled g env x s) (hs : Shown g S y users s.world)
    (hi : g.role i = some (.caller c via)) (hopen : (x i).ended = false) (hvia : g.role via ≠ none)
    (hn : users via = n + 1) (b : Bytes) :
    ∃ p u w, ({ s with connid2proxy := Function.update s.connid2proxy c (some ((s.connid2proxy c).getD none)) } :
        Proxy W).sendThrough env ((s.connid2proxy c).getD none) b = .ok { s with world := w, heap := s.heap.set p u } ∧
      Shown g S (Function.update y via ((y via).put (some b))) users w ∧
      Tabled g env x { s with world := w, heap := s.heap.set p u } := by
  obtain ⟨p, u, hp, hu, hreal⟩ := ht.proxied hi hopen
  obtain ⟨r, w, hsend, hs'⟩ := hs.send hd hvia hn hreal b
  refine ⟨p, { u with newConnection := false }, w, ?_, hs',
    (ht.setHeap (u := { u with newConnection := false }) hu rfl).inWorld w⟩
  have hsame : Function.update s.connid2proxy c (some ((s.connid2proxy c).getD none)) = s.connid2proxy := by
    rw [hp]
    exact (Function.update_eq_self_iff ..).2 hp.symm
  rw [hsame, hp, Option.getD_some]
  unfold sendThrough
  dsimp only
  rw [hu]
  dsimp only
  rw [lift_of hsend]
  rfl

private theorem forward_caller (hd : Duplex env.vt closed S) (hg : g.Fits env closed) (ht : Tabled g env x s)
    (hs : Shown g S y users s.world) (hi : g.role i = some (.caller c via)) (hopen : (x i).ended = false)
    (hn : users via = n + 1) (m : Bytes) :
    ∃ s', s.forward env (env.address i) m = .ok s' ∧ Tabled g env x s' ∧
      Shown g S (Function.update y via ((y via).put (some (ProxyFrame.carrying c (some m)).toBytes)))
        users s'.world := by
  have htarget : g.target c = some i := hg.target.2 ⟨_, hi, rfl⟩
  obtain ⟨hkey, hvalue, -, -⟩ := ht.lookup htarget fun hdone => Bool.false_ne_true (hopen.symm.trans hdone.1)
  obtain ⟨p, u, w, hsend, hs', ht'⟩ := sendThrough_shown hd ht hs hi hopen (by rw [hg.via hi]; nofun) hn
    (ProxyFrame.carrying c (some m)).toBytes
  refine ⟨_, ?_, ht', hs'⟩
  unfold forward
  rw [if_pos hkey, hvalue]
  exact hsend

private theorem forward_hop (hd : Duplex env.vt closed S) (hg : g.Fits env closed) (ht : Tabled g env x s)
    (hs : Shown g S y users s.world) (hi : g.role i = some (.hop j))
    (hopen : (x i).ended = false) (hnot : ¬(x j).Done) (hn : users j = n + 1) (m : Bytes) :
    ∃ s', s.forward env (env.address i) m = .ok s' ∧ Tabled g env x s' ∧
      Shown g S (Function.update y j ((y j).put (some m))) users s'.world := by
  have hj := (hg.hop hi).2
  obtain ⟨u, hu, hreal, hread⟩ := ht.held hj nofun hnot
  obtain ⟨r, w, hsend, hs'⟩ := hs.send hd (by rw [hj]; nofun) hn hreal m
  refine ⟨_, ?_, (ht.setHandle (u := { u with newConnection := false }) hu rfl rfl).inWorld w, hs'⟩
  unfold forward handleAt
  rw [if_neg (ht.unrouted hg hi), ht.joined hi hopen]
  dsimp only
  rw [hu]
  dsimp only
  rw [lift_of hsend]
  rfl

/-! The end of a connection. -/

private theorem put_some_flags (p : Port Bytes) (m : Bytes) :
    (p.put (some m)).ended = p.ended ∧ (p.put (some m)).out.2 = p.out.2 := by
  refine ⟨rfl, ?_⟩
  rcases hp : p.out with ⟨ms, _ | _⟩ <;> simp [Port.put, hp, putOut]

private theorem put_none_flags (p : Port Bytes) : (p.put none).ended = p.ended ∧ (p.put none).out.2 = true := by
  refine ⟨rfl, ?_⟩
  rcases hp : p.out with ⟨ms, _ | _⟩ <;> simp [Port.put, hp, putOut]

private theorem put_closed {p : Port Bytes} (h : p.out.2 = true) (m : Option Bytes) : p.put m = p := by
  obtain ⟨got, unread, ended, ms, c⟩ := p
  cases h
  cases m <;> rfl

/-- The object in `id2handle` goes, and with it the entry. -/
private theorem eraseHandle_shown (hd : Duplex env.vt closed S) {z : Nat → Port Bytes} (hs : Shown g S z users s.world)
    (hi : g.role i ≠ none) (hn : users i = n + 1) (hlast : 0 < n ∨ (z i).Done) {u : HandleUser Nat}
    (hu : s.id2handle (env.address i) = some u) (hreal : u.realHandle = some i) (hread : u.isReadable = false) :
    ∃ w, s.eraseHandle env (env.address i) =
        .ok { s with world := w, id2handle := Function.update s.id2handle (env.address i) none } ∧
      Shown g S z (Function.update users i n) w := by
  obtain ⟨w, hdestroy, hs'⟩ := hs.destroy_unreadable hd hi hn hlast hreal hread
  refine ⟨w, ?_, hs'⟩
  unfold eraseHandle
  rw [hu]
  dsimp only
  rw [lift_of hdestroy]
  rfl

/-- The end of a connection of one hop closes the other end, and its entries are erased when it has ended before. -/
private theorem closeHop_shown (hd : Duplex env.vt closed S) (hg : g.Fits env closed) (ht : Tabled g env x s)
    (hopen : (x i).ended = false) (hi : g.role i = some (.hop j)) (hnot : ¬(x j).Done)
    (hy : y = Function.update x i { x i with ended := true }) (hs : Shown g S y users s.world) (hn : users j = 1)
    (hout : (x i).out.2 = (x j).ended) :
    ∃ s' m, s.closeHop env (env.address i) = .ok s' ∧
      Shown g S (Function.update y j ((y j).put none)) (Function.update users j m) s'.world ∧
      Tabled g env (Function.update y j ((y j).put none)) s' ∧
        (m = 1 ∨ (Function.update y j ((y j).put none) j).Done) := by
  obtain ⟨hne, hj⟩ := hg.hop hi
  have hyj : y j = x j := by rw [hy, Function.update_of_ne hne]
  obtain ⟨u, hu, hreal, hread⟩ := ht.held hj nofun hnot
  obtain ⟨w, hclose, hs1⟩ := hs.close hd (by rw [hj]; nofun) hn hreal
  generalize hz : Function.update y j ((y j).put none) = z at *
  have hzj : (z j).ended = (x j).ended ∧ (z j).out.2 = true := by
    rw [← hz, Function.update_self, hyj]
    exact put_none_flags _
  have hzi : (z i).ended = true ∧ (z i).out.2 = (x i).out.2 := by
    rw [← hz, Function.update_of_ne (Ne.symm hne), hy, Function.update_self]
    exact ⟨rfl, rfl⟩
  have hzk : ∀ k, k ≠ i → k ≠ j → z k = x k := by
    intro k hki hkj
    rw [← hz, Function.update_of_ne hkj, hy, Function.update_of_ne hki]
  have hends : ∀ k, (x k).ended = true → (z k).ended = true := by
    intro k hk
    by_cases hki : k = i
    · exact hki ▸ hzi.1
    · by_cases hkj : k = j
      · rw [hkj] at hk ⊢
        exact hzj.1.trans hk
      · rw [hzk k hki hkj]
        exact hk
  have hisClosed := hs1.isClosed hd (by rw [hj]; nofun) hn hreal
  rw [hzj.1, hzj.2] at hisClosed
  have hcall : s.closeHop env (env.address i) = if (x j).ended = true then
      ({ s with world := w, proc2proc := Function.update s.proc2proc (env.address j) none } : Proxy W).eraseHandle env
        (env.address j) else .ok { s with world := w } := by
    unfold closeHop handleAt
    rw [ht.joined hi hopen]
    dsimp only
    rw [hu]
    dsimp only
    rw [lift_of hclose]
    dsimp only [bind, Except.bind]
    rw [lift_of hisClosed]
    cases (x j).ended <;> rfl
  rw [hcall]
  cases hended : (x j).ended with
  | false =>
    -- the other end goes on
    refine ⟨_, 1, if_neg Bool.false_ne_true, ?_, (ht.inWorld w).ends hends fun k => ?_, .inl rfl⟩
    · rw [← hn, Function.update_eq_self]
      exact hs1
    · unfold Port.Done
      by_cases hki : k = i
      · rw [hki, hzi.2, hout, hended]
        exact iff_of_false (fun h => Bool.false_ne_true h.2) fun h => Bool.false_ne_true h.2
      · by_cases hkj : k = j
        · rw [hkj, hzj.1, hended]
          exact iff_of_false (fun h => Bool.false_ne_true h.1) fun h => Bool.false_ne_true h.1
        · rw [hzk k hki hkj]
  | true =>
    have hdone : (z j).Done := ⟨hzj.1.trans hended, hzj.2⟩
    obtain ⟨w', herase, hs2⟩ := eraseHandle_shown (n := 0)
      (s := { s with world := w, proc2proc := Function.update s.proc2proc (env.address j) none }) hd hs1
        (by rw [hj]; nofun) hn
      (.inr hdone) hu hreal hread
    refine ⟨_, 0, (if_pos rfl).trans herase, hs2, ?_, .inr hdone⟩
    refine (Tabled.cutHop hg ht hj hends hdone.1 (fun k hk => ⟨?_, ?_⟩) fun k hki hkj => ?_).inWorld w'
    · intro hxk
      refine hk ⟨hends k hxk.1, ?_⟩
      by_cases hki : k = i
      · rw [hki, hzi.2]
        rw [hki] at hxk
        exact hxk.2
      · by_cases hkj : k = j
        · rw [hkj]
          exact hzj.2
        · rw [hzk k hki hkj]
          exact hxk.2
    · rintro rfl
      exact hk hdone
    · rw [hzk k hki hkj]

private theorem closeRoute_hop (hg : g.Fits env closed) (ht : Tabled g env x s) (hi : g.role i = some (.hop j))
    {h : HandleUser Nat} (hh : h.realHandle = some i) : s.closeRoute env h = .ok s := by
  unfold closeRoute
  rw [getID_real hh, if_neg (ht.unrouted hg hi)]

private theorem closeHop_caller (ht : Tabled g env x s) (hi : g.role i = some (.caller c via)) :
    s.closeHop env (env.address i) = .ok s := by
  unfold closeHop
  rw [ht.unjoined hi]

/-- The end of a connection through another proxy goes to that proxy in a frame, and the entries of the
connection are erased when it has ended on the other side before. -/
private theorem closeRoute_caller (hd : Duplex env.vt closed S) (hg : g.Fits env closed) (ht : Tabled g env x s)
    (hopen : (x i).ended = false) (hi : g.role i = some (.caller c via))
    (hy : y = Function.update x i { x i with ended := true }) (hs : Shown g S y users s.world) (hni : users i = 2)
    (hn : users via = n + 1) {h : HandleUser Nat} (hh : h.realHandle = some i) {z : Nat → Port Bytes}
    (hz : z = Function.update y via ((y via).put (some (ProxyFrame.carrying c none).toBytes))) :
    ∃ s' m, s.closeRoute env h = .ok s' ∧ Shown g S z (Function.update users i (m + 1)) s'.world ∧
      Tabled g env z s' ∧ (m = 1 ∨ m = 0 ∧ (z i).Done) := by
  have hrole : g.role i ≠ none := by rw [hi]; nofun
  have htarget : g.target c = some i := hg.target.2 ⟨_, hi, rfl⟩
  have hnot : ¬(x i).Done := fun hdone => Bool.false_ne_true (hopen.symm.trans hdone.1)
  have hne : i ≠ via := by
    rintro rfl
    have := hg.via hi
    rw [hi] at this
    cases this
  obtain ⟨hkey, hvalue, -, -⟩ := ht.lookup htarget hnot
  obtain ⟨u, hu, hreal, hread⟩ := ht.held hi nofun hnot
  obtain ⟨p, v, w, hsend, hs1, ht1⟩ := sendThrough_shown hd ht hs hi hopen (by rw [hg.via hi]; nofun) hn
    (ProxyFrame.carrying c none).toBytes
  rw [← hz] at hs1
  have hzi : (z i).ended = true ∧ (z i).out.2 = (x i).out.2 := by
    rw [hz, Function.update_of_ne hne, hy, Function.update_self]
    exact ⟨rfl, rfl⟩
  have hzk : ∀ k, k ≠ i → (z k).ended = (x k).ended ∧ (z k).out.2 = (x k).out.2 := by
    intro k hki
    have hyk : y k = x k := by rw [hy, Function.update_of_ne hki]
    rw [hz]
    by_cases hkv : k = via
    · subst hkv
      rw [Function.update_self, hyk]
      exact put_some_flags _ _
    · rw [Function.update_of_ne hkv, hyk]
      exact ⟨rfl, rfl⟩
  have hends : ∀ k, (x k).ended = true → (z k).ended = true := by
    intro k hk
    by_cases hki : k = i
    · exact hki ▸ hzi.1
    · exact (hzk k hki).1.trans hk
  have hothers : ∀ k, k ≠ i → ((z k).Done ↔ (x k).Done) := by
    intro k hki
    unfold Port.Done
    rw [(hzk k hki).1, (hzk k hki).2]
  have hisClosed := hs1.isClosed hd hrole hni hh
  rw [hzi.1, hzi.2] at hisClosed
  have hcall : s.closeRoute env h = if (x i).out.2 = true then
      fromBimap (s.loc2connID.eraseKey (env.address i)) >>= fun b =>
        ({ s with
          world := w
          heap := s.heap.set p v
          loc2connID := b
          connid2proxy := Function.update s.connid2proxy c none } : Proxy W).eraseHandle env (env.address i)
      else .ok { s with world := w, heap := s.heap.set p v } := by
    unfold closeRoute
    rw [getID_real hh, if_pos hkey, hvalue]
    dsimp only [fromBimap, Option.elim, bind, Except.bind]
    change ((_ : Proxy W).sendThrough env _ _ >>= _ : Except ProxyStop (Proxy W)) = _
    rw [show (ProxyFrame.toBytes ⟨Cmd.EOS.toByte, c, []⟩) = (ProxyFrame.carrying c none).toBytes from rfl, hsend]
    dsimp only [bind, Except.bind]
    rw [lift_of hisClosed]
    cases (x i).out.2 <;> rfl
  rw [hcall]
  cases hout : (x i).out.2 with
  | false =>
    -- the other side goes on
    refine ⟨_, 1, if_neg Bool.false_ne_true, ?_, ht1.ends hends fun k => ?_, .inl rfl⟩
    · rw [show (1 + 1 : Nat) = 2 from rfl, ← hni, Function.update_eq_self]
      exact hs1
    · by_cases hki : k = i
      · rw [hki]
        refine iff_of_false (fun h => ?_) hnot
        exact Bool.false_ne_true ((hzi.2.trans hout).symm.trans h.2)
      · exact hothers k hki
  | true =>
    have hdone : (z i).Done := ⟨hzi.1, hzi.2.trans hout⟩
    obtain ⟨b, hb, ht2⟩ := ht1.cutRoute hg htarget hends hdone hnot hothers
    obtain ⟨w', herase, hs2⟩ := eraseHandle_shown (n := 1)
      (s := { s with
        world := w
        heap := s.heap.set p v
        loc2connID := b
        connid2proxy := Function.update s.connid2proxy c none })
      hd hs1 hrole hni (.inl Nat.one_pos) hu hreal hread
    refine ⟨_, 0, ?_, hs2,
      (ht2 (Function.update s.connid2proxy c none) fun c' hc' => Function.update_of_ne hc' ..).inWorld w',
      .inr ⟨rfl, hdone⟩⟩
    have hb' : s.loc2connID.eraseKey (env.address i) = some b := hb
    rw [if_pos rfl, hb']
    exact herase

/-! The frames of another proxy. -/

/-- A message for a process goes to its handle; when the connection has ended there it is lost. -/
private theorem frameFWD_shown (hd : Duplex env.vt closed S) (hg : g.Fits env closed) (ht : Tabled g env x s)
    (hi : g.target c = some i) (hs : Shown g S y users s.world) (hsame : (y i).out = (x i).out)
    (hn : ¬(x i).Done → users i = 1) (m : Bytes) :
    ∃ s', s.frameFWD env c m = .ok s' ∧ Tabled g env x s' ∧
      Shown g S (Function.update y i ((y i).put (some m))) users s'.world := by
  by_cases hdone : (x i).Done
  · have hc : c ∉ s.loc2connID.valueTree.elems := ht.unknown fun k hk => by
      rw [hi] at hk
      cases hk
      exact hdone
    refine ⟨s, ?_, ht, ?_⟩
    · unfold frameFWD
      rw [if_neg hc]
    · rw [put_closed ((congrArg Prod.snd hsame).trans hdone.2), Function.update_eq_self]
      exact hs
  · obtain ⟨-, -, hvalue, hkey⟩ := ht.lookup hi hdone
    obtain ⟨r, hr, hrc⟩ := hg.target.1 hi
    have hproxy : r ≠ .proxy := by
      rintro rfl
      cases hrc
    obtain ⟨u, hu, hreal, hread⟩ := ht.held hr hproxy hdone
    obtain ⟨r', w, hsend, hs'⟩ := hs.send hd (by rw [hr]; nofun) (n := 0) (hn hdone) hreal m
    refine ⟨_, ?_, (ht.setHandle (u := { u with newConnection := false }) hu rfl rfl).inWorld w, hs'⟩
    unfold frameFWD handleAt
    rw [if_pos hvalue, hkey]
    dsimp only [fromBimap, Option.elim, bind, Except.bind]
    rw [hu]
    dsimp only
    rw [lift_of hsend]
    rfl

/-- The end of a connection closes its handle, and the entries of the connection are erased when the process has
closed before. -/
private theorem frameEOS_shown (hd : Duplex env.vt closed S) (hg : g.Fits env closed) (ht : Tabled g env x s)
    (hi : g.target c = some i) (hs : Shown g S y users s.world)
    (hsame : ∀ k, (y k).ended = (x k).ended ∧ (y k).out = (x k).out) (hn : ¬(x i).Done → users i = 1)
    {z : Nat → Port Bytes} (hz : z = Function.update y i ((y i).put none)) :
    ∃ s' m, s.frameEOS env c = .ok s' ∧ Shown g S z (Function.update users i m) s'.world ∧ Tabled g env z s' ∧
      (m = 1 ∨ (z i).Done) := by
  obtain ⟨r, hr, hrc⟩ := hg.target.1 hi
  have hrole : g.role i ≠ none := by rw [hr]; nofun
  have hzi : (z i).ended = (x i).ended ∧ (z i).out.2 = true := by
    rw [hz, Function.update_self, (put_none_flags _).1, (hsame i).1]
    exact ⟨rfl, (put_none_flags _).2⟩
  have hzk : ∀ k, k ≠ i → (z k).ended = (x k).ended ∧ (z k).out = (x k).out := by
    intro k hki
    rw [hz, Function.update_of_ne hki]
    exact hsame k
  have hends : ∀ k, (x k).ended = true → (z k).ended = true := by
    intro k hk
    by_cases hki : k = i
    · subst hki
      exact hzi.1.trans hk
    · exact (hzk k hki).1.trans hk
  have hothers : ∀ k, k ≠ i → ((z k).Done ↔ (x k).Done) := by
    intro k hki
    unfold Port.Done
    rw [(hzk k hki).1, (hzk k hki).2]
  by_cases hdone : (x i).Done
  · have hc : c ∉ s.loc2connID.valueTree.elems := ht.unknown fun k hk => by
      rw [hi] at hk
      cases hk
      exact hdone
    have hzi' : (z i).Done := ⟨hzi.1.trans hdone.1, hzi.2⟩
    have hzy : z = y := by
      rw [hz, put_closed ((congrArg Prod.snd (hsame i).2).trans hdone.2), Function.update_eq_self]
    refine ⟨s, users i, ?_, ?_, ht.ends hends fun k => ?_, .inr hzi'⟩
    · unfold frameEOS
      rw [if_neg hc]
    · rw [Function.update_eq_self, hzy]
      exact hs
    · by_cases hki : k = i
      · rw [hki]
        exact iff_of_true hzi' hdone
      · exact hothers k hki
  · obtain ⟨-, -, hvalue, hkey⟩ := ht.lookup hi hdone
    have hproxy : r ≠ .proxy := by
      rintro rfl
      cases hrc
    obtain ⟨u, hu, hreal, hread⟩ := ht.held hr hproxy hdone
    obtain ⟨w, hclose, hs1⟩ := hs.close hd hrole (n := 0) (hn hdone) hreal
    rw [← hz] at hs1
    have hisClosed := hs1.isClosed hd hrole (n := 0) (hn hdone) hreal
    rw [hzi.1, hzi.2] at hisClosed
    have hcall : s.frameEOS env c = if (x i).ended = true then
        ({ s with world := w } : Proxy W).eraseHandle env (env.address i) >>= fun s' =>
          fromBimap (s'.loc2connID.eraseKey (env.address i)) >>= fun b => .ok { s' with loc2connID := b }
        else .ok { s with world := w } := by
      unfold frameEOS
      rw [if_pos hvalue, hkey]
      dsimp only [fromBimap, Option.elim, bind, Except.bind]
      rw [hu]
      dsimp only
      rw [lift_of hclose]
      dsimp only
      rw [lift_of hisClosed]
      cases (x i).ended <;> rfl
    rw [hcall]
    cases hended : (x i).ended with
    | false =>
      refine ⟨_, 1, if_neg Bool.false_ne_true, ?_, (ht.inWorld w).ends hends fun k => ?_, .inl rfl⟩
      · rw [← hn hdone, Function.update_eq_self]
        exact hs1
      · by_cases hki : k = i
        · rw [hki]
          refine iff_of_false (fun h => ?_) hdone
          exact Bool.false_ne_true ((hzi.1.trans hended).symm.trans h.1)
        · exact hothers k hki
    | true =>
      have hzi' : (z i).Done := ⟨hzi.1.trans hended, hzi.2⟩
      obtain ⟨w', herase, hs2⟩ := eraseHandle_shown (n := 0) (s := { s with world := w }) hd hs1 hrole (hn hdone)
        (.inr hzi') hu hreal hread
      obtain ⟨b, hb, ht2⟩ := ht.cutRoute hg hi hends hzi' hdone hothers
      refine ⟨_, 0, ?_, hs2, (ht2 s.connid2proxy fun _ _ => rfl).inWorld w', .inr hzi'⟩
      rw [if_pos rfl, herase]
      dsimp only [bind, Except.bind]
      rw [hb]
      rfl

/-! ### An iteration -/

private theorem Carries.handed (h : Carries g env S x s) (hev : HandsOut S i s.world ev) (hi : g.role i ≠ none)
    (hnot : ¬(x i).Done) :
    ∃ users, Shown g S x users ev.world ∧ users i = 2 ∧ ∀ k, g.role k ≠ none → k ≠ i → ¬(x k).Done → users k = 1 := by
  obtain ⟨users, ⟨v, hv, hx⟩, hone⟩ := h.shown
  have hvi := hx i hi
  rw [hone i hi hnot] at hvi
  have hv' := hev.world v 0 _ _ hv hvi
  refine ⟨Function.update users i 2, ⟨_, hv', fun k hk => ?_⟩, Function.update_self .., fun k hk hki hd => ?_⟩
  · by_cases hki : k = i
    · subst hki
      rw [Function.update_self, Function.update_self]
    · rw [Function.update_of_ne hki, Function.update_of_ne hki]
      exact hx k hk
  · rw [Function.update_of_ne hki]
    exact hone k hk hd

/-- The end of an iteration behind which the handle goes back. -/
private theorem finish_readable (hd : Duplex env.vt closed S) {u : HandleUser Nat}
    (hdisp : s.dispatch env ev = .ok (u, s')) (hs : Shown g S y users s'.world) (ht : Tabled g env y s')
    (hi : g.role i ≠ none) (hn : users i = 2) (hopen : (y i).ended = false)
    (hone : ∀ k, g.role k ≠ none → k ≠ i → ¬(y k).Done → users k = 1) (hu : u.realHandle = some i)
    (hread : u.isReadable = true) : ∃ s'', s.iteration env ev = .ok s'' ∧ Carries g env S y s'' := by
  obtain ⟨w, hdestroy, hs'⟩ := hs.destroy_readable hd hi (n := 0) hn hopen hu hread
  refine ⟨{ s' with world := w }, ?_, ⟨_, hs', fun k hk hdone => ?_⟩, ht.inWorld w⟩
  · unfold iteration
    rw [hdisp]
    dsimp only [bind, Except.bind]
    rw [lift_of hdestroy]
    rfl
  · by_cases hki : k = i
    · rw [hki, Function.update_self]
    · rw [Function.update_of_ne hki]
      exact hone k hk hki hdone

private theorem finish_unreadable (hd : Duplex env.vt closed S) {u : HandleUser Nat} {m : Nat}
    (hdisp : s.dispatch env ev = .ok (u, s')) (hs : Shown g S y users s'.world) (ht : Tabled g env y s')
    (hi : g.role i ≠ none) (hn : users i = m + 1) (hlast : m = 1 ∨ m = 0 ∧ (y i).Done)
    (hone : ∀ k, g.role k ≠ none → k ≠ i → ¬(y k).Done → users k = 1) (hu : u.realHandle = some i)
    (hread : u.isReadable = false) : ∃ s'', s.iteration env ev = .ok s'' ∧ Carries g env S y s'' := by
  have hlast' : 0 < m ∨ (y i).Done := by
    rcases hlast with rfl | ⟨-, hdone⟩
    · exact .inl Nat.one_pos
    · exact .inr hdone
  obtain ⟨w, hdestroy, hs'⟩ := hs.destroy_unreadable hd hi hn hlast' hu hread
  refine ⟨{ s' with world := w }, ?_, ⟨_, hs', fun k hk hdone => ?_⟩, ht.inWorld w⟩
  · unfold iteration
    rw [hdisp]
    dsimp only [bind, Except.bind]
    rw [lift_of hdestroy]
    rfl
  · by_cases hki : k = i
    · subst hki
      rw [Function.update_self]
      exact hlast.resolve_right fun h => hdone h.2
    · rw [Function.update_of_ne hki]
      exact hone k hk hki hdone

private theorem dispatch_process (hname : env.instanceName ev.id ≠ literal ['P']) (hold : ev.isNew = false) :
    s.dispatch env ev = ({ s with world := ev.world } : Proxy W).message env ev ⟨some ev.id, true, false⟩ := by
  unfold dispatch
  dsimp only
  rw [if_neg hname, hold, if_neg Bool.false_ne_true]

private theorem dispatch_proxy (hname : env.instanceName ev.id = literal ['P']) (hold : ev.isNew = false) :
    s.dispatch env ev = ({ s with world := ev.world } : Proxy W).frame env ev ⟨some ev.id, true, false⟩ := by
  unfold dispatch
  dsimp only
  rw [if_pos hname, hold, if_neg Bool.false_ne_true]

private theorem message_takes {h h' : HandleUser Nat} {w' : W} {m : Bytes}
    (ht : env.Takes ev h s.world (.message m) h' w') (hm : m ≠ []) :
    s.message env ev h = ({ s with world := w' } : Proxy W).forward env (env.getID h') m >>= fun s => .ok (h', s) := by
  obtain ⟨r, r', h1, w1, hprobe, hreceive⟩ := ht
  change h1.receive env.vt m.length w1 = .ok (r', m, h', w') at hreceive
  have hne : m.length ≠ 0 := fun e => hm (List.length_eq_zero_iff.1 e)
  unfold message
  rw [lift_of hprobe]
  change (if m.length = 0 then _ else _ : Except ProxyStop (HandleUser Nat × Proxy W)) = _
  rw [if_neg hne]
  change (lift (h1.receive env.vt m.length w1) >>= _) = _
  rw [lift_of hreceive]
  change (({ s with world := w' } : Proxy W).forward env (env.getID h') (overlay ev.garbage m.length m) >>= _) = _
  rw [overlay_full]
  rfl

private theorem message_end {h h' : HandleUser Nat} {w' : W} {r : Ret}
    (hprobe : h.probe env.vt ev.size true s.world = .ok (r, 0, h', w')) :
    s.message env ev h = ({ s with world := w' } : Proxy W).closeRoute env h' >>= fun s =>
      s.closeHop env (env.getID h') >>= fun s => .ok (h', s) := by
  unfold message
  rw [lift_of hprobe]
  rfl

private theorem onward_hop (hi : g.role i = some (.hop j)) (m : Option Bytes) : g.onward i m = some (j, m) := by
  unfold Wiring.onward
  rw [hi]

private theorem onward_caller (hi : g.role i = some (.caller c via)) (m : Option Bytes) :
    g.onward i m = some (via, some (ProxyFrame.carrying c m).toBytes) := by
  unfold Wiring.onward
  rw [hi]

private theorem onward_proxy (hi : g.role i = some .proxy) {b : Bytes} {f : ProxyFrame}
    (hf : ProxyFrame.ofBytes b = some f) :
    g.onward i (some b) = (g.target f.identifier).bind fun j => f.item.map fun m => (j, m) := by
  unfold Wiring.onward
  rw [hi]
  dsimp only
  rw [Option.bind_some, hf, Option.bind_some]

/-- What is read leaves the ends as they are, as long as it is a message. -/
private theorem message_tabled (ht : Tabled g env x s) {m b : Bytes} {q : List Bytes}
    (hy : y = Function.update x i { x i with got := (x i).got ++ [m], unread := q }) :
    Tabled g env (Function.update y j ((y j).put (some b))) s ∧ Tabled g env y s := by
  have hflags : ∀ k, (y k).ended = (x k).ended ∧ (y k).out.2 = (x k).out.2 := by
    intro k
    rw [hy]
    by_cases hki : k = i
    · subst hki
      rw [Function.update_self]
      exact ⟨rfl, rfl⟩
    · rw [Function.update_of_ne hki]
      exact ⟨rfl, rfl⟩
  have hput : ∀ k, (Function.update y j ((y j).put (some b)) k).ended = (x k).ended ∧
      (Function.update y j ((y j).put (some b)) k).out.2 = (x k).out.2 := by
    intro k
    by_cases hkj : k = j
    · subst hkj
      rw [Function.update_self, (put_some_flags _ _).1, (put_some_flags _ _).2]
      exact hflags k
    · rw [Function.update_of_ne hkj]
      exact hflags k
  refine ⟨ht.ends (fun k hk => (hput k).1.trans hk) fun k =>
    ?_, ht.ends (fun k hk => (hflags k).1.trans hk) fun k => ?_⟩
  · unfold Port.Done
    rw [(hput k).1, (hput k).2]
  · unfold Port.Done
    rw [(hflags k).1, (hflags k).2]

private theorem turn_message (hd : Duplex env.vt closed S) (hg : g.Fits env closed) (hrun : Run g.onward closed Q x)
    (h : Carries g env S x s) (hev : HandsOut S i s.world ev) {m : Bytes} {q : List Bytes} (hq : (x i).unread = m :: q)
    (hopen : (x i).ended = false)
    (hrole : (∃ j, g.role i = some (.hop j)) ∨ ∃ c via, g.role i = some (.caller c via)) :
    ∃ s', s.iteration env ev = .ok s' ∧ Carries g env S
      (deliver (g.onward i (some m)) (Function.update x i { x i with got := (x i).got ++ [m], unread := q })) s' := by
  have hi : g.role i ≠ none ∧ g.role i ≠ some .proxy := by
    rcases hrole with ⟨j, hr⟩ | ⟨c, via, hr⟩
    all_goals
      rw [hr]
      exact ⟨nofun, nofun⟩
  obtain ⟨r, hr⟩ := Option.ne_none_iff_exists'.1 hi.1
  have hname : env.instanceName ev.id ≠ literal ['P'] := by
    rw [hev.id]
    intro hn
    exact hi.2 (hr.trans (congrArg some ((hg.name hr).1 hn)))
  obtain ⟨users, hs, hn2, hone⟩ := h.handed hev hi.1 fun hdone => Bool.false_ne_true (hopen.symm.trans hdone.1)
  obtain ⟨hm, u', w', htakes, hu', hread', hs'⟩ := hs.read_message hd hi.1 (n := 1) hn2 hopen hq
    (u := ⟨some ev.id, true, false⟩) (congrArg some hev.id) rfl ev
  generalize hy : Function.update x i { x i with got := (x i).got ++ [m], unread := q } = y at *
  have hyi : (y i).ended = false := by
    rw [← hy, Function.update_self]
    exact hopen
  have hdisp := (dispatch_process (s := s) hname hev.old).trans
    (message_takes (s := { s with world := ev.world }) htakes hm)
  rw [getID_real hu'] at hdisp
  -- the handle on which the message is put has one user, which is the proxy
  have key : ∀ {k : Nat} {s1 : Proxy W} {b : Bytes}, g.role k ≠ none → k ≠ i →
      ({ s with world := w' } : Proxy W).forward env (env.address i) m = .ok s1 → Tabled g env x s1 →
      Shown g S (Function.update y k ((y k).put (some b))) users s1.world →
      ∃ s', s.iteration env ev = .ok s' ∧ Carries g env S (Function.update y k ((y k).put (some b))) s' := by
    intro k s1 b hk hki hforward ht1 hs1
    rw [hforward] at hdisp
    refine finish_readable hd (u := u') hdisp hs1 (message_tabled ht1 hy.symm).1 hi.1 hn2 ?_
      (fun k' hk' hki' hdone => ?_) hu' hread'
    · rw [Function.update_of_ne (Ne.symm hki)]
      exact hyi
    · refine hone k' hk' hki' fun hx => hdone ?_
      unfold Port.Done at hx ⊢
      by_cases hkk : k' = k
      · subst hkk
        rw [Function.update_self, (put_some_flags _ _).1, (put_some_flags _ _).2, ← hy, Function.update_of_ne hki']
        exact hx
      · rw [Function.update_of_ne hkk, ← hy, Function.update_of_ne hki']
        exact hx
  rcases hrole with ⟨j, hr⟩ | ⟨c, via, hr⟩
  · obtain ⟨hji, hj⟩ := hg.hop hr
    have hnot : ¬(x j).Done := fun hdone => by
      have hout := hop_out hg hrun hr
      have hcl : (x j).out.2 = (x i).ended := congrArg Prod.snd hout
      rw [hopen] at hcl
      exact Bool.false_ne_true (hcl.symm.trans hdone.2)
    have hj' : g.role j ≠ none := by rw [hj]; nofun
    obtain ⟨s1, hforward, ht1, hs1⟩ :=
      forward_hop (s := { s with world := w' }) hd hg (h.tabled.inWorld w') hs' hr hopen hnot
      (n := 0) (hone j hj' hji hnot) m
    rw [onward_hop hr]
    exact key hj' hji hforward ht1 hs1
  · have hvia := hg.via hr
    have hvia' : g.role via ≠ none := by rw [hvia]; nofun
    have hki : via ≠ i := by
      rintro rfl
      exact hi.2 hvia
    have hnot : ¬(x via).Done := fun hdone => Bool.false_ne_true ((proxy_open hg hrun hvia).symm.trans hdone.1)
    obtain ⟨s1, hforward, ht1, hs1⟩ :=
      forward_caller (s := { s with world := w' }) hd hg (h.tabled.inWorld w') hs' hr hopen
      (n := 0) (hone via hvia' hki hnot) m
    rw [onward_caller hr]
    exact key hvia' hki hforward ht1 hs1

private theorem turn_end (hd : Duplex env.vt closed S) (hg : g.Fits env closed) (hrun : Run g.onward closed Q x)
    (h : Carries g env S x s) (hev : HandsOut S i s.world ev) (hq : (x i).unread = []) (hclosed : closed i = true)
    (hopen : (x i).ended = false)
    (hrole : (∃ j, g.role i = some (.hop j)) ∨ ∃ c via, g.role i = some (.caller c via)) :
    ∃ s', s.iteration env ev = .ok s' ∧ Carries g env S
      (deliver (g.onward i none) (Function.update x i { x i with ended := true })) s' := by
  have hi : g.role i ≠ none ∧ g.role i ≠ some .proxy := by
    rcases hrole with ⟨j, hr⟩ | ⟨c, via, hr⟩
    all_goals
      rw [hr]
      exact ⟨nofun, nofun⟩
  obtain ⟨r, hr⟩ := Option.ne_none_iff_exists'.1 hi.1
  have hname : env.instanceName ev.id ≠ literal ['P'] := by
    rw [hev.id]
    intro hn
    exact hi.2 (hr.trans (congrArg some ((hg.name hr).1 hn)))
  have hnoti : ¬(x i).Done := fun hdone => Bool.false_ne_true (hopen.symm.trans hdone.1)
  obtain ⟨users, hs, hn2, hone⟩ := h.handed hev hi.1 hnoti
  obtain ⟨w', hprobe, hs'⟩ := hs.read_end hd hi.1 (n := 1) hn2 hopen hq hclosed (u := ⟨some ev.id, true, false⟩)
    (congrArg some hev.id) rfl ev.size
  have hreal : (⟨some ev.id, false, false⟩ : HandleUser Nat).realHandle = some i := congrArg some hev.id
  have hdisp := (dispatch_process (s := s) hname hev.old).trans
    (message_end (s := { s with world := ev.world }) hprobe)
  rw [getID_real hreal] at hdisp
  generalize hy : Function.update x i { x i with ended := true } = y at *
  rcases hrole with ⟨j, hr⟩ | ⟨c, via, hr⟩
  · obtain ⟨hji, hj⟩ := hg.hop hr
    have hout : (x j).out.2 = (x i).ended := congrArg Prod.snd (hop_out hg hrun hr)
    have hout' : (x i).out.2 = (x j).ended := congrArg Prod.snd (hop_out hg hrun hj)
    have hnot : ¬(x j).Done := fun hdone => Bool.false_ne_true ((hout.trans hopen).symm.trans hdone.2)
    have hj' : g.role j ≠ none := by rw [hj]; nofun
    have ht' := h.tabled.inWorld w'
    obtain ⟨s1, m, hcloseHop, hs1, ht1, hm⟩ :=
      closeHop_shown (s := { s with world := w' }) hd hg ht' hopen hr hnot hy.symm
      hs' (hone j hj' hji hnot) hout'
    rw [onward_hop hr, deliver_some]
    rw [closeRoute_hop hg ht' hr hreal] at hdisp
    change _ = (closeHop env { s with world := w' } (env.address i) >>= _ : Except ProxyStop _) at hdisp
    rw [hcloseHop] at hdisp
    refine finish_unreadable (m := 1) hd hdisp hs1 ht1 hi.1 ?_ (.inl rfl) (fun k hk hki hdone => ?_) hreal rfl
    · rw [Function.update_of_ne (Ne.symm hji)]
      exact hn2
    · by_cases hkj : k = j
      · subst hkj
        rw [Function.update_self]
        exact hm.resolve_right hdone
      · rw [Function.update_of_ne hkj] at hdone ⊢
        rw [← hy, Function.update_of_ne hki] at hdone
        exact hone k hk hki hdone
  · have hvia := hg.via hr
    have hvia' : g.role via ≠ none := by rw [hvia]; nofun
    have hki : via ≠ i := by
      rintro rfl
      exact hi.2 hvia
    have hnot : ¬(x via).Done := fun hdone => Bool.false_ne_true ((proxy_open hg hrun hvia).symm.trans hdone.1)
    obtain ⟨s1, m, hcloseRoute, hs1, ht1, hm⟩ :=
      closeRoute_caller (s := { s with world := w' }) hd hg (h.tabled.inWorld w')
      hopen hr hy.symm hs' hn2 (n := 0) (hone via hvia' hki hnot) hreal rfl
    rw [onward_caller hr, deliver_some]
    rw [hcloseRoute] at hdisp
    change _ = (closeHop env s1 (env.address i) >>= _ : Except ProxyStop _) at hdisp
    rw [closeHop_caller ht1 hr] at hdisp
    refine finish_unreadable (m := m) hd hdisp hs1 ht1 hi.1 (Function.update_self ..) hm
      (fun k hk hki' hdone => ?_) hreal rfl
    rw [Function.update_of_ne hki']
    refine hone k hk hki' fun hx => hdone ?_
    unfold Port.Done at hx ⊢
    by_cases hkv : k = via
    · subst hkv
      rw [Function.update_self, (put_some_flags _ _).1, (put_some_flags _ _).2, ← hy, Function.update_of_ne hki']
      exact hx
    · rw [Function.update_of_ne hkv, ← hy, Function.update_of_ne hki']
      exact hx

private theorem turn_frame (hd : Duplex env.vt closed S) (hg : g.Fits env closed) (hrun : Run g.onward closed Q x)
    (h : Carries g env S x s) (hev : HandsOut S i s.world ev) {b : Bytes} {q : List Bytes} (hq : (x i).unread = b :: q)
    (hr : g.role i = some .proxy) {f : ProxyFrame} (hf : ProxyFrame.ofBytes b = some f)
    (hconn : f.cmd ≠ Cmd.CONN.toByte) : ∃ s', s.iteration env ev = .ok s' ∧ Carries g env S
      (deliver (g.onward i (some b)) (Function.update x i { x i with got := (x i).got ++ [b], unread := q })) s' := by
  have hi : g.role i ≠ none := by rw [hr]; nofun
  have hopen := proxy_open hg hrun hr
  have hname : env.instanceName ev.id = literal ['P'] := by
    rw [hev.id]
    exact (hg.name hr).2 rfl
  obtain ⟨users, hs, hn2, hone⟩ := h.handed hev hi fun hdone => Bool.false_ne_true (hopen.symm.trans hdone.1)
  obtain ⟨-, u', w', htakes, hu', hread', hs'⟩ := hs.read_message hd hi (n := 1) hn2 hopen hq
    (u := ⟨some ev.id, true, false⟩) (congrArg some hev.id) rfl ev
  have hdisp := (dispatch_proxy (s := s) hname hev.old).trans (frame_eq (s := { s with world := ev.world }) htakes)
  rw [hf] at hdisp
  change _ = ({ s with world := w' } : Proxy W).obey env u' f at hdisp
  rw [onward_proxy hr hf]
  generalize hy : Function.update x i { x i with got := (x i).got ++ [b], unread := q } = y at *
  have hyk : ∀ k, (y k).ended = (x k).ended ∧ (y k).out = (x k).out := by
    intro k
    rw [← hy]
    by_cases hki : k = i
    · subst hki
      rw [Function.update_self]
      exact ⟨rfl, rfl⟩
    · rw [Function.update_of_ne hki]
      exact ⟨rfl, rfl⟩
  have ht' := h.tabled.inWorld w'
  have hty : Tabled g env y { s with world := w' } := by
    refine ht'.ends (fun k hk => (hyk k).1.trans hk) fun k => ?_
    unfold Port.Done
    rw [(hyk k).1, (hyk k).2]
  have honey : ∀ k, g.role k ≠ none → k ≠ i → ¬(y k).Done → users k = 1 := by
    intro k hk hki hdone
    refine hone k hk hki fun hx => hdone ?_
    unfold Port.Done at hx ⊢
    rw [(hyk k).1, (hyk k).2]
    exact hx
  have hyi : (y i).ended = false := (hyk i).1.trans hopen
  unfold obey at hdisp
  cases ht : g.target f.identifier with
  | none =>
    -- nobody has this ID: whatever the frame is, it is lost
    have hunknown : f.identifier ∉ s.loc2connID.valueTree.elems := h.tabled.unknown fun k hk => by
      rw [ht] at hk
      cases hk
    have hlost : s.dispatch env ev = .ok (u', { s with world := w' }) := by
      rw [hdisp]
      unfold frameEOS frameFWD
      dsimp only
      rw [if_neg hunknown, if_neg hunknown, if_neg hconn, ite_self, ite_self]
      rfl
    exact finish_readable hd hlost hs' hty hi hn2 hyi honey hu' hread'
  | some j =>
    obtain ⟨rj, hrj, hcj⟩ := hg.target.1 ht
    have hj : g.role j ≠ none := by rw [hrj]; nofun
    have hji : j ≠ i := by
      rintro rfl
      rw [hr] at hrj
      cases hrj
      cases hcj
    have hnj : ¬(x j).Done → users j = 1 := hone j hj hji
    by_cases heos : f.cmd = Cmd.EOS.toByte
    · have hitem : f.item = some none := if_pos heos
      rw [hitem, Option.bind_some, Option.map_some, deliver_some]
      rw [if_pos heos] at hdisp
      obtain ⟨s1, m, hcall, hs1, ht1, hm⟩ := frameEOS_shown (s := { s with world := w' }) hd hg ht' ht hs' hyk hnj rfl
      rw [hcall] at hdisp
      refine finish_readable hd (u := u') hdisp hs1 ht1 hi ?_ ?_ (fun k hk hki hdone => ?_) hu' hread'
      · rw [Function.update_of_ne (Ne.symm hji)]
        exact hn2
      · rw [Function.update_of_ne (Ne.symm hji)]
        exact hyi
      · by_cases hkj : k = j
        · subst hkj
          rw [Function.update_self]
          exact hm.resolve_right hdone
        · rw [Function.update_of_ne hkj] at hdone ⊢
          exact honey k hk hki hdone
    · by_cases hfwd : f.cmd = Cmd.FWD.toByte
      · have hitem : f.item = some (some f.payload) := by
          unfold ProxyFrame.item
          rw [if_neg heos, if_pos hfwd]
        rw [hitem, Option.bind_some, Option.map_some, deliver_some]
        rw [if_neg heos, if_pos hfwd] at hdisp
        obtain ⟨s1, hcall, ht1, hs1⟩ := frameFWD_shown (s := { s with world := w' }) hd hg ht' ht hs'
          (hyk j).2 hnj f.payload
        rw [hcall] at hdisp
        refine finish_readable hd (u := u') hdisp hs1 (message_tabled ht1 hy.symm).1 hi hn2 ?_
          (fun k hk hki hdone => ?_) hu' hread'
        · rw [Function.update_of_ne (Ne.symm hji)]
          exact hyi
        · refine honey k hk hki fun hyd => hdone ?_
          unfold Port.Done at hyd ⊢
          by_cases hkj : k = j
          · subst hkj
            rw [Function.update_self, (put_some_flags _ _).1, (put_some_flags _ _).2]
            exact hyd
          · rw [Function.update_of_ne hkj]
            exact hyd
      · have hitem : f.item = none := by
          unfold ProxyFrame.item
          rw [if_neg heos, if_neg hfwd]
        rw [hitem, Option.bind_some, Option.map_none]
        rw [if_neg heos, if_neg hfwd, if_neg hconn] at hdisp
        exact finish_readable hd (u := u') hdisp hs' hty hi hn2 hyi honey hu' hread'

/-- An iteration for a handle that the proxy serves, and from which there is something to read, returns, and the
proxy stands where the switch stands that has read the same. -/
theorem turn_carries (hd : Duplex env.vt closed S) (hg : g.Fits env closed) (hrun : Run g.onward closed Q x)
    (h : Carries g env S x s) (hserves : g.Serves x i) {x' : Nat → Port Bytes}
    (hstep : step g.onward closed i x = some x') (hev : HandsOut S i s.world ev) :
    ∃ s', s.iteration env ev = .ok s' ∧ Carries g env S x' s' := by
  obtain ⟨m, p, hr, rfl⟩ := step_eq_some.1 hstep
  unfold Wiring.Serves at hserves
  have hopenof : ∀ {b q}, (x i).unread = b :: q → (x i).ended = false := by
    intro b q hq
    cases he : (x i).ended with
    | false => rfl
    | true =>
      rw [((hrun.read i).2 he).1] at hq
      cases hq
  have hprocess : (∃ j, g.role i = some (.hop j)) ∨ (∃ c via, g.role i = some (.caller c via)) →
      ∃ s', s.iteration env ev = .ok s' ∧ Carries g env S (deliver (g.onward i m) (Function.update x i p)) s' := by
    intro hrole
    rcases read_cases hr with ⟨b, q, rfl, hq, rfl⟩ | ⟨rfl, hq, hclosed, hopen, rfl⟩
    · exact turn_message hd hg hrun h hev hq (hopenof hq) hrole
    · exact turn_end hd hg hrun h hev hq hclosed hopen hrole
  split at hserves
  · rename_i j hj
    exact hprocess (.inl ⟨j, hj⟩)
  · rename_i c via hc
    exact hprocess (.inr ⟨c, via, hc⟩)
  · rename_i hproxy
    rcases read_cases hr with ⟨b, q, rfl, hq, rfl⟩ | ⟨-, -, hclosed, -⟩
    · obtain ⟨f, hf, hconn⟩ := hserves b q hq
      exact turn_frame hd hg hrun h hev hq hproxy hf hconn
    · rw [hg.endless hproxy] at hclosed
      cases hclosed
  · exact hserves.elim

end Proxy

end Mtcl
