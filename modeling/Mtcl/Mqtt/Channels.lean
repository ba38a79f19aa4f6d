import Mathlib.Tactic.IntervalCases
import Mtcl.Mqtt.Invariant
import Mtcl.MqttCalls

/-!
# Connections over a broker

Every step of the processes keeps the invariant, and so what a handle gets are the publications of its counterpart.
-/

namespace Mtcl.Mqtt

open Broker

variable {β : Type} {X : Exchange β Bytes Bytes Bytes} {w w' : Mqtt X} {i j : Nat}

/-! ### The beginning -/

variable {b : β} {size : Nat} {names : Nat → Bytes}

private theorem start_spec (hX : X.Reliable) (hfresh : X.fresh b) (size : Nat) (names : Nat → Bytes) (n : Nat) :
    let w := (List.range n).foldl (fun w p => (w.init p (names p)).2)
      ({ size := size, broker := { state := b } } : Mqtt X)
    w.size = size ∧ w.count = (fun _ => 0) ∧ w.pending = [] ∧ w.allocated = 0 ∧ w.broker.log = [] ∧
      w.broker.since = (fun _ _ => none) ∧ w.broker.Traced ∧ (∀ p < n, w.appName p = names p ++ literal [':']) ∧
      ∀ c, w.broker.session c = true → ∃ p < n, c = names p ++ literal [':'] := by
  induction n with
  | zero => exact ⟨rfl, rfl, rfl, rfl, rfl, rfl, .fresh hfresh, nofun, nofun⟩
  | succ n ih =>
    rw [List.range_succ, List.foldl_append]
    obtain ⟨h1, h2, h3, h4, h5, h6, h7, h8, h9⟩ := ih
    generalize (List.range n).foldl (fun w p => (w.init p (names p)).2)
      ({ size := size, broker := { state := b } } : Mqtt X) = w at *
    show (w.init n (names n)).2.size = size ∧ _
    refine ⟨h1, h2, h3, h4, (connect_log ..).trans h5, ?_, h7.connect _ _, ?_, ?_⟩
    · funext c
      show (w.broker.connect (names n ++ literal [':']) true).2.since c = _
      by_cases hc : c = names n ++ literal [':']
      · rw [hc]
        exact (connect_new hX h7 (Or.inl rfl)).2.1
      · rw [connect_since _ _ _ hc, h6]
    · intro p hp
      show Function.update w.appName n (names n ++ literal [':']) p = _
      by_cases hpn : p = n
      · rw [hpn, Function.update_self]
      · rw [Function.update_of_ne hpn]
        exact h8 p (Nat.lt_of_le_of_ne (Nat.le_of_lt_succ hp) hpn)
    · intro c hc
      change (w.broker.connect (names n ++ literal [':']) true).2.session c = true at hc
      rw [connect_session] at hc
      by_cases hcn : c = names n ++ literal [':']
      · exact ⟨n, Nat.lt_succ_self n, hcn⟩
      · rw [if_neg hcn] at hc
        obtain ⟨p, hp, he⟩ := h9 c hc
        exact ⟨p, Nat.lt_succ_of_lt hp, he⟩

private theorem start_table (hX : X.Reliable) (hfresh : X.fresh b)
    (hnames : ∀ p < size, ∀ q < size, names p = names q → p = q) : (start X b size names).Table := by
  obtain ⟨h1, h2, h3, h4, -, -, -, h8, -⟩ := start_spec hX hfresh size names size
  change (start X b size names).size = size at h1
  change (start X b size names).count = _ at h2
  change (start X b size names).pending = _ at h3
  change (start X b size names).allocated = _ at h4
  change ∀ p < size, (start X b size names).appName p = _ at h8
  have hnone : ∀ i, ¬ i < (start X b size names).allocated := fun i hi => Nat.not_lt_zero i (h4 ▸ hi)
  have hissued : ∀ t, ¬ (start X b size names).Issued t := by
    rintro t ⟨p, -, n, hn, -⟩
    rw [h2] at hn
    exact Nat.not_lt_zero n hn
  constructor
  · intro p hp
    exact ⟨names p, h8 p (h1 ▸ hp)⟩
  · intro p hp q hq he
    rw [h1] at hp hq
    rw [h8 p hp, h8 q hq] at he
    exact hnames p hp q hq (List.append_cancel_right he)
  · exact fun i hi => absurd hi (hnone i)
  · exact fun i hi => absurd hi (hnone i)
  · exact fun i hi => absurd hi (hnone i)
  · exact fun i hi => absurd hi (hnone i)
  · rintro t ⟨i, hi, -⟩
    exact absurd hi (hnone i)
  · intro p t hp
    rw [h3] at hp
    cases hp
  · rw [h3]
    exact List.nodup_nil
  · exact fun t ht => absurd ht (hissued t)

private theorem start_posts (hX : X.Reliable) (hfresh : X.fresh b) : (start X b size names).Posts := by
  obtain ⟨h1, h2, h3, h4, h5, h6, h7, h8, h9⟩ := start_spec hX hfresh size names size
  change (start X b size names).size = size at h1
  change (start X b size names).count = _ at h2
  change (start X b size names).pending = _ at h3
  change (start X b size names).allocated = _ at h4
  change (start X b size names).broker.log = _ at h5
  change (start X b size names).broker.since = _ at h6
  change ∀ p < size, (start X b size names).appName p = _ at h8
  have hnone : ∀ i, ¬ i < (start X b size names).allocated := fun i hi => Nat.not_lt_zero i (h4 ▸ hi)
  constructor
  · exact h7
  · intro c hc
    obtain ⟨p, hp, he⟩ := h9 c hc
    exact Or.inl ⟨p, hp.trans_eq h1.symm, he.trans (h8 p hp).symm⟩
  · intro c t hs
    rw [h6] at hs
    cases hs
  · intro p _ q _ m hs
    rw [h6] at hs
    cases hs
  · rintro t ⟨p, -, n, hn, -⟩
    rw [h2] at hn
    exact absurd hn (Nat.not_lt_zero n)
  · rintro t ⟨i, hi, -⟩
    exact absurd hi (hnone i)
  · intro e he
    rw [h5] at he
    cases he
  · rw [h5]
    exact List.nodup_nil
  · exact fun i hi => absurd hi (hnone i)
  · exact fun i hi => absurd hi (hnone i)
  · intro p t hp
    rw [h3] at hp
    cases hp
  · exact fun i hi => absurd hi (hnone i)

/-! ### `listen` -/

private theorem Table.listen (ht : w.Table) (p : Nat) (s : Bytes) : (w.listen p s).2.Table := by
  unfold Mqtt.listen
  dsimp only
  split
  · exact ht
  · exact ⟨ht.1, ht.2, ht.3, ht.4, ht.5, ht.6, ht.7, ht.8, ht.9, ht.10⟩

private theorem Posts.listen (hb : w.Posts) (ht : w.Table) {p : Nat} (hp : p < w.size) {s : Bytes}
    (hc : w.Careful (.listen p s)) : (w.listen p s).2.Posts := by
  unfold Mqtt.listen
  dsimp only
  split
  · exact hb
  · have hsince := subscribe_since w.broker (w.appName p)
    have hkeep : ∀ {q m}, q < w.size → q ≠ p → (afterColon s ++ mqttConnectionTopic = m ++ mqttConnectionTopic) →
        ¬ (w.broker.since (w.appName q) (m ++ mqttConnectionTopic)).isSome := by
      intro q m hq hne hm hs
      rw [← hm, hc q hq hne] at hs
      cases hs
    constructor
    · exact hb.traced.subscribe _ _
    · exact hb.sessions
    · intro c t hs
      change (Broker.since (w.broker.subscribe _ _) c t).isSome = true at hs
      rw [hsince] at hs
      split at hs
      · rename_i he
        exact Or.inl ⟨p, hp, he.1, _, he.2⟩
      · exact hb.since c t hs
    · intro q hq q' hq' m hs hs'
      change (Broker.since (w.broker.subscribe _ _) (w.appName q) _).isSome = true at hs
      change (Broker.since (w.broker.subscribe _ _) (w.appName q') _).isSome = true at hs'
      rw [hsince] at hs hs'
      by_cases hqp : q = p
      · by_cases hqp' : q' = p
        · rw [hqp, hqp']
        · rw [if_neg fun he => hqp' (ht.named q' hq' p hp he.1)] at hs'
          split at hs
          · rename_i he
            exact absurd hs' (hkeep hq' hqp' he.2.symm)
          · exact hb.single q hq q' hq' m hs hs'
      · rw [if_neg fun he => hqp (ht.named q hq p hp he.1)] at hs
        split at hs'
        · rename_i he
          exact absurd hs (hkeep hq hqp he.2.symm)
        · exact hb.single q hq q' hq' m hs hs'
    · exact fun t hi => (hb.hearsOut t hi).subscribe _ _
    · exact fun t ha => (hb.hearsIn t ha).subscribe _ _
    · exact hb.log
    · exact hb.requests
    · exact hb.out
    · exact hb.accepted
    · exact hb.fresh
    · exact hb.acked

/-! ### `connect` -/

/-- The topic that `connect` makes up. -/
private def newTopic (w : Mqtt X) (p : Nat) : Bytes := w.appName p ++ literal (Nat.toDigits 10 (w.count p))

private theorem Table.newTopic_not_issued (ht : w.Table) {p : Nat} (hp : p < w.size) : ¬ w.Issued (w.newTopic p) := by
  rintro ⟨q, hq, n, hn, he⟩
  obtain ⟨s, hs⟩ := ht.names p hp
  obtain ⟨s', hs'⟩ := ht.names q hq
  unfold newTopic at he
  rw [hs, hs'] at he
  obtain ⟨hname, hnum⟩ := topic_injective he
  have hpq := ht.named p hp q hq ((hs.trans hname).trans hs'.symm)
  subst hpq
  rw [hnum] at hn
  exact Nat.lt_irrefl n hn

/-- The state behind a request to the name `m`. -/
private def requested (w : Mqtt X) (p : Nat) (m : Bytes) : Mqtt X :=
  { w with
    count := Function.update w.count p ((w.count p + 1) % 2 ^ 64)
    broker :=
      ((w.broker.connect (w.newTopic p) true).2.subscribe (w.newTopic p) (w.newTopic p ++ mqttOutSuffix)).publish
      (m ++ mqttConnectionTopic) (w.newTopic p)
    pending := w.pending ++ [(p, w.newTopic p)] }

private theorem connect_state (w : Mqtt X) (p : Nat) (address : Bytes) :
    (w.connect p address).2 = w ∨ (w.connect p address).2 = w.requested p (beforeColon address) := by
  unfold connect
  dsimp only
  split
  · exact Or.inl rfl
  · exact Or.inr rfl

private theorem issued_requested {p : Nat} (hp : p < w.size) (hcount : w.count p + 1 < 2 ^ 64) {m t : Bytes} :
    (w.requested p m).Issued t ↔ w.Issued t ∨ t = w.newTopic p := by
  have hmod : (w.count p + 1) % 2 ^ 64 = w.count p + 1 := Nat.mod_eq_of_lt hcount
  show (∃ q < w.size, ∃ n < Function.update w.count p ((w.count p + 1) % 2 ^ 64) q, t = _) ↔ _
  rw [hmod]
  constructor
  · rintro ⟨q, hq, n, hn, rfl⟩
    by_cases hqp : q = p
    · subst hqp
      rw [Function.update_self] at hn
      rcases Nat.lt_succ_iff_lt_or_eq.1 hn with hn | rfl
      · exact Or.inl ⟨q, hq, n, hn, rfl⟩
      · exact Or.inr rfl
    · rw [Function.update_of_ne hqp] at hn
      exact Or.inl ⟨q, hq, n, hn, rfl⟩
  · rintro (⟨q, hq, n, hn, rfl⟩ | rfl)
    · refine ⟨q, hq, n, ?_, rfl⟩
      by_cases hqp : q = p
      · subst hqp
        rw [Function.update_self]
        exact Nat.lt_succ_of_lt hn
      · rw [Function.update_of_ne hqp]
        exact hn
    · refine ⟨p, hp, w.count p, ?_, rfl⟩
      rw [Function.update_self]
      exact Nat.lt_succ_self _

private theorem Table.requested (ht : w.Table) {p : Nat} (hp : p < w.size)
    (hcount : w.count p + 1 < 2 ^ 64) (m : Bytes) : (w.requested p m).Table := by
  have hissued : ∀ {t}, (w.requested p m).Issued t ↔ w.Issued t ∨ t = w.newTopic p := issued_requested hp hcount
  have hnew := ht.newTopic_not_issued hp
  have hconn : ¬ w.Connected (w.newTopic p) := by
    rintro ⟨i, hi, -, he⟩
    exact hnew (he ▸ ht.issued i hi)
  constructor
  · exact ht.names
  · exact ht.named
  · exact fun i hi => hissued.2 (Or.inl (ht.issued i hi))
  · exact ht.owner
  · exact ht.stands
  · exact ht.once
  · exact ht.answered
  · intro q t hq
    rcases List.mem_append.1 hq with hq | hq
    · obtain ⟨h1, h2, h3⟩ := ht.pending q t hq
      exact ⟨h1, hissued.2 (Or.inl h2), h3⟩
    · cases List.mem_singleton.1 hq
      exact ⟨hp, hissued.2 (Or.inr rfl), hconn⟩
  · show ((w.pending ++ [(p, w.newTopic p)]).map Prod.snd).Nodup
    rw [List.map_append, List.nodup_append']
    refine ⟨ht.nodup, List.nodup_singleton _, ?_⟩
    rintro t ht' hm
    obtain ⟨⟨q, t'⟩, hq, rfl⟩ := List.mem_map.1 ht'
    have he : t' = w.newTopic p := List.mem_singleton.1 hm
    exact hnew (he ▸ (ht.pending q t' hq).2.1)
  · intro t hi
    rcases hissued.1 hi with hi | rfl
    · rcases ht.waits t hi with ⟨q, hq⟩ | h
      · exact Or.inl ⟨q, List.mem_append_left _ hq⟩
      · exact Or.inr h
    · exact Or.inl ⟨p, List.mem_append_right _ (List.mem_singleton_self _)⟩

/-- A publication on a topic of a handle is no request. -/
private theorem Table.outTopic_ne (ht : w.Table) (hi : i < w.allocated) (m : Bytes) :
    (w.ends i).outTopic ≠ m ++ mqttConnectionTopic := by
  obtain ⟨-, h2, -⟩ := ht.stands i hi
  obtain ⟨-, h1, h3⟩ := suffixes_ne (w.ends i).topic m
  rw [h2]
  cases (w.ends i).connects
  · exact h3
  · exact h1

private theorem Posts.request (hb : w.Posts) (ht : w.Table) {e : Bytes × Bytes} (he : e ∈ w.broker.log)
    (hr : isRequest e = true) : w.Issued e.2 := by
  rcases hb.log e he with ⟨-, h⟩ | ⟨i, hi, h⟩
  · exact h
  · obtain ⟨m, hm⟩ := List.isSuffixOf_iff_suffix.1 hr
    exact absurd (h.symm.trans hm.symm) (ht.outTopic_ne hi m)

private theorem Posts.requested (hX : X.Reliable) (hb : w.Posts) (ht : w.Table) {p : Nat} (hp : p < w.size)
    (hcount : w.count p + 1 < 2 ^ 64) (m : Bytes) : (w.requested p m).Posts := by
  have hissued : ∀ {t}, (w.requested p m).Issued t ↔ w.Issued t ∨ t = w.newTopic p := issued_requested hp hcount
  have hnew := ht.newTopic_not_issued hp
  have htable := ht.requested hp hcount m
  have hself : (w.requested p m).Issued (w.newTopic p) := hissued.2 (Or.inr rfl)
  have happ : ∀ {q}, q < w.size → w.appName q ≠ w.newTopic p := fun hq => (htable.issued_ne_appName hself hq).symm
  have hin : ∀ t, t ++ mqttInSuffix ≠ w.newTopic p := fun t he => Table.in_not_issued t (he ▸ hself)
  have hold : ∀ {t}, w.Issued t → t ≠ w.newTopic p := fun hi he => hnew (he ▸ hi)
  have hsince : ∀ c t, (w.requested p m).broker.since c t =
      if c = w.newTopic p then (if t = w.newTopic p ++ mqttOutSuffix then some w.broker.log.length else none)
      else w.broker.since c t :=
    fun c t => since_new hX hb.traced (Or.inl rfl) c _ t
  have htaken : ∀ {c}, c ≠ w.newTopic p → (w.requested p m).broker.taken c = w.broker.taken c :=
    fun hc => connect_taken w.broker _ true hc
  have htraced := (hb.traced.connect (w.newTopic p) true).subscribe (w.newTopic p) (w.newTopic p ++ mqttOutSuffix)
  have hlog : (w.requested p m).broker.log = w.broker.log ++ [(m ++ mqttConnectionTopic, w.newTopic p)] := by
    show (w.broker.connect (w.newTopic p) true).2.log ++ _ = _
    rw [connect_log]
  have hquiet : on (w.newTopic p ++ mqttOutSuffix) w.broker.log = [] := by
    refine hb.quiet_out ht ?_
    rintro ⟨j, hj, -, he⟩
    exact hnew (he ▸ ht.issued j hj)
  constructor
  · exact htraced.publish _ _
  · intro c hc
    change (w.broker.connect (w.newTopic p) true).2.session c = true at hc
    rw [connect_session] at hc
    by_cases he : c = w.newTopic p
    · exact Or.inr (Or.inl (he ▸ hself))
    · rw [if_neg he] at hc
      rcases hb.sessions c hc with h | h | h
      · exact Or.inl h
      · exact Or.inr (Or.inl (hissued.2 (Or.inl h)))
      · exact Or.inr (Or.inr h)
  · intro c t hs
    rw [hsince] at hs
    split at hs
    · rename_i hc
      split at hs
      · rename_i he
        exact Or.inr (Or.inl ⟨hc ▸ hself, hc ▸ he⟩)
      · cases hs
    · rcases hb.since c t hs with h | ⟨h1, h2⟩ | h
      · exact Or.inl h
      · exact Or.inr (Or.inl ⟨hissued.2 (Or.inl h1), h2⟩)
      · exact Or.inr (Or.inr h)
  · intro q hq q' hq' m' hs hs'
    have hkeep : ∀ {q}, q < w.size → (w.requested p m).broker.since ((w.requested p m).appName q)
        (m' ++ mqttConnectionTopic) =
        w.broker.since (w.appName q) (m' ++ mqttConnectionTopic) := fun hq => (hsince _ _).trans (if_neg (happ hq))
    rw [hkeep hq] at hs
    rw [hkeep hq'] at hs'
    exact hb.single q hq q' hq' m' hs hs'
  · intro t hi
    rcases hissued.1 hi with hi | rfl
    · exact (((hb.hearsOut t hi).connect (hold hi)).subscribe _ _).publish htraced _ _
    · exact (hears_new hX hb.traced (Or.inl rfl) hquiet).publish htraced _ _
  · intro t ha
    exact (((hb.hearsIn t ha).connect (hin t)).subscribe _ _).publish htraced _ _
  · intro e he
    rw [hlog] at he
    rcases List.mem_append.1 he with he | he
    · rcases hb.log e he with ⟨h1, h2⟩ | h
      · exact Or.inl ⟨h1, hissued.2 (Or.inl h2)⟩
      · exact Or.inr h
    · rw [List.mem_singleton.1 he]
      exact Or.inl ⟨⟨m, rfl⟩, hself⟩
  · rw [hlog, List.filter_append, List.map_append, List.nodup_append']
    refine ⟨hb.requests, (List.nodup_singleton _).sublist (List.filter_sublist.map _), ?_⟩
    · intro t h1 h2
      obtain ⟨e, he, rfl⟩ := List.mem_map.1 h1
      obtain ⟨e', he', hee⟩ := List.mem_map.1 h2
      have he' := List.mem_singleton.1 (List.mem_filter.1 he').1
      subst he'
      have he := List.mem_filter.1 he
      exact hold (hb.request ht he.1 he.2) hee.symm
  · intro i hi
    rw [hlog, on_append, on_single, if_neg fun he => ht.outTopic_ne hi m he.symm, List.append_nil]
    exact hb.out i hi
  · intro j hj hc
    obtain ⟨m', hm'⟩ := hb.accepted j hj hc
    refine ⟨m', ?_⟩
    show _ ∈ (w.requested p m).broker.taken (w.appName (w.ends j).owner)
    rw [htaken (happ (ht.owner j hj))]
    exact hm'
  · intro q t hq
    rcases List.mem_append.1 hq with hq | hq
    · rw [htaken (hold (ht.pending q t hq).2.1)]
      exact hb.fresh q t hq
    · cases List.mem_singleton.1 hq
      exact (connect_new hX hb.traced (Or.inl rfl)).2.2
  · intro i hi hc
    show (w.requested p m).broker.taken (w.ends i).topic ≠ []
    rw [htaken (hold (ht.issued i hi))]
    exact hb.acked i hi hc

/-! ### New handles -/

section

variable {h : HandleMQTT} {e : MqttEnd} {k : Nat}

private theorem newHandle_of_lt (hk : k < w.allocated) :
    (w.newHandle h e).ends k = w.ends k ∧ (w.newHandle h e).handles k = w.handles k :=
  ⟨Function.update_of_ne (Nat.ne_of_lt hk) .., Function.update_of_ne (Nat.ne_of_lt hk) ..⟩

private theorem newHandle_self :
    (w.newHandle h e).ends w.allocated = e ∧ (w.newHandle h e).handles w.allocated = h :=
  ⟨Function.update_self .., Function.update_self ..⟩

private theorem lt_newHandle (hk : k < (w.newHandle h e).allocated) : k < w.allocated ∨ k = w.allocated :=
  Nat.lt_succ_iff_lt_or_eq.1 hk

private theorem exists_newHandle {P : MqttEnd → Prop} :
    (∃ k < (w.newHandle h e).allocated, P ((w.newHandle h e).ends k)) ↔ (∃ k < w.allocated, P (w.ends k)) ∨ P e := by
  constructor
  · rintro ⟨k, hk, hP⟩
    rcases lt_newHandle hk with hk | rfl
    · rw [(newHandle_of_lt hk).1] at hP
      exact Or.inl ⟨k, hk, hP⟩
    · rw [newHandle_self.1] at hP
      exact Or.inr hP
  · rintro (⟨k, hk, hP⟩ | hP)
    · refine ⟨k, Nat.lt_succ_of_lt hk, ?_⟩
      rw [(newHandle_of_lt hk).1]
      exact hP
    · refine ⟨w.allocated, Nat.lt_succ_self _, ?_⟩
      rw [newHandle_self.1]
      exact hP

private theorem accepted_newHandle {t : Bytes} :
    (w.newHandle h e).Accepted t ↔ w.Accepted t ∨ e.connects = false ∧ e.topic = t :=
  exists_newHandle (P := fun e => e.connects = false ∧ e.topic = t)

private theorem connected_newHandle {t : Bytes} :
    (w.newHandle h e).Connected t ↔ w.Connected t ∨ e.connects = true ∧ e.topic = t :=
  exists_newHandle (P := fun e => e.connects = true ∧ e.topic = t)

private theorem forall_newHandle {P : Nat → MqttEnd → HandleMQTT → Prop}
    (hold : ∀ k < w.allocated, P k (w.ends k) (w.handles k)) (hnew : P w.allocated e h) :
    ∀ k < (w.newHandle h e).allocated, P k ((w.newHandle h e).ends k) ((w.newHandle h e).handles k) := by
  intro k hk
  rcases lt_newHandle hk with hk | rfl
  · rw [(newHandle_of_lt hk).1, (newHandle_of_lt hk).2]
    exact hold k hk
  · rw [newHandle_self.1, newHandle_self.2]
    exact hnew

/-- A new handle at an end that no other handle has; its call of `connect`, if it has one, does not wait any more. -/
private theorem Table.newHandle (ht : w.Table) (hissued : w.Issued e.topic) (howner : e.owner < w.size)
    (hstands : Stands e h)
    (honce : ∀ k < w.allocated, (w.ends k).topic = e.topic → (w.ends k).connects ≠ e.connects)
    (hanswered : e.connects = true → w.Accepted e.topic) {ps : List (Nat × Bytes)} (hps : ps.Sublist w.pending)
    (hpending : ∀ p t, (p, t) ∈ ps → e.connects = true → t ≠ e.topic)
    (hwaits : ∀ p t, (p, t) ∈ w.pending → (p, t) ∈ ps ∨ e.connects = true ∧ e.topic = t) :
    ({ w with pending := ps }.newHandle h e).Table := by
  constructor
  · exact ht.names
  · exact ht.named
  · exact forall_newHandle (P := fun _ e _ => w.Issued e.topic) ht.issued hissued
  · exact forall_newHandle (P := fun _ e _ => e.owner < w.size) ht.owner howner
  · exact forall_newHandle (P := fun _ e h => Stands e h) ht.stands hstands
  · intro i hi j hj htopic hc
    rcases lt_newHandle hi with hi | rfl <;> rcases lt_newHandle hj with hj | rfl
    · rw [(newHandle_of_lt hi).1, (newHandle_of_lt hj).1] at htopic hc
      exact ht.once i hi j hj htopic hc
    · rw [(newHandle_of_lt hi).1, newHandle_self.1] at htopic hc
      exact absurd hc (honce i hi htopic)
    · rw [(newHandle_of_lt hj).1, newHandle_self.1] at htopic hc
      exact absurd hc.symm (honce j hj htopic.symm)
    · rfl
  · intro t hc
    rcases connected_newHandle.1 hc with hc | ⟨hconn, rfl⟩
    · exact accepted_newHandle.2 (Or.inl (ht.answered t hc))
    · exact accepted_newHandle.2 (Or.inl (hanswered hconn))
  · intro p t hp
    obtain ⟨h1, h2, h3⟩ := ht.pending p t (hps.subset hp)
    refine ⟨h1, h2, fun hc => ?_⟩
    rcases connected_newHandle.1 hc with hc | ⟨hc, he⟩
    · exact h3 hc
    · exact hpending p t hp hc he.symm
  · exact ht.nodup.sublist (hps.map _)
  · intro t hi
    rcases ht.waits t hi with ⟨p, hp⟩ | h
    · rcases hwaits p t hp with hp | h
      · exact Or.inl ⟨p, hp⟩
      · exact Or.inr (connected_newHandle.2 (Or.inr h))
    · exact Or.inr (connected_newHandle.2 (Or.inl h))

end

/-! ### The end of `connect` -/

private def connectEnd (p : Nat) (t : Bytes) : MqttEnd :=
  { owner := p, client := t, outTopic := t ++ mqttInSuffix, topic := t, connects := true }

private theorem connected_eq_ok {p n : Nat} {t : Bytes} (h : w.connected p t = .ok (n, w')) :
    w.broker.queue t ≠ [] ∧ w' = { w with broker := w.broker.consume t, pending := w.pending.erase (p, t) }.newHandle
      { inTopic := t ++ mqttOutSuffix } (connectEnd p t) := by
  unfold connected at h
  split at h
  · cases h
  · rename_i hq
    cases h
    exact ⟨by rw [hq]; exact List.cons_ne_nil _ _, rfl⟩

private theorem Posts.accepted_of_queue (hX : X.Reliable) (hb : w.Posts) (ht : w.Table) {t : Bytes}
    (hi : w.Issued t) (hq : w.broker.queue t ≠ []) : w.Accepted t := by
  by_contra hnot
  have hgot := (hb.traced.serves hX).hears_only (hb.hearsOut t hi) fun t' hs => by
    rcases hb.since t t' hs with ⟨p, hp, he, -⟩ | ⟨-, h⟩ | ⟨t'', -, he, -⟩
    · exact absurd he (ht.issued_ne_appName hi hp)
    · exact h
    · exact absurd (he ▸ hi) (Table.in_not_issued t'')
  rw [hb.quiet_out ht hnot] at hgot
  exact hq (List.append_eq_nil_iff.1 hgot).2

private theorem Table.connected (hX : X.Reliable) (ht : w.Table) (hb : w.Posts) {p n : Nat} {t : Bytes}
    (hp : (p, t) ∈ w.pending) (h : w.connected p t = .ok (n, w')) : w'.Table := by
  obtain ⟨hq, rfl⟩ := connected_eq_ok h
  obtain ⟨howner, hissued, hnot⟩ := ht.pending p t hp
  have htable : ({ w with pending := w.pending.erase (p, t) }.newHandle { inTopic := t ++ mqttOutSuffix }
      (connectEnd p t)).Table := by
    refine ht.newHandle hissued howner ⟨rfl, rfl, rfl⟩ ?_
      (fun _ => hb.accepted_of_queue hX ht hissued hq) List.erase_sublist ?_ ?_
    · exact fun k hk htopic hc => hnot ⟨k, hk, hc, htopic⟩
    · intro q t' hq' _ he
      have he : t' = t := he
      subst he
      -- the topic waits in one call only
      have hmem := List.mem_of_mem_erase hq'
      have hqp := List.inj_on_of_nodup_map ht.nodup hmem hp rfl
      rw [hqp] at hq'
      exact (ht.nodup.of_map _).not_mem_erase hq'
    · intro q t' hq'
      by_cases he : t' = t
      · exact Or.inr ⟨rfl, he.symm⟩
      · exact Or.inl ((List.mem_erase_of_ne fun h => he (Prod.mk.inj h).2).2 hq')
  exact ⟨htable.1, htable.2, htable.3, htable.4, htable.5, htable.6, htable.7, htable.8, htable.9, htable.10⟩

private theorem Posts.connected (hb : w.Posts) (ht : w.Table) {p n : Nat} {t : Bytes} (hp : (p, t) ∈ w.pending)
    (h : w.connected p t = .ok (n, w')) : w'.Posts := by
  obtain ⟨hq, rfl⟩ := connected_eq_ok h
  obtain ⟨howner, hissued, hnot⟩ := ht.pending p t hp
  have haccepted : ∀ {t'}, ({ w with broker := w.broker.consume t, pending := w.pending.erase (p, t) }.newHandle
      { inTopic := t ++ mqttOutSuffix } (connectEnd p t)).Accepted t' ↔ w.Accepted t' := by
    intro t'
    refine accepted_newHandle.trans ⟨?_, Or.inl⟩
    rintro (h | ⟨h, -⟩)
    · exact h
    · cases h
  have htaken := consume_taken w.broker t
  constructor
  · exact hb.traced.consume _
  · intro c hc
    rcases hb.sessions c hc with h | h | ⟨t', ha, he⟩
    · exact Or.inl h
    · exact Or.inr (Or.inl h)
    · exact Or.inr (Or.inr ⟨t', haccepted.2 ha, he⟩)
  · intro c t' hs
    rcases hb.since c t' hs with h | h | ⟨t'', ha, he⟩
    · exact Or.inl h
    · exact Or.inr (Or.inl h)
    · exact Or.inr (Or.inr ⟨t'', haccepted.2 ha, he⟩)
  · exact hb.single
  · exact hb.hearsOut
  · exact fun t' ha => hb.hearsIn t' (haccepted.1 ha)
  · intro e he
    rcases hb.log e he with h | h
    · exact Or.inl h
    · exact Or.inr ((exists_newHandle (P := fun x => e.1 = x.outTopic)).2 (Or.inl h))
  · exact hb.requests
  · refine forall_newHandle (P := fun _ e h => on e.outTopic w.broker.log = greeting e ++
      h.published.map (e.outTopic, ·)) hb.out ?_
    exact hb.quiet_in ht hnot
  · intro j hj hc
    rcases lt_newHandle hj with hj | rfl
    · rw [(newHandle_of_lt hj).1] at hc ⊢
      obtain ⟨m, hm⟩ := hb.accepted j hj hc
      refine ⟨m, ?_⟩
      show _ ∈ (w.broker.consume t).taken (w.appName (w.ends j).owner)
      rw [htaken, if_neg (ht.issued_ne_appName hissued (ht.owner j hj)).symm]
      exact hm
    · rw [newHandle_self.1] at hc
      cases hc
  · intro q t' hq'
    have hmem := List.mem_of_mem_erase hq'
    have hne : t' ≠ t := by
      rintro rfl
      have hqp := List.inj_on_of_nodup_map ht.nodup hmem hp rfl
      rw [hqp] at hq'
      exact (ht.nodup.of_map _).not_mem_erase hq'
    show (w.broker.consume t).taken t' = []
    rw [htaken, if_neg hne]
    exact hb.fresh q t' hmem
  · refine forall_newHandle (P := fun _ e _ => e.connects = true → (w.broker.consume t).taken e.topic ≠ []) ?_ ?_
    · intro i hi hc
      rw [htaken, if_neg fun he => hnot ⟨i, hi, hc, he⟩]
      exact hb.acked i hi hc
    · intro _ hnil
      change (w.broker.consume t).taken t = [] at hnil
      rw [htaken, if_pos rfl, List.append_eq_nil_iff, List.take_eq_nil_iff] at hnil
      rcases hnil.2 with h | h
      · cases h
      · exact hq h

/-! ### `update` -/

private def updateEnd (p : Nat) (t : Bytes) : MqttEnd :=
  { owner := p, client := t ++ mqttInSuffix, outTopic := t ++ mqttOutSuffix, topic := t }

/-- The state behind a request that has been dropped. -/
private def dropped (w : Mqtt X) (p : Nat) : Mqtt X := { w with broker := w.broker.consume (w.appName p) }

/-- The state behind a request for `t` that has been accepted. -/
private def answeredState (w : Mqtt X) (p : Nat) (t : Bytes) : Mqtt X :=
  { w with
    broker := (createClient (w.broker.consume (w.appName p)) (t ++ mqttInSuffix)).publish
      (t ++ mqttOutSuffix) mqttAck }.newHandle
    { inTopic := t ++ mqttInSuffix, ready := 1 } (updateEnd p t)

private theorem accept_state (w : Mqtt X) (p : Nat) :
    w.accept p = w ∨ w.accept p = w.dropped p ∨
      ∃ e rest, w.broker.queue (w.appName p) = e :: rest ∧ w.accept p = w.answeredState p e.2 := by
  unfold accept
  split
  · exact Or.inl rfl
  · rename_i t payload rest hq
    dsimp only
    split
    · exact Or.inr (Or.inr ⟨_, rest, hq, rfl⟩)
    · exact Or.inr (Or.inl rfl)

private theorem Table.dropped (ht : w.Table) (p : Nat) : (w.dropped p).Table :=
  ⟨ht.1, ht.2, ht.3, ht.4, ht.5, ht.6, ht.7, ht.8, ht.9, ht.10⟩

private theorem Posts.dropped (hb : w.Posts) (ht : w.Table) {p : Nat} (hp : p < w.size) : (w.dropped p).Posts := by
  have htaken : ∀ {c}, c ≠ w.appName p → (w.dropped p).broker.taken c = w.broker.taken c :=
    fun hc => (consume_taken w.broker _ _).trans (if_neg hc)
  constructor
  · exact hb.traced.consume _
  · exact hb.sessions
  · exact hb.since
  · exact hb.single
  · exact hb.hearsOut
  · exact hb.hearsIn
  · exact hb.log
  · exact hb.requests
  · exact hb.out
  · intro j hj hc
    obtain ⟨m, hm⟩ := hb.accepted j hj hc
    refine ⟨m, ?_⟩
    show _ ∈ (w.broker.consume (w.appName p)).taken (w.appName (w.ends j).owner)
    rw [consume_taken]
    split
    · rename_i he
      exact List.mem_append_left _ (he ▸ hm)
    · exact hm
  · intro q t hq
    rw [htaken (ht.issued_ne_appName (ht.pending q t hq).2.1 hp)]
    exact hb.fresh q t hq
  · intro i hi hc
    show (w.dropped p).broker.taken (w.ends i).topic ≠ []
    rw [htaken (ht.issued_ne_appName (ht.issued i hi) hp)]
    exact hb.acked i hi hc

/-- The next request of a process is for a topic that has been made up and that nobody has accepted. -/
private theorem Posts.next_request (hX : X.Reliable) (hb : w.Posts) (ht : w.Table) {p : Nat} (hp : p < w.size)
    {e : Bytes × Bytes} {rest : List (Bytes × Bytes)} (hq : w.broker.queue (w.appName p) = e :: rest) :
    (∃ m, e.1 = m ++ mqttConnectionTopic) ∧ w.Issued e.2 ∧ ¬ w.Accepted e.2 := by
  have hqueue : e ∈ w.broker.queue (w.appName p) := by
    rw [hq]
    exact List.mem_cons_self ..
  have hgot : e ∈ w.broker.got (w.appName p) := List.mem_append_right _ hqueue
  have hserves := hb.traced.serves hX
  have hsome := hserves.only _ _ hgot
  have hconn : ∃ m, e.1 = m ++ mqttConnectionTopic := by
    rcases hb.since _ _ hsome with ⟨-, -, -, h⟩ | ⟨hi, -⟩ | ⟨t, -, he, -⟩
    · exact h
    · exact absurd rfl (ht.issued_ne_appName hi hp)
    · exact absurd he.symm (ht.in_ne_appName t hp)
  have hlogged : ∀ {c e}, e ∈ w.broker.got c → e ∈ w.broker.log :=
    fun h => (mem_on.1 ((hserves.on_sublist _ _).subset (mem_on.2 ⟨h, rfl⟩))).1
  have hreq : ∀ {e : Bytes × Bytes}, e ∈ w.broker.log → (∃ m, e.1 = m ++ mqttConnectionTopic) →
      e ∈ w.broker.log.filter isRequest := by
    rintro e h ⟨m, hm⟩
    exact List.mem_filter.2 ⟨h, List.isSuffixOf_iff_suffix.2 ⟨m, hm.symm⟩⟩
  have hissued : w.Issued e.2 := hb.request ht (hlogged hgot) (List.mem_filter.1 (hreq (hlogged hgot) hconn)).2
  refine ⟨hconn, hissued, ?_⟩
  rintro ⟨j, hj, hc, htopic⟩
  -- the same request would have come twice
  obtain ⟨m', hm'⟩ := hb.accepted j hj hc
  have hgot' := List.mem_append_left (w.broker.queue (w.appName (w.ends j).owner)) hm'
  have hsame : e = (m' ++ mqttConnectionTopic, (w.ends j).topic) :=
    List.inj_on_of_nodup_map hb.requests (hreq (hlogged hgot) hconn) (hreq (hlogged hgot') ⟨m', rfl⟩) htopic.symm
  have howner : (w.ends j).owner = p := by
    refine hb.single _ (ht.owner j hj) p hp m' (hserves.only _ _ hgot') ?_
    rw [hsame] at hsome
    exact hsome
  rw [howner, ← hsame] at hm'
  have hnodup : (on e.1 (w.broker.got (w.appName p))).Nodup := by
    refine List.Nodup.sublist ((hserves.on_sublist _ _).trans ?_) (.of_map _ hb.requests)
    obtain ⟨m, hm⟩ := hconn
    refine List.monotone_filter_right _ fun x hx => ?_
    exact List.isSuffixOf_iff_suffix.2 ⟨m, ((of_decide_eq_true hx).trans hm).symm⟩
  unfold Broker.got at hnodup
  rw [on_append, List.nodup_append'] at hnodup
  exact hnodup.2.2 (mem_on.2 ⟨hm', rfl⟩) (mem_on.2 ⟨hqueue, rfl⟩)

/-- The broker behind `createClient` and the answer. -/
private def answeredBroker (b : Broker X) (t : Bytes) : Broker X :=
  (createClient b (t ++ mqttInSuffix)).publish (t ++ mqttOutSuffix) mqttAck

private theorem answeredBroker_eq (hX : X.Reliable) {b : Broker X} (hb : b.Traced) {t : Bytes}
    (h : b.session (t ++ mqttInSuffix) = false) :
    answeredBroker b t =
      ((b.connect (t ++ mqttInSuffix) false).2.subscribe (t ++ mqttInSuffix) (t ++ mqttInSuffix)).publish
        (t ++ mqttOutSuffix) mqttAck := by
  unfold answeredBroker createClient
  dsimp only
  rw [(connect_new hX hb (Or.inr h)).1]
  rfl

section

variable {p : Nat} {e : Bytes × Bytes} {rest : List (Bytes × Bytes)}

private theorem Table.answeredState (hX : X.Reliable) (ht : w.Table) (hb : w.Posts) (hp : p < w.size)
    (hq : w.broker.queue (w.appName p) = e :: rest) : (w.answeredState p e.2).Table := by
  obtain ⟨-, hissued, hnot⟩ := hb.next_request hX ht hp hq
  have htable : ({ w with pending := w.pending }.newHandle { inTopic := e.2 ++ mqttInSuffix, ready := 1 }
    (updateEnd p e.2)).Table := by
    refine ht.newHandle hissued hp ⟨rfl, rfl, rfl⟩ ?_ ?_ (List.Sublist.refl _) ?_ fun _ _ hp => Or.inl hp
    · exact fun k hk htopic hc => hnot ⟨k, hk, hc, htopic⟩
    · intro hc
      cases hc
    · intro _ _ _ hc
      cases hc
  exact ⟨htable.1, htable.2, htable.3, htable.4, htable.5, htable.6, htable.7, htable.8, htable.9, htable.10⟩

private theorem Posts.no_session (hb : w.Posts) (ht : w.Table) {t : Bytes} (hnot : ¬ w.Accepted t) :
    w.broker.session (t ++ mqttInSuffix) = false := by
  refine Bool.eq_false_iff.2 fun hs => ?_
  rcases hb.sessions _ hs with ⟨q, hq, he⟩ | h | ⟨t', ha, he⟩
  · exact ht.in_ne_appName t hq he
  · exact Table.in_not_issued t h
  · exact hnot (List.append_cancel_right he ▸ ha)

private theorem Posts.answeredState (hX : X.Reliable) (hb : w.Posts) (ht : w.Table) (hp : p < w.size)
    (hq : w.broker.queue (w.appName p) = e :: rest) : (w.answeredState p e.2).Posts := by
  obtain ⟨⟨m, hm⟩, hissued, hnot⟩ := hb.next_request hX ht hp hq
  have hdropped := hb.dropped ht hp
  have hnone : (w.dropped p).broker.session (e.2 ++ mqttInSuffix) = false := hb.no_session ht hnot
  have hbroker : (w.answeredState p e.2).broker = answeredBroker (w.dropped p).broker e.2 := rfl
  rw [answeredBroker_eq hX hdropped.traced hnone] at hbroker
  have htraced := (hdropped.traced.connect (e.2 ++ mqttInSuffix) false).subscribe (e.2 ++ mqttInSuffix)
    (e.2 ++ mqttInSuffix)
  have hsince : ∀ c t, (w.answeredState p e.2).broker.since c t =
      if c = e.2 ++ mqttInSuffix then (if t = e.2 ++ mqttInSuffix then some w.broker.log.length else none)
      else w.broker.since c t := by
    rw [hbroker]
    exact fun c t => since_new hX hdropped.traced (Or.inr hnone) c _ t
  have htaken : ∀ {c}, c ≠ e.2 ++ mqttInSuffix →
      (w.answeredState p e.2).broker.taken c = (w.dropped p).broker.taken c := by
    rw [hbroker]
    exact fun hc => connect_taken (w.dropped p).broker _ false hc
  have hlog : (w.answeredState p e.2).broker.log = w.broker.log ++ [(e.2 ++ mqttOutSuffix, mqttAck)] := by
    rw [hbroker]
    show ((w.dropped p).broker.connect (e.2 ++ mqttInSuffix) false).2.log ++ _ = _
    rw [connect_log]
    rfl
  have happ : ∀ {q}, q < w.size → (w.answeredState p e.2).appName q ≠ e.2 ++ mqttInSuffix :=
    fun hq => (ht.in_ne_appName e.2 hq).symm
  have hprocess : ∀ {q}, q < w.size →
      (w.answeredState p e.2).broker.taken (w.appName q) = (w.dropped p).broker.taken (w.appName q) :=
    fun hq => htaken (happ hq)
  have hold : ∀ {t}, w.Issued t → t ≠ e.2 ++ mqttInSuffix := fun hi he => Table.in_not_issued e.2 (he ▸ hi)
  have hends : ∀ {k}, k < w.allocated → e.2 ++ mqttOutSuffix ≠ (w.ends k).outTopic := by
    intro k hk he
    obtain ⟨-, h2, -⟩ := ht.stands k hk
    cases hc : (w.ends k).connects with
    | true =>
      rw [h2, hc] at he
      exact (suffixes_ne _ _).1 he.symm
    | false =>
      rw [h2, hc] at he
      exact hnot ⟨k, hk, hc, (List.append_cancel_right he).symm⟩
  have haccepted : ∀ {t}, (w.answeredState p e.2).Accepted t ↔ w.Accepted t ∨ e.2 = t :=
    accepted_newHandle.trans ⟨fun h => h.imp_right And.right, fun h => h.imp_right fun h => ⟨rfl, h⟩⟩
  constructor
  · rw [hbroker]
    exact htraced.publish _ _
  · intro c hc
    rw [hbroker] at hc
    change ((w.dropped p).broker.connect (e.2 ++ mqttInSuffix) false).2.session c = true at hc
    rw [connect_session] at hc
    by_cases he : c = e.2 ++ mqttInSuffix
    · exact Or.inr (Or.inr ⟨e.2, haccepted.2 (Or.inr rfl), he⟩)
    · rw [if_neg he] at hc
      rcases hb.sessions c hc with h | h | ⟨t, ha, he'⟩
      · exact Or.inl h
      · exact Or.inr (Or.inl h)
      · exact Or.inr (Or.inr ⟨t, haccepted.2 (Or.inl ha), he'⟩)
  · intro c t hs
    rw [hsince] at hs
    split at hs
    · rename_i hc
      split at hs
      · rename_i he
        exact Or.inr (Or.inr ⟨e.2, haccepted.2 (Or.inr rfl), hc, he.trans hc.symm⟩)
      · cases hs
    · rcases hb.since c t hs with h | h | ⟨t', ha, he⟩
      · exact Or.inl h
      · exact Or.inr (Or.inl h)
      · exact Or.inr (Or.inr ⟨t', haccepted.2 (Or.inl ha), he⟩)
  · intro q hq q' hq' m' hs hs'
    rw [hsince, if_neg (happ hq)] at hs
    rw [hsince, if_neg (happ hq')] at hs'
    exact hb.single q hq q' hq' m' hs hs'
  · intro t hi
    rw [hbroker]
    exact (((hdropped.hearsOut t hi).connect (hold hi)).subscribe _ _).publish htraced _ _
  · intro t ha
    rw [hbroker]
    rcases haccepted.1 ha with ha | rfl
    · have hne : t ++ mqttInSuffix ≠ e.2 ++ mqttInSuffix := fun he => hnot (List.append_cancel_right he ▸ ha)
      exact (((hdropped.hearsIn t ha).connect hne).subscribe _ _).publish htraced _ _
    · exact (hears_new hX hdropped.traced (Or.inr hnone)
        (hb.quiet_in ht fun hc => hnot (ht.answered _ hc))).publish htraced _ _
  · intro x hx
    rw [hlog] at hx
    rcases List.mem_append.1 hx with hx | hx
    · rcases hb.log x hx with h | h
      · exact Or.inl h
      · exact Or.inr ((exists_newHandle (P := fun y => x.1 = y.outTopic)).2 (Or.inl h))
    · rw [List.mem_singleton.1 hx]
      exact Or.inr ((exists_newHandle (P := fun y => e.2 ++ mqttOutSuffix = y.outTopic)).2 (Or.inr rfl))
  · rw [hlog, List.filter_append]
    have hno : ([(e.2 ++ mqttOutSuffix, mqttAck)] : List (Bytes × Bytes)).filter isRequest = [] := by
      refine List.filter_eq_nil_iff.2 fun x hx hr => ?_
      rw [List.mem_singleton.1 hx] at hr
      obtain ⟨m', hm'⟩ := List.isSuffixOf_iff_suffix.1 hr
      exact (suffixes_ne e.2 m').2.2 hm'.symm
    rw [hno, List.append_nil]
    exact hb.requests
  · rw [hlog]
    refine forall_newHandle (P := fun _ x h => on x.outTopic (w.broker.log ++ [(e.2 ++ mqttOutSuffix, mqttAck)]) =
      greeting x ++ h.published.map (x.outTopic, ·)) ?_ ?_
    · intro k hk
      show on (w.ends k).outTopic (w.broker.log ++ _) = _
      rw [on_append, on_single, if_neg (hends hk), List.append_nil]
      exact hb.out k hk
    · show on (e.2 ++ mqttOutSuffix) (w.broker.log ++ _) = _
      rw [on_append, on_single, if_pos rfl, hb.quiet_out ht hnot]
      rfl
  · refine forall_newHandle (P := fun _ x _ => x.connects = false →
      ∃ m, (m ++ mqttConnectionTopic, x.topic) ∈ (w.answeredState p e.2).broker.taken (w.appName x.owner)) ?_ ?_
    · intro j hj hc
      change (w.ends j).connects = false at hc
      obtain ⟨m', hm'⟩ := hdropped.accepted j hj hc
      refine ⟨m', ?_⟩
      show _ ∈ (w.answeredState p e.2).broker.taken (w.appName (w.ends j).owner)
      rw [hprocess (ht.owner j hj)]
      exact hm'
    · refine fun _ => ⟨m, ?_⟩
      show _ ∈ (w.answeredState p e.2).broker.taken (w.appName p)
      rw [hprocess hp]
      show _ ∈ (w.broker.consume (w.appName p)).taken (w.appName p)
      rw [consume_taken, if_pos rfl, hq, ← hm]
      exact List.mem_append_right _ (List.mem_singleton_self _)
  · intro q t hq'
    rw [htaken (hold (ht.pending q t hq').2.1)]
    exact hdropped.fresh q t hq'
  · refine forall_newHandle (P := fun _ x _ => x.connects = true →
      (w.answeredState p e.2).broker.taken x.topic ≠ []) ?_ ?_
    · intro i hi hc
      show (w.answeredState p e.2).broker.taken (w.ends i).topic ≠ []
      rw [htaken (hold (ht.issued i hi))]
      exact hdropped.acked i hi hc
    · intro hc
      cases hc

end

/-! ### Calls -/

/-- What a call does to a handle, as far as the other side is concerned. -/
private structure Moves (h h' : HandleMQTT) : Prop where
  inTopic : h'.inTopic = h.inTopic
  published : h.published <+: h'.published

private theorem moves_receive {h h' : HandleMQTT} {size : Nat} {r : Ret} {bs : Bytes}
    (hcall : h.receive size = .ok (r, bs, h')) : Moves h h' := by
  unfold HandleMQTT.receive at hcall
  dsimp only at hcall
  split at hcall
  · split at hcall
    · cases hcall
    · cases hcall
      exact ⟨rfl, List.prefix_refl _⟩
  · obtain ⟨⟨bs', client⟩, -, hcall⟩ := bind_eq_ok.1 hcall
    cases hcall
    exact ⟨rfl, List.prefix_refl _⟩

private theorem moves_probe {g : Nat → UInt8} {h h' : HandleMQTT} {size size' : Nat} {blocking : Bool} {r : Ret}
    (hcall : h.probe g size blocking = .ok (r, size', h')) : Moves h h' := by
  unfold HandleMQTT.probe at hcall
  split at hcall
  · split at hcall
    · cases hcall
    · obtain ⟨bs, -, hcall⟩ := bind_eq_ok.1 hcall
      cases hcall
      exact ⟨rfl, List.prefix_refl _⟩
  · split at hcall
    · obtain ⟨⟨r', bs, h1⟩, hrec, hcall⟩ := bind_eq_ok.1 hcall
      cases hcall
      obtain ⟨h2, h3⟩ := moves_receive hrec
      exact ⟨h2, h3⟩
    · split at hcall
      · cases hcall
        exact ⟨rfl, List.prefix_refl _⟩
      · obtain ⟨bs, -, hcall⟩ := bind_eq_ok.1 hcall
        cases hcall
        exact ⟨rfl, List.prefix_refl _⟩

private theorem moves_receiveStep {h h' : HandleMQTT} {size : Nat} {p : Point} {x : Sum (Nat × Bytes) Point}
    (hcall : h.receiveStep size p = .ok (x, h')) : Moves h h' := by
  cases p with
  | reset =>
    cases hcall
    exact ⟨rfl, List.prefix_refl _⟩
  | look =>
    unfold HandleMQTT.receiveStep at hcall
    dsimp only at hcall
    split at hcall
    · cases hcall
      exact ⟨rfl, List.prefix_refl _⟩
    · split at hcall
      · cases hcall
      · cases hcall
        exact ⟨rfl, List.prefix_refl _⟩
  | take =>
    unfold HandleMQTT.receiveStep at hcall
    dsimp only at hcall
    split at hcall
    · cases hcall
      exact ⟨rfl, List.prefix_refl _⟩
    · split at hcall
      · obtain ⟨bs, -, hcall⟩ := bind_eq_ok.1 hcall
        cases hcall
        exact ⟨rfl, List.prefix_refl _⟩
      · cases hcall
        exact ⟨rfl, List.prefix_refl _⟩

private theorem moves_deleteUnused (h : HandleMQTT) : Moves h h.deleteUnused := by
  unfold HandleMQTT.deleteUnused
  split
  · exact ⟨rfl, List.prefix_refl _⟩
  · exact ⟨rfl, List.prefix_refl _⟩

private theorem moves_close (h : HandleMQTT) (closeWr closeRd : Bool) : Moves h (h.close closeWr closeRd) := by
  have hwr : ∀ h : HandleMQTT, Moves h
      (if closeWr && !h.closedWr then { h.sendEOS.2 with closedWr := true } else h) := by
    intro h
    split
    · exact ⟨rfl, List.prefix_append _ _⟩
    · exact ⟨rfl, List.prefix_refl _⟩
  have hrd : ∀ h : HandleMQTT, Moves h (if closeRd then { h with closedRd := true } else h) := by
    intro h
    split
    · exact ⟨rfl, List.prefix_refl _⟩
    · exact ⟨rfl, List.prefix_refl _⟩
  have hnotify : ∀ (h : HandleMQTT) (b : Bool), Moves h (h.notifyClose b) := by
    intro h b
    unfold HandleMQTT.notifyClose
    split
    · exact ⟨rfl, List.prefix_refl _⟩
    · exact ⟨rfl, List.prefix_refl _⟩
  have htrans : ∀ {h1 h2 h3 : HandleMQTT}, Moves h1 h2 → Moves h2 h3 → Moves h1 h3 :=
    fun h12 h23 => ⟨h23.1.trans h12.1, h12.2.trans h23.2⟩
  exact htrans (htrans (htrans (hwr h) (hrd _)) (hnotify _ _)) (moves_deleteUnused _)

private theorem moves_exec {g : Nat → UInt8} {h h' : HandleMQTT} {c : MqttCall} (hcall : h.exec g c = .ok h') :
    Moves h h' := by
  cases c with
  | send buff =>
    obtain ⟨x, hx, rfl⟩ := map_eq_ok hcall
    have hx := HandleMQTT.of_deref hx
    cases hx
    exact ⟨rfl, List.prefix_append _ _⟩
  | receive size =>
    obtain ⟨x, hx, rfl⟩ := map_eq_ok hcall
    exact moves_receive (HandleMQTT.receive_eq hx)
  | step size p =>
    obtain ⟨⟨x, h1⟩, hstep, hx⟩ := bind_eq_ok.1 (HandleMQTT.of_deref hcall)
    cases hx
    exact moves_receiveStep hstep
  | probe size blocking =>
    obtain ⟨x, hx, rfl⟩ := map_eq_ok hcall
    exact moves_probe (HandleMQTT.probe_eq hx)
  | yield =>
    have hx := HandleMQTT.of_deref hcall
    split at hx
    · cases hx
      exact ⟨rfl, List.prefix_refl _⟩
    · unfold HandleMQTT.notifyYield at hx
      split at hx
      · cases hx
        exact ⟨rfl, List.prefix_refl _⟩
      · split at hx
        · cases hx
        · cases hx
          exact ⟨rfl, List.prefix_refl _⟩
  | close closeWr closeRd =>
    rw [HandleMQTT.close_eq hcall]
    exact moves_close ..
  | incrementReferenceCounter =>
    have hx := HandleMQTT.of_deref hcall
    cases hx
    exact ⟨rfl, List.prefix_refl _⟩
  | decrementReferenceCounter =>
    have hx := HandleMQTT.of_deref hcall
    cases hx
    obtain ⟨h1, h2⟩ := moves_deleteUnused { h with counter := h.counter - 1 }
    exact ⟨h1, h2⟩

private theorem moves_update (h : HandleMQTT) : Moves h h.update := by
  unfold HandleMQTT.update
  split
  · split
    · exact ⟨rfl, List.prefix_refl _⟩
    · exact ⟨rfl, List.prefix_refl _⟩
  · exact ⟨rfl, List.prefix_refl _⟩

private theorem store_handles (w : Mqtt X) (i n k : Nat) (h : HandleMQTT) :
    (w.store i n h).handles k = if k = i then h else w.handles k := Function.update_apply ..

section

variable {h : HandleMQTT} {n : Nat}

private theorem Table.store (ht : w.Table) (hm : Moves (w.load i n) h) : (w.store i n h).Table := by
  refine ⟨ht.1, ht.2, ht.3, ht.4, fun k hk => ?_, ht.6, ht.7, ht.8, ht.9, ht.10⟩
  obtain ⟨h1, h2, h3⟩ := ht.stands k hk
  refine ⟨h1, h2, ?_⟩
  rw [store_handles]
  split
  · rename_i hki
    rw [hm.inTopic]
    subst hki
    exact h3
  · exact h3

private theorem Posts.store (hb : w.Posts) (ht : w.Table) (hi : i < w.allocated) (hm : Moves (w.load i n) h) :
    (w.store i n h).Posts := by
  obtain ⟨ms, hms⟩ := hm.published
  change (w.handles i).published ++ ms = h.published at hms
  have hbroker : ∃ k, (w.store i n h).broker = (w.broker.take (w.ends i).client k).publishAll
      (w.ends i).outTopic ms := by
    refine ⟨(w.load i n).client.length - h.client.length, ?_⟩
    show Broker.publishAll _ _ (h.published.drop (w.handles i).published.length) = _
    rw [← hms, List.drop_left]
  obtain ⟨k, hbroker⟩ := hbroker
  have htraced := hb.traced.take (w.ends i).client k
  obtain ⟨htakeSince, htakeSession, htakeLog⟩ := take_frame w.broker (w.ends i).client k
  obtain ⟨hallSince, hallSession, hallTaken⟩ :=
    publishAll_frame (w.broker.take (w.ends i).client k) (w.ends i).outTopic ms
  have hsince : (w.store i n h).broker.since = w.broker.since := by
    rw [hbroker, hallSince, htakeSince]
  have hlog : (w.store i n h).broker.log = w.broker.log ++ ms.map ((w.ends i).outTopic, ·) := by
    rw [hbroker, publishAll_log, htakeLog]
  have htaken : ∀ c, w.broker.taken c <+: (w.store i n h).broker.taken c ∧
      (c ≠ (w.ends i).client → (w.store i n h).broker.taken c = w.broker.taken c) := by
    intro c
    rw [hbroker, hallTaken]
    exact take_taken w.broker (w.ends i).client c k
  constructor
  · rw [hbroker]
    exact htraced.publishAll _ _
  · intro c hc
    rw [hbroker, hallSession, htakeSession] at hc
    exact hb.sessions c hc
  · intro c t hs
    rw [hsince] at hs
    exact hb.since c t hs
  · intro p hp q hq m hs hs'
    rw [hsince] at hs hs'
    exact hb.single p hp q hq m hs hs'
  · intro t hi
    rw [hbroker]
    exact ((hb.hearsOut t hi).take _ _).publishAll htraced _ _
  · intro t ha
    rw [hbroker]
    exact ((hb.hearsIn t ha).take _ _).publishAll htraced _ _
  · intro e he
    rw [hlog] at he
    rcases List.mem_append.1 he with he | he
    · exact hb.log e he
    · obtain ⟨m, -, rfl⟩ := List.mem_map.1 he
      exact Or.inr ⟨i, hi, rfl⟩
  · rw [hlog, List.filter_append]
    have hno : (ms.map ((w.ends i).outTopic, ·)).filter isRequest = [] := by
      refine List.filter_eq_nil_iff.2 fun e he hr => ?_
      obtain ⟨m, -, rfl⟩ := List.mem_map.1 he
      obtain ⟨m', hm'⟩ := List.isSuffixOf_iff_suffix.1 hr
      exact ht.outTopic_ne hi m' hm'.symm
    rw [hno, List.append_nil]
    exact hb.requests
  · intro k hk
    rw [hlog, on_append, on_map, store_handles]
    show on (w.ends k).outTopic w.broker.log ++ (if (w.ends i).outTopic = (w.ends k).outTopic then _ else _) =
      greeting (w.ends k) ++ _
    rw [hb.out k hk]
    by_cases hki : k = i
    · subst hki
      rw [if_pos rfl, if_pos rfl, ← hms, List.map_append, List.append_assoc]
      rfl
    · rw [if_neg hki, if_neg fun he => hki (ht.outTopic_injective hk hi he.symm), List.append_nil]
      rfl
  · intro j hj hc
    obtain ⟨m, hm'⟩ := hb.accepted j hj hc
    exact ⟨m, (htaken _).1.subset hm'⟩
  · intro p t hp
    rw [(htaken t).2]
    · exact hb.fresh p t hp
    · -- the handle of the call has not been made
      intro he
      obtain ⟨-, hissued, hnot⟩ := ht.pending p t hp
      cases hc : (w.ends i).connects with
      | true => exact hnot ⟨i, hi, hc, (he.trans (ht.stands_true hi hc).1).symm⟩
      | false => exact Table.in_not_issued _ (he.trans (ht.stands_false hi hc).1 ▸ hissued)
  · intro k hk hc hnil
    change (w.store i n h).broker.taken (w.ends k).topic = [] at hnil
    have hprefix := (htaken (w.ends k).topic).1
    rw [hnil] at hprefix
    exact hb.acked k hk hc (List.prefix_nil.1 hprefix)

/-! ### Steps and runs -/

private theorem keeps_accept (hX : X.Reliable) (ht : w.Table) (hb : w.Posts) {p : Nat} (hp : p < w.size) :
    (w.accept p).Table ∧ (w.accept p).Posts := by
  rcases accept_state w p with h | h | ⟨e, rest, hq, h⟩
  · rw [h]
    exact ⟨ht, hb⟩
  · rw [h]
    exact ⟨ht.dropped p, hb.dropped ht hp⟩
  · rw [h]
    exact ⟨ht.answeredState hX hb hp hq, hb.answeredState hX ht hp hq⟩

private theorem keeps_polls (ht : w.Table) (hb : w.Posts) {p : Nat} {come : Nat → Nat} {is : List Nat}
    (his : ∀ i ∈ is, i < w.allocated) : (is.foldl (pollEntry p come) w).Table ∧
      (is.foldl (pollEntry p come) w).Posts := by
  induction is generalizing w with
  | nil => exact ⟨ht, hb⟩
  | cons i is ih =>
    have hi := his i (List.mem_cons_self ..)
    have hrest : ∀ k ∈ is, k < w.allocated := fun k hk => his k (List.mem_cons_of_mem _ hk)
    rw [List.foldl_cons]
    unfold pollEntry
    split
    · exact ih (ht.store (moves_update _)) (hb.store ht hi (moves_update _)) hrest
    · exact ih ht hb hrest

/-- What a step keeps. -/
theorem keeps_step (hX : X.Reliable) {g : Nat → UInt8} {o : Op} (ht : w.Table) (hb : w.Posts)
    (hs : Step g o w w') (hc : w.Careful o) : w'.Table ∧ w'.Posts := by
  obtain ⟨hp, he⟩ := hs
  cases o with
  | listen p s =>
    cases he
    exact ⟨ht.listen p s, hb.listen ht hp.1 hc⟩
  | connect p address =>
    cases he
    rcases connect_state w p address with h | h
    · rw [h]
      exact ⟨ht, hb⟩
    · rw [h]
      exact ⟨ht.requested hp.1 hc _, hb.requested hX ht hp.1 hc _⟩
  | connected p t =>
    obtain ⟨⟨n, v⟩, hr, rfl⟩ := map_eq_ok he
    exact ⟨ht.connected hX hb hp hr, hb.connected ht hp hr⟩
  | update p asked come =>
    cases he
    unfold update
    dsimp only
    split
    · obtain ⟨ht', hb'⟩ := keeps_accept hX ht hb hp
      exact keeps_polls ht' hb' fun i hi => List.mem_range.1 hi
    · exact keeps_polls ht hb fun i hi => List.mem_range.1 hi
  | call i n c =>
    obtain ⟨h, hcall, rfl⟩ := map_eq_ok he
    have hm := moves_exec hcall
    exact ⟨ht.store hm, hb.store ht hp hm⟩

end

/-- At a reliable broker without sessions, in every run of processes with different names, in which no two
listen on the same name and `count` does not wrap around, what the client of a handle gets are the publications
of its counterpart, all of them and in order, and every `connect` that returns has been answered by the process
that listens on the name it has asked for. -/
theorem mqtt_private {β : Type} {X : Exchange β Bytes Bytes Bytes} (hX : X.Reliable) {g : Nat → UInt8} {w : Mqtt X}
    (h : Runs.Reach Starts (fun o w w' => Step g o w w' ∧ w.Careful o) w) : w.Private := by
  have hinv : w.Table ∧ w.Posts := by
    refine Runs.Reach.invariant (fun w => w.Table ∧ w.Posts) ?_ ?_ h
    · rintro w ⟨b, size, names, hfresh, -, hnames, rfl⟩
      exact ⟨start_table hX hfresh hnames, start_posts hX hfresh⟩
    · rintro o w w' ⟨ht, hb⟩ ⟨hs, hc⟩
      exact keeps_step hX ht hb hs hc
  exact hinv.1.private hX hinv.2

/-! ### Two processes -/

private abbrev board : Exchange (Memory Bytes Bytes Bytes) Bytes Bytes Bytes := .memory Bytes Bytes Bytes

/-- The processes `a` and `b`. -/
private def ab : Mqtt board := start board {} 2 fun p => if p = 0 then literal ['a'] else literal ['b']

/-- The second one listens on `m`, where the first one asks for a connection. -/
private def abAsked : Mqtt board := ((ab.listen 1 (literal ['m'])).2.connect 0 (literal ['m'])).2

private def abAccepted : Mqtt board := abAsked.update 1 true fun _ => 1

private def abConnected : Mqtt board :=
  { abAccepted with broker := abAccepted.broker.consume (literal ['a', ':', '0']), pending := [] }.newHandle
    { inTopic := literal ['a', ':', '0', '-', 'o', 'u', 't'] } (connectEnd 0 (literal ['a', ':', '0']))

private def abSent : Mqtt board := abConnected.store 1 0 ((abConnected.load 1 0).send [7]).2

/-- What is published through the handle of the first process comes to the client of the second one. -/
theorem mqtt_private_run :
    abSent.Private ∧ abSent.broker.queue (literal ['a', ':', '0', '-', 'i', 'n']) =
      [(literal ['a', ':', '0', '-', 'i', 'n'], Words.toBE sizeofSizeT 1),
        (literal ['a', ':', '0', '-', 'i', 'n'], [7])] := by
  have hstart : Starts ab := by
    refine ⟨{}, 2, _, rfl, ?_, ?_, rfl⟩
    · decide
    · decide
  have hlisten : ab.Careful (.listen 1 (literal ['m'])) := by
    intro q hq hne
    change q < 2 at hq
    interval_cases q
    · rfl
    · exact absurd rfl hne
  have hcount : (ab.listen 1 (literal ['m'])).2.count 0 + 1 < 2 ^ 64 := by decide
  have hpending : (0, literal ['a', ':', '0']) ∈ abAccepted.pending := by decide
  have h1 : Runs.Reach Starts (fun o w w' => Step (fun _ => 0) o w w' ∧ w.Careful o) (ab.listen 1 (literal ['m'])).2 :=
    .next (.listen 1 (literal ['m'])) (.start hstart) ⟨⟨⟨Nat.one_lt_two, by decide⟩, rfl⟩, hlisten⟩
  have h2 : Runs.Reach Starts (fun o w w' => Step (fun _ => 0) o w w' ∧ w.Careful o) abAsked :=
    .next (.connect 0 (literal ['m'])) h1 ⟨⟨⟨Nat.zero_lt_two, by decide⟩, rfl⟩, hcount⟩
  have h3 : Runs.Reach Starts (fun o w w' => Step (fun _ => 0) o w w' ∧ w.Careful o) abAccepted :=
    .next (.update 1 true fun _ => 1) h2 ⟨⟨Nat.one_lt_two, rfl⟩, trivial⟩
  have h4 : Runs.Reach Starts (fun o w w' => Step (fun _ => 0) o w w' ∧ w.Careful o) abConnected :=
    .next (.connected 0 (literal ['a', ':', '0'])) h3 ⟨⟨hpending, rfl⟩, trivial⟩
  have h5 : Runs.Reach Starts (fun o w w' => Step (fun _ => 0) o w w' ∧ w.Careful o) abSent :=
    .next (.call 1 0 (.send [7])) h4 ⟨⟨Nat.one_lt_two, rfl⟩, trivial⟩
  exact ⟨mqtt_private memory_reliable h5, by decide⟩

end Mtcl.Mqtt
