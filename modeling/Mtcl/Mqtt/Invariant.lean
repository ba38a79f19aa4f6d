import Mathlib.Data.List.Nodup
import Mtcl.ConnMqtt

/-!
# What connections over a broker promise

If no two processes have the same name, no two listen on the same name, and none makes more connections than
`count` can number (`Careful`), every connection has topics of its own: what the client of a handle gets are the
publications of the handle at the other side, all of them and in order, and `connect` returns with the answer of
the one process that listens.

The invariant has a part about the handles and the calls of `connect` that wait (`Table`), and one about the
broker (`Posts`).
-/

namespace Mtcl.Mqtt

open Broker

variable {β : Type} {X : Exchange β Bytes Bytes Bytes} {w w' : Mqtt X} {i j : Nat}

/-! ### Topics -/

/-- Two handles of one connection. -/
def Counterparts (w : Mqtt X) (i j : Nat) : Prop :=
  i < w.allocated ∧ j < w.allocated ∧ (w.ends i).outTopic = (w.handles j).inTopic ∧
    (w.ends j).outTopic = (w.handles i).inTopic

/-- What the client of a handle has taken since the handle exists. -/
def received (w : Mqtt X) (i : Nat) : List (Bytes × Bytes) :=
  if (w.ends i).connects then (w.broker.taken (w.ends i).client).tail else w.broker.taken (w.ends i).client

/-- Connections do not share topics: two handles never read from the same one.  What the client of a handle has
taken and what it has in its queue are the publications of the counterpart, in order; without a counterpart
there is nothing.  A handle made by `connect` has a counterpart, in a process that listens on the name to which
the request has gone, and `connect` has taken its answer; for a handle made by `update` the call of `connect`
still waits, or has made the counterpart. -/
structure Private (w : Mqtt X) : Prop where
  apart : ∀ i < w.allocated, ∀ j < w.allocated, (w.handles i).inTopic = (w.handles j).inTopic → i = j
  received : ∀ i j, w.Counterparts i j →
    w.received j ++ w.broker.queue (w.ends j).client = (w.handles i).published.map ((w.handles j).inTopic, ·)
  alone : ∀ j < w.allocated, (∀ i, ¬ w.Counterparts i j) → w.received j ++ w.broker.queue (w.ends j).client = []
  answered : ∀ i < w.allocated, (w.ends i).connects = true →
    (∃ rest, w.broker.taken (w.ends i).client = ((w.handles i).inTopic, mqttAck) :: rest) ∧
      ∃ j, w.Counterparts i j ∧ (w.ends j).connects = false ∧
        ∀ m, (m ++ mqttConnectionTopic, (w.ends i).topic) ∈ w.broker.log →
        (w.broker.since (w.appName (w.ends j).owner) (m ++ mqttConnectionTopic)).isSome
  waits : ∀ j < w.allocated, (w.ends j).connects = false →
    (∃ p, (p, (w.ends j).topic) ∈ w.pending) ∨ ∃ i, w.Counterparts i j ∧ (w.ends i).connects = true

/-- A process listens on a name on which no other one listens, and `count` does not wrap around. -/
def Careful (w : Mqtt X) : Op → Prop
  | .listen p s => ∀ q < w.size, q ≠ p → w.broker.since (w.appName q) (afterColon s ++ mqttConnectionTopic) = none
  | .connect p _ => w.count p + 1 < 2 ^ 64
  | _ => True

private theorem literal_toDigits_injective {m n : Nat}
    (h : literal (Nat.toDigits 10 m) = literal (Nat.toDigits 10 n)) : m = n := by
  have hback : ∀ n, (literal (Nat.toDigits 10 n)).map (fun b => Char.ofNat b.toNat) = Nat.toDigits 10 n := by
    intro n
    unfold literal
    rw [List.map_map]
    refine (List.map_congr_left fun c hc => ?_).trans (List.map_id _)
    have hd := Nat.isDigit_of_mem_toDigits (by decide) (by decide) hc
    have hlt : c.toNat < 256 := by
      simp only [Char.isDigit, Bool.and_eq_true, decide_eq_true_eq, UInt32.le_iff_toNat_le] at hd
      have : c.toNat ≤ 57 := hd.2
      omega
    show Char.ofNat (UInt8.ofNat c.toNat).toNat = c
    rw [UInt8.toNat_ofNat', Nat.mod_eq_of_lt hlt, Char.ofNat_toNat]
  have hm := congrArg (fun l : Bytes => Nat.ofDigitChars 10 (l.map fun b => Char.ofNat b.toNat) 0) h
  rwa [hback, hback, Nat.ofDigitChars_ten_toDigits, Nat.ofDigitChars_ten_toDigits] at hm

private theorem notMem_toDigits {c : Char} (h : 58 ≤ c.toNat) (hc : c.toNat < 256) (n : Nat) :
    UInt8.ofNat c.toNat ∉ literal (Nat.toDigits 10 n) := by
  intro hm
  have hle := (mem_numeral hm).2
  rw [UInt8.toNat_ofNat', Nat.mod_eq_of_lt hc] at hle
  omega

private theorem colon_notMem_toDigits (n : Nat) : UInt8.ofNat ':'.toNat ∉ literal (Nat.toDigits 10 n) :=
  notMem_toDigits (by decide) (by decide) n

/-- The last colon stands before the number. -/
theorem topic_injective {s s' : Bytes} {m n : Nat}
    (h : s ++ literal [':'] ++ literal (Nat.toDigits 10 m) = s' ++ literal [':'] ++ literal (Nat.toDigits 10 n)) :
    s ++ literal [':'] = s' ++ literal [':'] ∧ m = n := by
  have hnil : ∀ {s s' u d : Bytes}, UInt8.ofNat ':'.toNat ∉ u ++ d →
      s' ++ literal [':'] = s ++ literal [':'] ++ u → u = [] := by
    intro s s' u d hnot he
    by_contra hu
    have hlast := congrArg List.getLast? he
    rw [List.getLast?_append_of_ne_nil _ (by decide), List.getLast?_append_of_ne_nil _ hu] at hlast
    exact hnot (List.mem_append_left _ (List.mem_of_getLast? hlast.symm))
  rcases List.append_eq_append_iff.1 h with ⟨u, hs, hd⟩ | ⟨u, hs, hd⟩
  · have hu := hnil (hd ▸ colon_notMem_toDigits m) hs
    subst hu
    rw [List.append_nil] at hs
    exact ⟨hs.symm, literal_toDigits_injective hd⟩
  · have hu := hnil (hd ▸ colon_notMem_toDigits n) hs
    subst hu
    rw [List.append_nil] at hs
    exact ⟨hs, (literal_toDigits_injective hd).symm⟩

/-- Topics with different suffixes. -/
theorem suffixes_ne (s t : Bytes) :
    s ++ mqttInSuffix ≠ t ++ mqttOutSuffix ∧ s ++ mqttInSuffix ≠ t ++ mqttConnectionTopic ∧
      s ++ mqttOutSuffix ≠ t ++ mqttConnectionTopic := by
  have hend : ∀ {u v : Bytes}, (u.reverse.take 2 ≠ v.reverse.take 2) → 2 ≤ u.length → 2 ≤ v.length →
      s ++ u ≠ t ++ v := by
    intro u v hne hu hv he
    have he := congrArg (fun l => l.reverse.take 2) he
    simp only [List.reverse_append] at he
    rw [List.take_append_of_le_length (by simpa using hu), List.take_append_of_le_length (by simpa using hv)] at he
    exact hne he
  exact ⟨hend (by decide) (by decide) (by decide), hend (by decide) (by decide) (by decide),
    hend (by decide) (by decide) (by decide)⟩

/-! ### The invariant -/

/-- A topic that a process has made up for a connection. -/
def Issued (w : Mqtt X) (t : Bytes) : Prop :=
  ∃ p < w.size, ∃ n < w.count p, t = w.appName p ++ literal (Nat.toDigits 10 n)

/-- `update` has made a handle for the topic. -/
def Accepted (w : Mqtt X) (t : Bytes) : Prop := ∃ j < w.allocated, (w.ends j).connects = false ∧ (w.ends j).topic = t

/-- `connect` has made a handle for the topic. -/
def Connected (w : Mqtt X) (t : Bytes) : Prop := ∃ i < w.allocated, (w.ends i).connects = true ∧ (w.ends i).topic = t

/-- The handle `h` stands at its end of the connection. -/
structure Stands (e : MqttEnd) (h : HandleMQTT) : Prop where
  client : e.client = if e.connects then e.topic else e.topic ++ mqttInSuffix
  outTopic : e.outTopic = e.topic ++ if e.connects then mqttInSuffix else mqttOutSuffix
  inTopic : h.inTopic = e.topic ++ if e.connects then mqttOutSuffix else mqttInSuffix

/-- What `update` publishes before there is a handle. -/
def greeting (e : MqttEnd) : List (Bytes × Bytes) := if e.connects then [] else [(e.outTopic, mqttAck)]

/-- The processes, the handles and the calls of `connect` that wait. -/
structure Table (w : Mqtt X) : Prop where
  names : ∀ p < w.size, ∃ s, w.appName p = s ++ literal [':']
  named : ∀ p < w.size, ∀ q < w.size, w.appName p = w.appName q → p = q
  issued : ∀ i < w.allocated, w.Issued (w.ends i).topic
  owner : ∀ i < w.allocated, (w.ends i).owner < w.size
  stands : ∀ i < w.allocated, Stands (w.ends i) (w.handles i)
  once : ∀ i < w.allocated, ∀ j < w.allocated, (w.ends i).topic = (w.ends j).topic →
    (w.ends i).connects = (w.ends j).connects → i = j
  answered : ∀ t, w.Connected t → w.Accepted t
  pending : ∀ p t, (p, t) ∈ w.pending → p < w.size ∧ w.Issued t ∧ ¬ w.Connected t
  nodup : (w.pending.map Prod.snd).Nodup
  waits : ∀ t, w.Issued t → (∃ p, (p, t) ∈ w.pending) ∨ w.Connected t

/-- A publication on a topic to which processes listen. -/
def isRequest (e : Bytes × Bytes) : Bool := mqttConnectionTopic.isSuffixOf e.1

/-- The broker. -/
structure Posts (w : Mqtt X) : Prop where
  traced : w.broker.Traced
  sessions : ∀ c, w.broker.session c = true →
    (∃ p < w.size, c = w.appName p) ∨ w.Issued c ∨ ∃ t, w.Accepted t ∧ c = t ++ mqttInSuffix
  since : ∀ c t, (w.broker.since c t).isSome →
    (∃ p < w.size, c = w.appName p ∧ ∃ m, t = m ++ mqttConnectionTopic) ∨ w.Issued c ∧ t = c ++ mqttOutSuffix ∨
      ∃ t', w.Accepted t' ∧ c = t' ++ mqttInSuffix ∧ t = c
  single : ∀ p < w.size, ∀ q < w.size, ∀ m, (w.broker.since (w.appName p) (m ++ mqttConnectionTopic)).isSome →
    (w.broker.since (w.appName q) (m ++ mqttConnectionTopic)).isSome → p = q
  hearsOut : ∀ t, w.Issued t → w.broker.Hears t (t ++ mqttOutSuffix)
  hearsIn : ∀ t, w.Accepted t → w.broker.Hears (t ++ mqttInSuffix) (t ++ mqttInSuffix)
  log : ∀ e ∈ w.broker.log, (∃ m, e.1 = m ++ mqttConnectionTopic) ∧ w.Issued e.2 ∨ ∃ i < w.allocated,
    e.1 = (w.ends i).outTopic
  requests : ((w.broker.log.filter isRequest).map Prod.snd).Nodup
  out : ∀ i < w.allocated, on (w.ends i).outTopic w.broker.log =
    greeting (w.ends i) ++ (w.handles i).published.map ((w.ends i).outTopic, ·)
  accepted : ∀ j < w.allocated, (w.ends j).connects = false →
    ∃ m, (m ++ mqttConnectionTopic, (w.ends j).topic) ∈ w.broker.taken (w.appName (w.ends j).owner)
  fresh : ∀ p t, (p, t) ∈ w.pending → w.broker.taken t = []
  acked : ∀ i < w.allocated, (w.ends i).connects = true → w.broker.taken (w.ends i).topic ≠ []

namespace Table

variable (ht : w.Table)
include ht

theorem stands_true (hi : i < w.allocated) (hc : (w.ends i).connects = true) :
    (w.ends i).client = (w.ends i).topic ∧ (w.ends i).outTopic = (w.ends i).topic ++ mqttInSuffix ∧
      (w.handles i).inTopic = (w.ends i).topic ++ mqttOutSuffix := by
  obtain ⟨h1, h2, h3⟩ := ht.stands i hi
  rw [hc] at h1 h2 h3
  exact ⟨h1, h2, h3⟩

theorem stands_false (hi : i < w.allocated) (hc : (w.ends i).connects = false) :
    (w.ends i).client = (w.ends i).topic ++ mqttInSuffix ∧ (w.ends i).outTopic = (w.ends i).topic ++ mqttOutSuffix ∧
      (w.handles i).inTopic = (w.ends i).topic ++ mqttInSuffix := by
  obtain ⟨h1, h2, h3⟩ := ht.stands i hi
  rw [hc] at h1 h2 h3
  exact ⟨h1, h2, h3⟩

/-- A handle publishes where the other kind of handle with the same topic reads. -/
private theorem outTopic_eq_inTopic (hi : i < w.allocated) (hj : j < w.allocated) :
    (w.ends i).outTopic = (w.handles j).inTopic ↔
      (w.ends i).topic = (w.ends j).topic ∧ (w.ends i).connects = !(w.ends j).connects := by
  obtain ⟨-, h2, -⟩ := ht.stands i hi
  obtain ⟨-, -, h3⟩ := ht.stands j hj
  obtain ⟨hne, -, -⟩ := suffixes_ne (w.ends i).topic (w.ends j).topic
  obtain ⟨hne', -, -⟩ := suffixes_ne (w.ends j).topic (w.ends i).topic
  rw [h2, h3]
  cases (w.ends i).connects <;> cases (w.ends j).connects
  · exact ⟨fun h => absurd h.symm hne', fun h => nomatch h.2⟩
  · exact ⟨fun h => ⟨List.append_cancel_right h, rfl⟩, fun h => congrArg (· ++ mqttOutSuffix) h.1⟩
  · exact ⟨fun h => ⟨List.append_cancel_right h, rfl⟩, fun h => congrArg (· ++ mqttInSuffix) h.1⟩
  · exact ⟨fun h => absurd h hne, fun h => nomatch h.2⟩

/-- No two handles publish on one topic. -/
theorem outTopic_injective (hi : i < w.allocated) (hj : j < w.allocated)
    (h : (w.ends i).outTopic = (w.ends j).outTopic) : i = j := by
  obtain ⟨-, h2, -⟩ := ht.stands i hi
  obtain ⟨-, h2', -⟩ := ht.stands j hj
  obtain ⟨hne, -, -⟩ := suffixes_ne (w.ends i).topic (w.ends j).topic
  obtain ⟨hne', -, -⟩ := suffixes_ne (w.ends j).topic (w.ends i).topic
  rw [h2, h2'] at h
  have hsame : (w.ends i).topic = (w.ends j).topic ∧ (w.ends i).connects = (w.ends j).connects := by
    revert h
    cases (w.ends i).connects <;> cases (w.ends j).connects
    · exact fun h => ⟨List.append_cancel_right h, rfl⟩
    · exact fun h => absurd h.symm hne'
    · exact fun h => absurd h hne
    · exact fun h => ⟨List.append_cancel_right h, rfl⟩
  exact ht.once i hi j hj hsame.1 hsame.2

private theorem counterparts_iff (hi : i < w.allocated) (hj : j < w.allocated) :
    w.Counterparts i j ↔ (w.ends i).topic = (w.ends j).topic ∧ (w.ends i).connects = !(w.ends j).connects := by
  unfold Counterparts
  rw [ht.outTopic_eq_inTopic hi hj, ht.outTopic_eq_inTopic hj hi]
  constructor
  · exact fun h => h.2.2.1
  · rintro ⟨h1, h2⟩
    refine ⟨hi, hj, ⟨h1, h2⟩, h1.symm, ?_⟩
    rw [h2, Bool.not_not]

/-- A topic that has been made up does not end like the name of a process. -/
theorem issued_ne_appName {t : Bytes} (h : w.Issued t) {q : Nat} (hq : q < w.size) : t ≠ w.appName q := by
  obtain ⟨p, hp, n, -, rfl⟩ := h
  obtain ⟨s, hs⟩ := ht.names q hq
  intro he
  have hlast := congrArg List.getLast? (he.trans hs)
  have hd : literal (Nat.toDigits 10 n) ≠ [] := fun h0 => Nat.toDigits_ne_nil (List.map_eq_nil_iff.1 h0)
  rw [List.getLast?_append_of_ne_nil _ hd, List.getLast?_append_of_ne_nil _ (by decide)] at hlast
  exact colon_notMem_toDigits n (List.mem_of_getLast? hlast)

theorem in_ne_appName (t : Bytes) {q : Nat} (hq : q < w.size) : t ++ mqttInSuffix ≠ w.appName q := by
  obtain ⟨s, hs⟩ := ht.names q hq
  intro he
  have hlast := congrArg List.getLast? (he.trans hs)
  rw [List.getLast?_append_of_ne_nil _ (by decide), List.getLast?_append_of_ne_nil _ (by decide)] at hlast
  exact absurd hlast (by decide)

omit ht in
theorem in_not_issued (t : Bytes) : ¬ w.Issued (t ++ mqttInSuffix) := by
  rintro ⟨p, -, n, -, he⟩
  have hlast := congrArg List.getLast? he
  have hd : literal (Nat.toDigits 10 n) ≠ [] := fun h0 => Nat.toDigits_ne_nil (List.map_eq_nil_iff.1 h0)
  rw [List.getLast?_append_of_ne_nil _ (by decide), List.getLast?_append_of_ne_nil _ hd] at hlast
  exact notMem_toDigits (by decide : 58 ≤ 'n'.toNat) (by decide) n (List.mem_of_getLast? hlast.symm)

end Table

namespace Posts

/-- What the client of a handle has got. -/
theorem got (hX : X.Reliable) (hb : w.Posts) (ht : w.Table) (hj : j < w.allocated) :
    w.broker.got (w.ends j).client = on (w.handles j).inTopic w.broker.log := by
  cases hc : (w.ends j).connects with
  | true =>
    obtain ⟨h1, -, h3⟩ := ht.stands_true hj hc
    rw [h1, h3]
    refine (hb.traced.serves hX).hears_only (hb.hearsOut _ (ht.issued j hj)) fun t hs => ?_
    rcases hb.since _ t hs with ⟨p, hp, he, -⟩ | ⟨-, h⟩ | ⟨t', -, he, -⟩
    · exact absurd he (ht.issued_ne_appName (ht.issued j hj) hp)
    · exact h
    · exact absurd (he ▸ ht.issued j hj) (Table.in_not_issued t')
  | false =>
    obtain ⟨h1, -, h3⟩ := ht.stands_false hj hc
    rw [h1, h3]
    refine (hb.traced.serves hX).hears_only (hb.hearsIn _ ⟨j, hj, hc, rfl⟩) fun t hs => ?_
    rcases hb.since _ t hs with ⟨p, hp, he, -⟩ | ⟨hi, -⟩ | ⟨t', -, -, h⟩
    · exact absurd he (ht.in_ne_appName _ hp)
    · exact absurd hi (Table.in_not_issued _)
    · exact h

/-- Nothing is published on a topic of a handle that does not exist. -/
private theorem quiet (hb : w.Posts) {t : Bytes} (hconn : ∀ m, t ≠ m ++ mqttConnectionTopic)
    (hnone : ∀ i < w.allocated, t ≠ (w.ends i).outTopic) : on t w.broker.log = [] := by
  refine List.eq_nil_iff_forall_not_mem.2 fun e he => ?_
  obtain ⟨hm, rfl⟩ := mem_on.1 he
  rcases hb.log e hm with ⟨⟨m, h⟩, -⟩ | ⟨i, hi, h⟩
  · exact hconn m h
  · exact hnone i hi h

theorem quiet_in (hb : w.Posts) (ht : w.Table) {t : Bytes} (h : ¬ w.Connected t) :
    on (t ++ mqttInSuffix) w.broker.log = [] := by
  refine hb.quiet (fun m => (suffixes_ne t m).2.1) fun i hi he => ?_
  obtain ⟨-, h2, -⟩ := ht.stands i hi
  cases hc : (w.ends i).connects with
  | true =>
    rw [h2, hc] at he
    exact h ⟨i, hi, hc, (List.append_cancel_right he).symm⟩
  | false =>
    rw [h2, hc] at he
    exact (suffixes_ne _ _).1 he

theorem quiet_out (hb : w.Posts) (ht : w.Table) {t : Bytes} (h : ¬ w.Accepted t) :
    on (t ++ mqttOutSuffix) w.broker.log = [] := by
  refine hb.quiet (fun m => (suffixes_ne t m).2.2) fun i hi he => ?_
  obtain ⟨-, h2, -⟩ := ht.stands i hi
  cases hc : (w.ends i).connects with
  | true =>
    rw [h2, hc] at he
    exact (suffixes_ne _ _).1 he.symm
  | false =>
    rw [h2, hc] at he
    exact h ⟨i, hi, hc, (List.append_cancel_right he).symm⟩

private theorem taken_connect (hX : X.Reliable) (hb : w.Posts) (ht : w.Table) (hi : i < w.allocated)
    (hj : j < w.allocated) (hij : w.Counterparts i j) (hc : (w.ends j).connects = true) :
    ∃ rest, w.broker.taken (w.ends j).client = ((w.handles j).inTopic, mqttAck) :: rest ∧
      rest ++ w.broker.queue (w.ends j).client = (w.handles i).published.map ((w.handles j).inTopic, ·) := by
  obtain ⟨-, hopp⟩ := (ht.counterparts_iff hi hj).1 hij
  rw [hc] at hopp
  have hgot := hb.got hX ht hj
  rw [← hij.2.2.1, hb.out i hi, greeting, hopp, if_neg (by decide)] at hgot
  have hne := hb.acked j hj hc
  rw [← (ht.stands_true hj hc).1] at hne
  unfold Broker.got at hgot
  rw [← hij.2.2.1]
  cases htaken : w.broker.taken (w.ends j).client with
  | nil => exact absurd htaken hne
  | cons e rest =>
    rw [htaken] at hgot
    obtain ⟨rfl, hrest⟩ := List.cons.inj hgot
    exact ⟨rest, rfl, hrest⟩

end Posts

/-- What connections promise follows from the invariant. -/
theorem Table.private (hX : X.Reliable) (ht : w.Table) (hb : w.Posts) : w.Private where
  apart := by
    intro i hi j hj h
    have hroles : (w.ends i).topic = (w.ends j).topic ∧ (w.ends i).connects = (w.ends j).connects := by
      obtain ⟨-, -, h3⟩ := ht.stands i hi
      obtain ⟨-, -, h3'⟩ := ht.stands j hj
      obtain ⟨hne, -, -⟩ := suffixes_ne (w.ends i).topic (w.ends j).topic
      obtain ⟨hne', -, -⟩ := suffixes_ne (w.ends j).topic (w.ends i).topic
      rw [h3, h3'] at h
      revert h
      cases (w.ends i).connects <;> cases (w.ends j).connects
      · exact fun h => ⟨List.append_cancel_right h, rfl⟩
      · exact fun h => absurd h hne
      · exact fun h => absurd h.symm hne'
      · exact fun h => ⟨List.append_cancel_right h, rfl⟩
    exact ht.once i hi j hj hroles.1 hroles.2
  received := by
    intro i j hij
    have hi := hij.1
    have hj := hij.2.1
    have hout := hij.2.2.1
    unfold Mqtt.received
    cases hc : (w.ends j).connects with
    | true =>
      obtain ⟨rest, htaken, hrest⟩ := hb.taken_connect hX ht hi hj hij hc
      rw [if_pos rfl, htaken]
      exact hrest
    | false =>
      have hopp := ((ht.counterparts_iff hi hj).1 hij).2
      rw [hc] at hopp
      rw [if_neg (by decide)]
      have hgot := hb.got hX ht hj
      rw [← hout, hb.out i hi, greeting, hopp, if_pos (by decide)] at hgot
      rw [← hout]
      exact hgot
  alone := by
    intro j hj hnone
    have hfalse : (w.ends j).connects = false := by
      cases hc : (w.ends j).connects with
      | false => rfl
      | true =>
        obtain ⟨i, hi, hci, htopic⟩ := ht.answered _ ⟨j, hj, hc, rfl⟩
        exact absurd ((ht.counterparts_iff hi hj).2 ⟨htopic, by rw [hci, hc]; rfl⟩) (hnone i)
    have hgot := hb.got hX ht hj
    have hquiet : on (w.handles j).inTopic w.broker.log = [] := by
      obtain ⟨-, -, h3⟩ := ht.stands_false hj hfalse
      refine hb.quiet (fun m => ?_) fun i hi he => ?_
      · rw [h3]
        exact (suffixes_ne _ m).2.1
      · exact hnone i ((ht.counterparts_iff hi hj).2 ((ht.outTopic_eq_inTopic hi hj).1 he.symm))
    unfold Mqtt.received
    rw [hfalse, if_neg (by decide)]
    exact hgot.trans hquiet
  answered := by
    intro i hi hc
    obtain ⟨j, hj, hcj, htopic⟩ := ht.answered _ ⟨i, hi, hc, rfl⟩
    have hij : w.Counterparts i j := (ht.counterparts_iff hi hj).2 ⟨htopic.symm, by rw [hc, hcj]; rfl⟩
    have hji : w.Counterparts j i := (ht.counterparts_iff hj hi).2 ⟨htopic, by rw [hc, hcj]; rfl⟩
    obtain ⟨rest, htaken, -⟩ := hb.taken_connect hX ht hj hi hji hc
    refine ⟨⟨rest, htaken⟩, j, hij, hcj, fun m hm => ?_⟩
    obtain ⟨m', hm'⟩ := hb.accepted j hj hcj
    have hgot : (m' ++ mqttConnectionTopic, (w.ends j).topic) ∈ w.broker.got (w.appName (w.ends j).owner) :=
      List.mem_append_left _ hm'
    have hsome := (hb.traced.serves hX).only _ _ hgot
    -- the two requests of the topic are one
    have hlog : (m' ++ mqttConnectionTopic, (w.ends j).topic) ∈ w.broker.log :=
      (mem_on.1 (((hb.traced.serves hX).on_sublist _ _).subset (mem_on.2 ⟨hgot, rfl⟩))).1
    have hreq : ∀ {m t}, (m ++ mqttConnectionTopic, t) ∈ w.broker.log →
        (m ++ mqttConnectionTopic, t) ∈ w.broker.log.filter isRequest := by
      intro m t h
      refine List.mem_filter.2 ⟨h, ?_⟩
      exact List.isSuffixOf_iff_suffix.2 (List.suffix_append ..)
    have hsame := List.inj_on_of_nodup_map hb.requests (hreq hm) (hreq hlog) htopic.symm
    rw [(Prod.mk.inj hsame).1]
    exact hsome
  waits := by
    intro j hj hc
    rcases ht.waits _ (ht.issued j hj) with h | ⟨i, hi, hci, htopic⟩
    · exact Or.inl h
    · exact Or.inr ⟨i, (ht.counterparts_iff hi hj).2 ⟨htopic, by rw [hc, hci]; rfl⟩, hci⟩

end Mtcl.Mqtt
