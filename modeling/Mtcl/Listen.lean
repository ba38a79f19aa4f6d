import Mathlib.Data.Finset.Insert
import Mtcl.Config

/-!
# Listening

`Manager::listen` records every string it is given before it looks for the protocol and before the connector
listens, and answers `0` for a string that is recorded.  The connectors are arbitrary: what the `listen` of one
returns, or that it throws, is an argument of the call.

`listen_honest_iff` says which sequences of calls are answered truthfully: those in which no string is passed
again after its first call has failed.
-/

namespace Mtcl

/-- A call of `listen` of a connector: the string it was made for, the protocol, the address and the outcome. -/
structure ListenCall where
  uri : Bytes
  protocol : Bytes
  address : Bytes
  outcome : Except Stop Ret

/-- `Manager::listening_endps`, and the calls of `listen` of the connectors, newest first. -/
structure Endpoints where
  listeningEndps : Finset Bytes := ∅
  calls : List ListenCall := []

/-- `Manager::listen`, when `listen` of the connector would end with `answer`.  Without a colon the protocol is
the whole string, and `substr` is called with a position behind its end. -/
def Endpoints.listen (registered : Bytes → Bool) (e : Endpoints) (s : Bytes) (answer : Except Stop Ret) :
    Except Stop Ret × Endpoints :=
  if s ∈ e.listeningEndps then (.ok (.ok 0), e)
  else
    let e := { e with listeningEndps := insert s e.listeningEndps }
    let protocol := beforeColon s
    if !registered protocol then (.ok (.error .EPROTO), e)
    else if s.length < protocol.length + 1 then (.error .outOfRange, e)
    else (answer, { e with calls := ⟨s, protocol, s.drop (protocol.length + 1), answer⟩ :: e.calls })

/-- The call returns `0`. -/
def Succeeds (r : Except Stop Ret) : Prop := r = .ok (.ok 0)

/-- Some call of `listen` of the connector for the string has succeeded. -/
def Endpoints.Listens (e : Endpoints) (s : Bytes) : Prop := ∃ c ∈ e.calls, c.uri = s ∧ Succeeds c.outcome

/-- A sequence of calls so far: the endpoints, and the strings with what the calls returned, newest first. -/
structure Listening where
  ends : Endpoints := {}
  history : List (Bytes × Except Stop Ret) := []

/-- The last call for the string has failed. -/
def Listening.LastFailed (l : Listening) (s : Bytes) : Prop :=
  ∃ c, l.history.find? (fun c => decide (c.1 = s)) = some c ∧ ¬ Succeeds c.2

section

variable (registered : Bytes → Bool)

/-- One more call. -/
def Listening.call (l : Listening) (s : Bytes) (answer : Except Stop Ret) : Listening where
  ends := (l.ends.listen registered s answer).2
  history := (s, (l.ends.listen registered s answer).1) :: l.history

/-- The call is answered truthfully: `0` only if the connector listens, and after a failure only if it has been
asked again. -/
def Listening.Honest (l : Listening) (s : Bytes) (answer : Except Stop Ret) : Prop :=
  Succeeds (l.ends.listen registered s answer).1 →
    (l.call registered s answer).ends.Listens s ∧
      (l.LastFailed s → ∃ c, (l.call registered s answer).ends.calls = c :: l.ends.calls)

/-- Every call of a sequence is answered truthfully. -/
def Listening.AllHonest : List (Bytes × Except Stop Ret) → Listening → Prop
  | [], _ => True
  | c :: cs, l => l.Honest registered c.1 c.2 ∧ AllHonest cs (l.call registered c.1 c.2)

/-- A first call for the string succeeds: the protocol is known, there is a colon, and the connector listens. -/
def Accepted (s : Bytes) (answer : Except Stop Ret) : Prop :=
  registered (beforeColon s) = true ∧ (beforeColon s).length < s.length ∧ Succeeds answer

/-- No string is passed again after its first call has failed; those of `known` have been passed before. -/
def NoneRetried (known : Finset Bytes) (cs : List (Bytes × Except Stop Ret)) : Prop :=
  ∀ pre s answer post, cs = pre ++ (s, answer) :: post → s ∉ known → s ∉ pre.map Prod.fst → s ∈ post.map Prod.fst →
    Accepted registered s answer

end

/-! ### What a call does -/

section

variable {registered : Bytes → Bool} {e : Endpoints} {s t : Bytes} {answer : Except Stop Ret}

/-- A string that is recorded is answered with `0`, and nothing is done. -/
theorem Endpoints.listen_known (h : s ∈ e.listeningEndps) : e.listen registered s answer = (.ok (.ok 0), e) := if_pos h

/-- A new string is recorded. -/
theorem Endpoints.listen_new (h : s ∉ e.listeningEndps) :
    (e.listen registered s answer).2.listeningEndps = insert s e.listeningEndps := by
  unfold Endpoints.listen
  rw [if_neg h]
  dsimp only
  by_cases hr : (!registered (beforeColon s)) = true
  · rw [if_pos hr]
  · rw [if_neg hr]
    by_cases hlen : s.length < (beforeColon s).length + 1
    · rw [if_pos hlen]
    · rw [if_neg hlen]

/-- For a new string the result is `0` exactly if the connector has been asked and listens. -/
theorem Endpoints.listen_new_cases (e : Endpoints) (registered : Bytes → Bool) (answer : Except Stop Ret)
    (h : s ∉ e.listeningEndps) :
    (Accepted registered s answer ∧ Succeeds (e.listen registered s answer).1 ∧
        (∃ c, (e.listen registered s answer).2.calls = c :: e.calls) ∧
        ∀ t, (e.listen registered s answer).2.Listens t ↔ t = s ∨ e.Listens t) ∨
      ¬ Accepted registered s answer ∧ ¬ Succeeds (e.listen registered s answer).1 ∧
        ∀ t, (e.listen registered s answer).2.Listens t ↔ e.Listens t := by
  unfold Endpoints.listen
  rw [if_neg h]
  dsimp only
  by_cases hr : registered (beforeColon s) = true
  · rw [if_neg (by simp [hr])]
    by_cases hlen : s.length < (beforeColon s).length + 1
    · rw [if_pos hlen]
      right
      refine ⟨fun ha => ?_, nofun, fun t => Iff.rfl⟩
      have hlt := ha.2.1
      omega
    · rw [if_neg hlen]
      have hcons : ∀ t, Endpoints.Listens { e with
          listeningEndps := insert s e.listeningEndps
          calls := ⟨s, beforeColon s, s.drop ((beforeColon s).length + 1), answer⟩ :: e.calls } t ↔
            t = s ∧ Succeeds answer ∨ e.Listens t := by
        intro t
        unfold Endpoints.Listens
        simp only [List.exists_mem_cons_iff, eq_comm]
      by_cases ha : Succeeds answer
      · left
        refine ⟨⟨hr, by omega, ha⟩, ha, ⟨_, rfl⟩, fun t => ?_⟩
        rw [hcons]
        simp [ha]
      · right
        refine ⟨fun h => ha h.2.2, ha, fun t => ?_⟩
        rw [hcons]
        simp [ha]
  · rw [if_pos (by simp [hr])]
    right
    exact ⟨fun ha => hr ha.1, nofun, fun t => Iff.rfl⟩

end

/-! ### What a sequence of calls does -/

section

variable {registered : Bytes → Bool} {l : Listening} {s t : Bytes} {answer : Except Stop Ret}

/-- What the connectors listen for is recorded, and its last call has not failed. -/
structure Listening.Kept (l : Listening) : Prop where
  listed : ∀ s, l.ends.Listens s → s ∈ l.ends.listeningEndps
  last : ∀ s, l.ends.Listens s → ¬ l.LastFailed s

theorem Listening.lastFailed_call : (l.call registered s answer).LastFailed t ↔
    if s = t then ¬ Succeeds (l.ends.listen registered s answer).1 else l.LastFailed t := by
  unfold LastFailed call
  dsimp only
  by_cases h : s = t
  · simp [h]
  · simp [h]

/-- A call records its string. -/
theorem Listening.call_endps : (l.call registered s answer).ends.listeningEndps = insert s l.ends.listeningEndps := by
  by_cases h : s ∈ l.ends.listeningEndps
  · rw [Finset.insert_eq_of_mem h]
    exact congrArg (fun x => x.2.listeningEndps) (Endpoints.listen_known h)
  · exact Endpoints.listen_new h

theorem Listening.Kept.call (hk : l.Kept) (s : Bytes) (answer : Except Stop Ret) :
    (l.call registered s answer).Kept := by
  by_cases h : s ∈ l.ends.listeningEndps
  · have he : (l.call registered s answer).ends = l.ends := congrArg Prod.snd (Endpoints.listen_known h)
    have hr : (l.ends.listen registered s answer).1 = .ok (.ok 0) := congrArg Prod.fst (Endpoints.listen_known h)
    constructor
    · rw [he]
      exact hk.listed
    · intro t ht
      rw [he] at ht
      rw [lastFailed_call]
      by_cases hst : s = t
      · rw [if_pos hst, hr]
        exact fun hn => hn rfl
      · rw [if_neg hst]
        exact hk.last t ht
  · have hendps : (l.call registered s answer).ends.listeningEndps = insert s l.ends.listeningEndps := call_endps
    rcases Endpoints.listen_new_cases l.ends registered answer h with
      ⟨-, hr, -, hlisten⟩ | ⟨-, hr, hlisten⟩
    · constructor
      · intro t ht
        rw [hendps]
        rcases (hlisten t).1 ht with rfl | ht
        · exact Finset.mem_insert_self ..
        · exact Finset.mem_insert_of_mem (hk.listed t ht)
      · intro t ht
        rw [lastFailed_call]
        by_cases hst : s = t
        · rw [if_pos hst]
          exact fun hn => hn hr
        · rw [if_neg hst]
          rcases (hlisten t).1 ht with rfl | ht
          · exact absurd rfl hst
          · exact hk.last t ht
    · constructor
      · intro t ht
        rw [hendps]
        exact Finset.mem_insert_of_mem (hk.listed t ((hlisten t).1 ht))
      · intro t ht
        have ht := (hlisten t).1 ht
        rw [lastFailed_call]
        have hst : s ≠ t := by
          rintro rfl
          exact h (hk.listed s ht)
        rw [if_neg hst]
        exact hk.last t ht

/-- A string that is recorded is answered truthfully exactly if the connector listens. -/
theorem Listening.Kept.honest_known (hk : l.Kept) (h : s ∈ l.ends.listeningEndps) :
    l.Honest registered s answer ↔ l.ends.Listens s := by
  have he : (l.call registered s answer).ends = l.ends := congrArg Prod.snd (Endpoints.listen_known h)
  have hr : (l.ends.listen registered s answer).1 = .ok (.ok 0) := congrArg Prod.fst (Endpoints.listen_known h)
  unfold Honest
  rw [he, hr]
  constructor
  · intro hh
    exact (hh rfl).1
  · intro hlisten _
    exact ⟨hlisten, fun hf => absurd hf (hk.last s hlisten)⟩

/-- A new string is answered truthfully. -/
theorem Listening.honest_new (h : s ∉ l.ends.listeningEndps) : l.Honest registered s answer := by
  intro hr
  rcases Endpoints.listen_new_cases l.ends registered answer h with
    ⟨-, -, hcalls, hlisten⟩ | ⟨-, hr', -⟩
  · exact ⟨(hlisten s).2 (Or.inl rfl), fun _ => hcalls⟩
  · exact absurd hr hr'

private theorem noneRetried_cons {known : Finset Bytes} {cs : List (Bytes × Except Stop Ret)} :
    NoneRetried registered known ((s, answer) :: cs) ↔
      (s ∉ known → s ∈ cs.map Prod.fst → Accepted registered s answer) ∧ NoneRetried registered
        (insert s known) cs := by
  constructor
  · intro h
    refine ⟨fun hs hmem => h [] s answer cs rfl hs List.not_mem_nil hmem, ?_⟩
    intro pre t b post hcs ht hpre hpost
    rw [Finset.mem_insert, not_or] at ht
    refine h ((s, answer) :: pre) t b post (by rw [hcs]; rfl) ht.2 ?_ hpost
    rw [List.map_cons, List.mem_cons, not_or]
    exact ⟨ht.1, hpre⟩
  · rintro ⟨h1, h2⟩ pre t b post hcs ht hpre hpost
    cases pre with
    | nil =>
      cases hcs
      exact h1 ht hpost
    | cons c pre =>
      cases hcs
      rw [List.map_cons, List.mem_cons, not_or] at hpre
      refine h2 pre t b post rfl ?_ hpre.2 hpost
      rw [Finset.mem_insert, not_or]
      exact ⟨hpre.1, ht⟩

/-- The calls of a sequence are answered truthfully exactly if those strings that are recorded already are
listened for, and none of the others is passed again after its first call has failed. -/
private theorem allHonest_iff {cs : List (Bytes × Except Stop Ret)} (hk : l.Kept) :
    l.AllHonest registered cs ↔
      (∀ s ∈ cs.map Prod.fst, s ∈ l.ends.listeningEndps → l.ends.Listens s) ∧
        NoneRetried registered l.ends.listeningEndps cs := by
  induction cs generalizing l with
  | nil =>
    refine iff_of_true trivial ⟨nofun, ?_⟩
    intro pre t b post hcs
    cases pre <;> cases hcs
  | cons c cs ih =>
    obtain ⟨s, answer⟩ := c
    unfold Listening.AllHonest
    dsimp only
    rw [ih (hk.call s answer), noneRetried_cons, Listening.call_endps]
    by_cases h : s ∈ l.ends.listeningEndps
    · have he : (l.call registered s answer).ends = l.ends := congrArg Prod.snd (Endpoints.listen_known h)
      rw [hk.honest_known h, he, Finset.insert_eq_of_mem h]
      simp only [List.map_cons, List.forall_mem_cons, h, not_true_eq_false, false_implies, true_implies,
        true_and, and_assoc]
    · have hlisten : ¬ l.ends.Listens s := fun hs => h (hk.listed s hs)
      rw [and_iff_right (Listening.honest_new h)]
      simp only [List.map_cons, List.forall_mem_cons, h, not_false_eq_true, false_implies, true_implies, true_and]
      rw [← and_assoc]
      refine and_congr_left fun _ => ?_
      rcases Endpoints.listen_new_cases l.ends registered answer h with
        ⟨ha, -, -, hafter⟩ | ⟨ha, -, hafter⟩
      · -- the new string is listened for
        rw [and_iff_left fun _ => ha]
        constructor
        · intro hall t ht hmem
          rcases (hafter t).1 (hall t ht (Finset.mem_insert_of_mem hmem)) with rfl | hl
          · exact absurd hmem h
          · exact hl
        · intro hall t ht hmem
          rcases Finset.mem_insert.1 hmem with rfl | hmem
          · exact (hafter t).2 (Or.inl rfl)
          · exact (hafter t).2 (Or.inr (hall t ht hmem))
      · -- the first call has failed, so the string must not come again
        constructor
        · intro hall
          refine ⟨fun t ht hmem => (hafter t).1 (hall t ht (Finset.mem_insert_of_mem hmem)), fun hs => ?_⟩
          exact absurd ((hafter s).1 (hall s hs (Finset.mem_insert_self ..))) hlisten
        · rintro ⟨hall, hnone⟩ t ht hmem
          rcases Finset.mem_insert.1 hmem with rfl | hmem
          · exact absurd (hnone ht) ha
          · exact (hafter t).2 (hall t ht hmem)

end

/-- Every call of a sequence, from the start, is answered truthfully exactly if no string is passed again after
its first call has failed. -/
theorem listen_honest_iff (registered : Bytes → Bool) (cs : List (Bytes × Except Stop Ret)) :
    ({} : Listening).AllHonest registered cs ↔ NoneRetried registered ∅ cs := by
  have hk : ({} : Listening).Kept := ⟨nofun, nofun⟩
  rw [allHonest_iff hk]
  exact and_iff_right nofun

/-- The connector of TCP fails to listen, and the call is repeated: it returns `0`, and nothing listens. -/
theorem listen_lies : ¬ ({} : Listening).AllHonest (fun p => decide (p = literal ['T', 'C', 'P']))
    [(literal ['T', 'C', 'P', ':', 'h', ':', '1'], .ok (.error (.other 98))),
     (literal ['T', 'C', 'P', ':', 'h', ':', '1'], .ok (.ok 0))] := by
  rintro ⟨-, h, -⟩
  obtain ⟨⟨c, hc, -, hs⟩, -⟩ := h rfl
  let failed : ListenCall :=
    { uri := literal ['T', 'C', 'P', ':', 'h', ':', '1'], protocol := literal ['T', 'C', 'P'],
      address := literal ['h', ':', '1'], outcome := .ok (.error (.other 98)) }
  have hmem : c ∈ [failed] := hc
  rw [List.mem_singleton.1 hmem] at hs
  cases hs

end Mtcl
