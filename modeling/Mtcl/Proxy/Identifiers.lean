import Mathlib.Logic.Encodable.Basic
import Mathlib.Logic.Equiv.List
import Mtcl.Proxy.Routes

/-!
# The identifiers of connections

A connection to another pool is known to both proxies by the hash of a word: the string with which the process
asked for it, the pool of the proxy, and the decimal ID of the handle, one behind the other.  Two connections
spell the same word when their boundaries can be moved against each other (`Opened.Overlaps`), and
`connID_distinct` says that this is exactly when a set of connections gets an identifier twice, if the hash
itself is injective.
-/

namespace Mtcl

open Safety

/-- A connection at the proxy where it begins: the pool of the proxy, the string that the process has sent, and
the ID of its handle. -/
structure Opened where
  pool : Bytes
  connectString : Bytes
  handleID : Nat
  deriving DecidableEq, Repr

namespace Opened

/-- The word that is hashed. -/
def word (c : Opened) : Bytes := c.connectString ++ c.pool ++ literal (Nat.toDigits 10 c.handleID)

/-- The identifier under which the proxy sends `CONN`. -/
def identifier (hash : Bytes → Nat) (c : Opened) : Nat := hash c.word

/-- The string of the second connection is the one of the first with `u` behind it, and what is behind it in the
first one begins with `u` and ends like the second one. -/
def Overlaps (a b : Opened) : Prop :=
  ∃ u v, b.connectString = a.connectString ++ u ∧
    (u ++ b.pool = a.pool ++ v ∧ literal (Nat.toDigits 10 a.handleID) = v ++ literal (Nat.toDigits 10 b.handleID) ∨
      a.pool = u ++ b.pool ++ v ∧ literal (Nat.toDigits 10 b.handleID) = v ++ literal (Nat.toDigits 10 a.handleID))

theorem overlaps_word {a b : Opened} (h : a.Overlaps b) : a.word = b.word := by
  obtain ⟨u, v, hs, ⟨hp, hd⟩ | ⟨hp, hd⟩⟩ := h
  · unfold word
    rw [hs, hd, List.append_assoc a.connectString u, hp]
    simp
  · unfold word
    rw [hs, hp, hd]
    simp

/-- Two connections spell the same word exactly when they overlap, one way or the other. -/
theorem word_eq_iff {a b : Opened} : a.word = b.word ↔ a.Overlaps b ∨ b.Overlaps a := by
  -- the one with the shorter string, when they spell the same word
  have hshort : ∀ {a b : Opened} {u : Bytes}, b.connectString = a.connectString ++ u →
      a.pool ++ literal (Nat.toDigits 10 a.handleID) = u ++ (b.pool ++ literal (Nat.toDigits 10 b.handleID)) →
      a.Overlaps b := by
    intro a b u hs h
    rw [← List.append_assoc] at h
    rcases List.append_eq_append_iff.1 h with ⟨v, hp, hd⟩ | ⟨v, hp, hd⟩
    · exact ⟨u, v, hs, Or.inl ⟨hp, hd⟩⟩
    · exact ⟨u, v, hs, Or.inr ⟨hp, hd⟩⟩
  constructor
  · intro h
    unfold word at h
    rw [List.append_assoc, List.append_assoc] at h
    rcases List.append_eq_append_iff.1 h with ⟨u, hs, h⟩ | ⟨u, hs, h⟩
    · exact Or.inl (hshort hs h)
    · exact Or.inr (hshort hs h)
  · rintro (h | h)
    · exact overlaps_word h
    · exact (overlaps_word h).symm

end Opened

namespace Proxy

variable {W : Type} {s s' : Proxy W} {env : ProxyEnv W}

/-- The proxy where a connection begins associates the handle with the identifier. -/
theorem otherPool_associates {h h' : HandleUser Nat} {connectString pool : Bytes}
    (he : s.otherPool env h connectString pool = .ok (h', s')) :
    s'.loc2connID = s.loc2connID.insert (env.getID h)
      (Opened.identifier env.hash ⟨env.pool, connectString, env.getID h⟩) := by
  unfold otherPool at he
  cases hptr : (s.proxies pool).getD none with
  | none =>
    dsimp only at he
    rw [hptr] at he
    cases he
  | some p =>
    dsimp only at he
    rw [hptr] at he
    refine @Safe.of_eq _ _ ProxyStop.nullProxy (fun x => x.2.loc2connID = _) _ ?_ _ he
    refine (sendThrough_safe ..).bind fun s1 h1 => (keepHandle_safe ..).bind fun s2 h2 => ?_
    show s2.loc2connID = _
    rw [h2.loc2connID]
    show s1.loc2connID.insert _ _ = _
    rw [h1.2.loc2connID]
    rfl

/-- The proxy where it ends associates the identifier of the frame with a new handle, or nothing. -/
theorem frameCONN_associates {via : Option Nat} {identifier : Nat} {payload : Bytes}
    (he : s.frameCONN env via identifier payload = .ok s') :
    s'.loc2connID = s.loc2connID ∨ ∃ u : HandleUser Nat, s'.loc2connID = s.loc2connID.insert
      (env.getID u) identifier := by
  unfold frameCONN at he
  cases hc : env.components (afterColon payload) with
  | none =>
    rw [hc] at he
    cases he
    exact Or.inl rfl
  | some c =>
    rw [hc] at he
    refine @Safe.of_eq _ _ ProxyStop.nullProxy (fun x => x.loc2connID = s.loc2connID ∨
      ∃ u : HandleUser Nat, x.loc2connID = s.loc2connID.insert (env.getID u) identifier) _ ?_ _ he
    refine (lift_safe _).bind ?_
    rintro ⟨found, w⟩ -
    dsimp only
    cases found with
    | none => exact Or.inl rfl
    | some u => exact (keepHandle_safe ..).mono fun x hx => Or.inr ⟨u, hx.loc2connID⟩

end Proxy

/-! ### Collisions -/

/-- No identifier is associated with two handles. -/
def OneHandleEach (pairs : List (Nat × Nat)) : Prop := ∀ p ∈ pairs, ∀ q ∈ pairs, p.2 = q.2 → p.1 = q.1

/-- What the proxies associate is the identifier of the connection.  If the hash is injective, connections that
are open at the same time have different identifiers, and whatever new handles they get at the proxy where they
end no identifier is associated there with two of them, exactly when no two of the connections overlap. -/
theorem connID_distinct {hash : Bytes → Nat} {cs : List Opened} {newID : Opened → Nat} (hhash : Function.Injective hash)
    (hopen : (cs.map fun c => (c.pool, c.handleID)).Nodup) (hnew : (cs.map newID).Nodup) :
    (∀ {W : Type} {env : ProxyEnv W} {s s' : Proxy W} {h h' : HandleUser Nat} {connectString pool : Bytes},
      s.otherPool env h connectString pool = .ok (h', s') →
      s'.loc2connID = s.loc2connID.insert (env.getID h)
        (Opened.identifier env.hash ⟨env.pool, connectString, env.getID h⟩)) ∧
    (∀ {W : Type} {env : ProxyEnv W} {s s' : Proxy W} {via : Option Nat} {identifier : Nat} {payload : Bytes},
      s.frameCONN env via identifier payload = .ok s' →
      s'.loc2connID = s.loc2connID ∨
        ∃ u : HandleUser Nat, s'.loc2connID = s.loc2connID.insert (env.getID u) identifier) ∧
    ((cs.map (Opened.identifier hash)).Nodup ↔ ∀ a ∈ cs, ∀ b ∈ cs, a ≠ b → ¬ a.Overlaps b) ∧
    (OneHandleEach (cs.map fun c => (newID c, c.identifier hash)) ↔ ∀ a ∈ cs, ∀ b ∈ cs, a ≠ b → ¬ a.Overlaps b) := by
  have hcs : cs.Nodup := .of_map _ hopen
  have hword : ∀ {a b : Opened}, a.identifier hash = b.identifier hash ↔ a.Overlaps b ∨ b.Overlaps a :=
    (hhash.eq_iff).trans Opened.word_eq_iff
  have hiff : (∀ a ∈ cs, ∀ b ∈ cs, a.identifier hash = b.identifier hash → a = b) ↔
      ∀ a ∈ cs, ∀ b ∈ cs, a ≠ b → ¬ a.Overlaps b := by
    constructor
    · intro hinj a ha b hb hne ho
      exact hne (hinj a ha b hb (hword.2 (Or.inl ho)))
    · intro h a ha b hb he
      by_contra hne
      rcases hword.1 he with ho | ho
      · exact h a ha b hb hne ho
      · exact h b hb a ha (Ne.symm hne) ho
  refine ⟨Proxy.otherPool_associates, Proxy.frameCONN_associates, (List.nodup_map_iff_inj_on hcs).trans hiff,
    Iff.trans ?_ hiff⟩
  constructor
  · intro hone a ha b hb he
    exact List.inj_on_of_nodup_map hnew ha hb
      (hone _ (List.mem_map.2 ⟨a, ha, rfl⟩) _ (List.mem_map.2 ⟨b, hb, rfl⟩) he)
  · intro hinj p hp q hq he
    obtain ⟨a, ha, rfl⟩ := List.mem_map.1 hp
    obtain ⟨b, hb, rfl⟩ := List.mem_map.1 hq
    exact congrArg newID (hinj a ha b hb he)

/-- An injective hash. -/
private def wordHash (bs : Bytes) : Nat := Encodable.encode (bs.map UInt8.toNat)

private theorem wordHash_injective : Function.Injective wordHash :=
  Encodable.encode_injective.comp (List.map_injective_iff.2 fun _ _ => UInt8.toNat_inj.1)

/-- A connection to the component `c` through the proxy of the pool `a`. -/
private def first : Opened := ⟨literal ['a'], literal ['T', 'C', 'P', ':', 'c'], 94000000000000⟩

/-- The same through the proxy of the pool `a9`. -/
private def second : Opened := ⟨literal ['a', '9'], literal ['T', 'C', 'P', ':', 'c'], 4000000000000⟩

/-- The same through the proxy of the pool `b`. -/
private def third : Opened := ⟨literal ['b'], literal ['T', 'C', 'P', ':', 'c'], 4000000000000⟩

theorem connID_distinct_run : ([first, third].map (Opened.identifier wordHash)).Nodup := by
  obtain ⟨-, -, hiff, -⟩ :=
    @connID_distinct wordHash [first, third] Opened.handleID wordHash_injective (by decide) (by decide)
  refine hiff.2 ?_
  have hne : first.word ≠ third.word := by decide
  intro a ha b hb hab ho
  have hw := Opened.overlaps_word ho
  rcases List.mem_pair.1 ha with rfl | rfl <;> rcases List.mem_pair.1 hb with rfl | rfl
  · exact hab rfl
  · exact hne hw
  · exact hne hw.symm
  · exact hab rfl

/-- Connections to one component through the proxies of the pools `a` and `a9`: the word of both is
`TCP:ca94000000000000`. -/
theorem connID_collides :
    ¬ ∀ {hash : Bytes → Nat} {cs : List Opened} {newID : Opened → Nat}, Function.Injective hash →
      (cs.map fun c => (c.pool, c.handleID)).Nodup → (cs.map newID).Nodup →
      (cs.map (Opened.identifier hash)).Nodup ∧ OneHandleEach (cs.map fun c => (newID c, c.identifier hash)) := by
  intro h
  have hword : first.word = second.word := by decide
  obtain ⟨hn, -⟩ := @h wordHash [first, second] Opened.handleID wordHash_injective (by decide) (by decide)
  have heq : first = second :=
    List.inj_on_of_nodup_map hn (List.mem_pair.2 (Or.inl rfl)) (List.mem_pair.2 (Or.inr rfl)) (congrArg wordHash hword)
  exact absurd heq (by decide)

end Mtcl
