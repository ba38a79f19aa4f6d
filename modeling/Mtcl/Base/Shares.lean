import Mathlib.Algebra.Order.Ring.Nat
import Mathlib.Data.List.Induction

/-!
# Dealing out a list

`share c i l` are the entries of the list `l` whose position is `i` modulo `c`: what the `i`-th of `c` players
gets when the list is dealt out.  Every entry is in exactly one share (`share_perm`), and the shares have the
same length up to one (`share_length_le`).
-/

namespace Shares

variable {α : Type}

/-- The entries whose position, counted from `k` on, is `i` modulo `c`. -/
def shareFrom (c i : Nat) : Nat → List α → List α
  | _, [] => []
  | k, x :: l => if k % c = i then x :: shareFrom c i (k + 1) l else shareFrom c i (k + 1) l

/-- The entries whose position is `i` modulo `c`. -/
def share (c i : Nat) (l : List α) : List α := shareFrom c i 0 l

private theorem shareFrom_concat (c i k : Nat) (l : List α) (x : α) :
    shareFrom c i k (l ++ [x]) = shareFrom c i k l ++ if (k + l.length) % c = i then [x] else [] := by
  induction l generalizing k with
  | nil =>
    change (if k % c = i then [x] else []) = [] ++ _
    rw [List.nil_append, List.length_nil, Nat.add_zero]
  | cons y l ih =>
    rw [List.cons_append, shareFrom, shareFrom, ih, List.length_cons, Nat.add_right_comm, Nat.add_assoc k]
    by_cases hk : k % c = i
    · rw [if_pos hk, if_pos hk, List.cons_append]
    · rw [if_neg hk, if_neg hk]

/-- The next entry goes to the player whose turn it is. -/
theorem share_concat (c i : Nat) (l : List α) (x : α) :
    share c i (l ++ [x]) = share c i l ++ if l.length % c = i then [x] else [] := by
  rw [share, shareFrom_concat, Nat.zero_add]
  rfl

private theorem flatMap_perm {ι : Type} {is : List ι} (hn : is.Nodup) {j : ι} (hj : j ∈ is) {x : α} {f g : ι → List α}
    (hself : f j = g j ++ [x]) (hother : ∀ i ∈ is, i ≠ j → f i = g i) : (is.flatMap f).Perm (is.flatMap g ++ [x]) := by
  induction is with
  | nil => exact absurd hj List.not_mem_nil
  | cons i is ih =>
    obtain ⟨hi, hn⟩ := List.nodup_cons.1 hn
    rw [List.flatMap_cons, List.flatMap_cons, List.append_assoc]
    rcases List.mem_cons.1 hj with rfl | hj
    · have hrest : is.flatMap f = is.flatMap g := by
        have hmap : is.map f = is.map g := by
          refine List.map_congr_left fun i' hi' => hother i' (List.mem_cons_of_mem _ hi') ?_
          rintro rfl
          exact hi hi'
        rw [List.flatMap_def, List.flatMap_def, hmap]
      rw [hself, hrest, List.append_assoc]
      exact List.perm_append_comm.append_left _
    · have hne : i ≠ j := by
        rintro rfl
        exact hi hj
      rw [hother i (List.mem_cons_self ..) hne]
      exact (ih hn hj fun i' hi' => hother i' (List.mem_cons_of_mem _ hi')).append_left _

/-- Every entry goes to exactly one of the players. -/
theorem share_perm {c : Nat} (hc : 0 < c) (l : List α) : ((List.range c).flatMap fun i => share c i l).Perm l := by
  induction l using List.reverseRecOn with
  | nil =>
    have hnil : ((List.range c).flatMap fun i => share c i ([] : List α)) = [] :=
      List.flatMap_eq_nil_iff.2 fun _ _ => rfl
    rw [hnil]
  | append_singleton l x ih =>
    have hturn : l.length % c ∈ List.range c := List.mem_range.2 (Nat.mod_lt _ hc)
    refine (flatMap_perm List.nodup_range hturn ?_ fun i _ hi => ?_).trans (ih.append_right [x])
    · rw [share_concat, if_pos rfl]
    · rw [share_concat, if_neg (Ne.symm hi), List.append_nil]

private theorem turn_iff {c i n : Nat} (hi : i < c) : c ∣ n + (c - 1 - i) + 1 ↔ n % c = i := by
  have hsum : n + (c - 1 - i) + 1 = n % c + (c - i) + c * (n / c) := by
    have := Nat.mod_add_div n c
    omega
  have hlt : n % c < c := Nat.mod_lt _ (Nat.lt_of_le_of_lt (Nat.zero_le i) hi)
  rw [hsum, Nat.dvd_iff_mod_eq_zero, Nat.add_mul_mod_self_left]
  by_cases hle : n % c < i
  · rw [Nat.mod_eq_of_lt (show n % c + (c - i) < c by omega)]
    omega
  · rw [Nat.mod_eq_sub_mod (show n % c + (c - i) ≥ c by omega),
      Nat.mod_eq_of_lt (show n % c + (c - i) - c < c by omega)]
    omega

theorem share_length {c i : Nat} (hi : i < c) (l : List α) : (share c i l).length = (l.length + (c - 1 - i)) / c := by
  induction l using List.reverseRecOn with
  | nil =>
    refine (Nat.div_eq_of_lt ?_).symm
    rw [List.length_nil]
    omega
  | append_singleton l x ih =>
    have hlen : (l ++ [x]).length + (c - 1 - i) = l.length + (c - 1 - i) + 1 := by
      rw [List.length_append, List.length_singleton]
      omega
    rw [share_concat, List.length_append, ih, hlen, Nat.succ_div]
    congr 1
    by_cases h : l.length % c = i
    · rw [if_pos h, if_pos ((turn_iff hi).2 h)]
      rfl
    · rw [if_neg h, if_neg fun hd => h ((turn_iff hi).1 hd)]
      rfl

/-- The shares have the same length, up to one. -/
theorem share_length_le {c i j : Nat} (hi : i < c) (hj : j < c) (l : List α) :
    (share c i l).length ≤ (share c j l).length + 1 := by
  rw [share_length hi, share_length hj, ← Nat.add_div_right _ (Nat.lt_of_le_of_lt (Nat.zero_le i) hi)]
  exact Nat.div_le_div_right (by omega)

end Shares
