import Mathlib.Data.List.Infix
import Mtcl.Handle

/-!
# The configuration file

What `parseConfig` leaves in `components`, and the functions on strings with which the configuration is used.  A
`std::string` is its bytes.
-/

namespace Mtcl

/-- A string literal. -/
def literal (cs : List Char) : Bytes := cs.map fun c => UInt8.ofNat c.toNat

/-- The characters of a decimal numeral. -/
theorem mem_numeral {b : UInt8} {n : Nat} (h : b ∈ literal (Nat.toDigits 10 n)) : 48 ≤ b.toNat ∧ b.toNat ≤ 57 := by
  obtain ⟨d, hd, rfl⟩ := List.mem_map.1 h
  have hdigit := Nat.isDigit_of_mem_toDigits (by decide) (by decide) hd
  simp only [Char.isDigit, Bool.and_eq_true, decide_eq_true_eq, UInt32.le_iff_toNat_le] at hdigit
  have hle : d.toNat ≤ 57 := hdigit.2
  have hge : 48 ≤ d.toNat := hdigit.1
  rw [UInt8.toNat_ofNat', Nat.mod_eq_of_lt (by omega)]
  exact ⟨hge, hle⟩

/-- An entry of `Manager::components`: host, protocols and listening endpoints. -/
structure Component where
  host : Bytes
  protocols : List Bytes
  listenStrs : List Bytes
  deriving DecidableEq, Repr

/-- `Manager::components`. -/
abbrev Components := Bytes → Option Component

/-- `s.substr(0, s.find(':'))`: the whole string when there is no colon. -/
def beforeColon (s : Bytes) : Bytes := s.takeWhile fun b => b != UInt8.ofNat ':'.toNat

/-- `s.substr(s.find(':') + 1)`: the whole string when there is no colon. -/
def afterColon (s : Bytes) : Bytes :=
  if UInt8.ofNat ':'.toNat ∈ s then s.drop (s.idxOf (UInt8.ofNat ':'.toNat) + 1) else s

/-- `s.find(t) != npos`. -/
def contains (s t : Bytes) : Bool := decide (t <:+: s)

/-- The lines that `std::getline` reads one after the other behind what it has read already of the first; the last one
needs no delimiter, but there is none behind a last delimiter. -/
def getlines (delim : UInt8) : Bytes → Bytes → List Bytes
  | [], line => if line = [] then [] else [line]
  | c :: cs, line => if c = delim then line :: getlines delim cs [] else getlines delim cs (line ++ [c])

end Mtcl
