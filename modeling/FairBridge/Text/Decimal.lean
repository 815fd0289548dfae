import Mathlib.Data.List.TakeWhile
import Mathlib.Data.Rat.Defs
import Mathlib.Tactic.FieldSimp
import Mathlib.Tactic.NormNum
import Mathlib.Tactic.Ring

/-!
Decimal numerals as text. Zeros in front of a number and behind a fraction do not count.
-/

namespace Decimal

/-- Digits, and the digits behind the point, if there are any. -/
structure Numeral where
  whole : List Char
  frac : List Char
  nonempty : whole ≠ []
  whole_digits : ∀ c ∈ whole, c.isDigit = true
  frac_digits : ∀ c ∈ frac, c.isDigit = true

namespace Numeral

def text (n : Numeral) : List Char :=
  n.whole ++ if n.frac = [] then [] else '.' :: n.frac

def value (n : Numeral) : ℚ :=
  Nat.ofDigitChars 10 n.whole 0 + Nat.ofDigitChars 10 n.frac 0 / 10 ^ n.frac.length

end Numeral

/-- `s.padStart(n, c)`. -/
def padStart (n : Nat) (c : Char) (s : List Char) : List Char :=
  List.replicate (n - s.length) c ++ s

/-- `s.replace(/0+$/, "")`. -/
def stripZeros (s : List Char) : List Char := (s.reverse.dropWhile fun c => c == '0').reverse

theorem length_padStart {n : Nat} {c : Char} {s : List Char} (h : s.length ≤ n) :
    (padStart n c s).length = n := by
  rw [padStart, List.length_append, List.length_replicate, Nat.sub_add_cancel h]

/-- Zeros in front do not count. -/
theorem ofDigitChars_padStart (n : Nat) (s : List Char) :
    Nat.ofDigitChars 10 (padStart n '0' s) 0 = Nat.ofDigitChars 10 s 0 := by
  rw [padStart, Nat.ofDigitChars_append, Nat.ofDigitChars_replicate_zero, Nat.mul_zero]

theorem stripZeros_append (s : List Char) :
    ∃ k, s = stripZeros s ++ List.replicate k '0' := by
  refine ⟨(s.reverse.takeWhile fun c => c == '0').length, ?_⟩
  have hzeros : s.reverse.takeWhile (fun c => c == '0') =
      List.replicate (s.reverse.takeWhile fun c => c == '0').length '0' := by
    refine List.eq_replicate_of_mem fun c hc => ?_
    have hzero : (c == '0') = true := List.mem_takeWhile_imp (p := fun c => c == '0') hc
    exact eq_of_beq hzero
  have hparts := List.takeWhile_append_dropWhile (p := fun c => c == '0') (l := s.reverse)
  rw [stripZeros, ← List.reverse_replicate, ← hzeros, ← List.reverse_append, hparts,
    List.reverse_reverse]

theorem getLast_stripZeros (s : List Char) : (stripZeros s).getLast? ≠ some '0' := by
  rw [stripZeros, List.getLast?_reverse]
  intro h
  obtain ⟨cs, hcs⟩ := List.head?_eq_some_iff.mp h
  have hlast := List.head?_dropWhile_not (fun c : Char => c == '0') s.reverse
  rw [h] at hlast
  cases hlast

theorem length_stripZeros (s : List Char) : (stripZeros s).length ≤ s.length := by
  obtain ⟨k, hk⟩ := stripZeros_append s
  have hlen := congrArg List.length hk
  rw [List.length_append] at hlen
  omega

theorem mem_stripZeros {s : List Char} {c : Char} (h : c ∈ stripZeros s) : c ∈ s := by
  obtain ⟨k, hk⟩ := stripZeros_append s
  rw [hk]
  exact List.mem_append_left _ h

/-- Zeros behind a fraction do not count. -/
theorem fraction_stripZeros (s : List Char) :
    (Nat.ofDigitChars 10 (stripZeros s) 0 : ℚ) / 10 ^ (stripZeros s).length =
      Nat.ofDigitChars 10 s 0 / 10 ^ s.length := by
  obtain ⟨k, hk⟩ := stripZeros_append s
  have hvalue : Nat.ofDigitChars 10 s 0 = 10 ^ k * Nat.ofDigitChars 10 (stripZeros s) 0 := by
    conv_lhs => rw [hk, Nat.ofDigitChars_append, Nat.ofDigitChars_replicate_zero]
  have hlen : s.length = (stripZeros s).length + k := by
    conv_lhs => rw [hk, List.length_append, List.length_replicate]
  rw [hvalue, hlen, pow_add]
  push_cast
  field_simp

theorem stripZeros_eq_nil {s : List Char} (h : stripZeros s = []) :
    Nat.ofDigitChars 10 s 0 = 0 := by
  obtain ⟨k, hk⟩ := stripZeros_append s
  rw [hk, h, List.nil_append, Nat.ofDigitChars_replicate_zero, Nat.mul_zero]

/-- A fraction that is cut or filled up with zeros to `k` digits. -/
theorem ofDigitChars_fill {s : List Char} {k : Nat} (h : s.length ≤ k) :
    (Nat.ofDigitChars 10 (s ++ List.replicate (k - s.length) '0') 0 : ℚ) =
      Nat.ofDigitChars 10 s 0 / 10 ^ s.length * 10 ^ k := by
  have hpow : (10 : ℚ) ^ k = 10 ^ (k - s.length) * 10 ^ s.length := by
    rw [← pow_add, Nat.sub_add_cancel h]
  rw [Nat.ofDigitChars_append, Nat.ofDigitChars_replicate_zero, hpow]
  push_cast
  field_simp

end Decimal
