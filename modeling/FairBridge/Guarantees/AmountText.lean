import FairBridge.Api.Buy

/-!
Amounts as text. What is quoted to the payer spells the exact amount, and what the payer
asks for is read exactly.
-/

namespace FairBridge.BuyQuote
open Decimal

/-- The numeral a quoted amount is written as. -/
def quotedNumeral (n decimals : Nat) : Numeral where
  whole := Nat.toDigits 10 (n / 10 ^ decimals)
  frac := stripZeros (padStart decimals '0' (Nat.toDigits 10 (n % 10 ^ decimals)))
  nonempty := Nat.toDigits_ne_nil
  whole_digits _ hc := Nat.isDigit_of_mem_toDigits (by decide) (by decide) hc
  frac_digits c hc := by
    cases List.mem_append.mp (mem_stripZeros hc) with
    | inl h => rw [List.eq_of_mem_replicate h]; decide
    | inr h => exact Nat.isDigit_of_mem_toDigits (by decide) (by decide) h

theorem length_remainder {n decimals : Nat} (h : 1 ≤ decimals) :
    (Nat.toDigits 10 (n % 10 ^ decimals)).length ≤ decimals :=
  (Nat.length_toDigits_le_iff (by decide) h).mpr (Nat.mod_lt n (Nat.pow_pos (by decide)))

theorem quotedNumeral_value {n decimals : Nat} (h : 1 ≤ decimals) :
    (quotedNumeral n decimals).value = (n : ℚ) / 10 ^ decimals := by
  have hdigits : (n : ℚ) = 10 ^ decimals * (n / 10 ^ decimals : Nat) + (n % 10 ^ decimals : Nat) := by
    exact_mod_cast (Nat.div_add_mod n (10 ^ decimals)).symm
  rw [Numeral.value, quotedNumeral, fraction_stripZeros, ofDigitChars_padStart,
    length_padStart (length_remainder h), Nat.ofDigitChars_ten_toDigits,
    Nat.ofDigitChars_ten_toDigits, hdigits, add_div, mul_div_cancel_left₀]
  positivity

theorem quotedNumeral_length {n decimals : Nat} (h : 1 ≤ decimals) :
    (quotedNumeral n decimals).frac.length ≤ decimals := by
  refine Nat.le_trans (length_stripZeros _) ?_
  rw [length_padStart (length_remainder h)]

/-- No fraction is written exactly where there is none. -/
theorem quotedNumeral_frac {n decimals : Nat} (h : 1 ≤ decimals) :
    (quotedNumeral n decimals).frac = [] ↔ n % 10 ^ decimals = 0 := by
  constructor
  · intro hnil
    have hzero := stripZeros_eq_nil hnil
    rw [ofDigitChars_padStart, Nat.ofDigitChars_ten_toDigits] at hzero
    exact hzero
  · intro hzero
    have hpad : padStart decimals '0' (Nat.toDigits 10 0) = List.replicate decimals '0' := by
      rw [Nat.toDigits_zero, padStart, ← List.replicate_one, ← List.replicate_add,
        List.length_replicate, Nat.sub_add_cancel h]
    have hfrac : (quotedNumeral n decimals).frac =
      stripZeros (padStart decimals '0' (Nat.toDigits 10 (n % 10 ^ decimals))) := rfl
    rw [hfrac, hzero, hpad, stripZeros, List.reverse_replicate]
    simp

theorem bigIntOfText_toString (n : Nat) : bigIntOfText (toString n).toList = .ok (n : Int) := by
  have hlist : (toString n).toList = Nat.toDigits 10 n := by
    rw [Nat.toString_eq_ofList_toDigits, String.toList_ofList]
  rw [hlist, bigIntOfText_digits fun c hc => Nat.isDigit_of_mem_toDigits (by decide) (by decide) hc,
    Nat.ofDigitChars_ten_toDigits]

theorem formatPaymentAmount_eq {n decimals : Nat} (h : 1 ≤ decimals) :
    formatPaymentAmount (toString n) decimals =
      .ok (String.ofList (quotedNumeral n decimals).text) := by
  have hwhole : bigIntDiv (n : Int) (10 ^ decimals) = ((n / 10 ^ decimals : Nat) : Int) := by
    rw [bigIntDiv, Int.tdiv_eq_ediv_of_nonneg (Int.natCast_nonneg n)]
    norm_cast
  have hfrac : Int.tmod (n : Int) (10 ^ decimals) = ((n % 10 ^ decimals : Nat) : Int) := by
    rw [Int.tmod_eq_emod_of_nonneg (Int.natCast_nonneg n)]
    norm_cast
  have hdigits (m : Nat) : toString (m : Int) = String.ofList (Nat.toDigits 10 m) :=
    Nat.toString_eq_ofList_toDigits
  rw [formatPaymentAmount, bigIntOfText_toString]
  simp only [bind, Except.bind, Int.toNat_natCast, hwhole, hfrac, hdigits]
  rw [if_neg (by omega)]
  by_cases hzero : n % 10 ^ decimals = 0
  · rw [if_pos (by exact_mod_cast hzero), Numeral.text,
      if_pos ((quotedNumeral_frac h).mpr hzero), List.append_nil]
    rfl
  · rw [if_neg (by exact_mod_cast hzero), Numeral.text,
      if_neg fun hnil => hzero ((quotedNumeral_frac h).mp hnil)]
    refine congrArg Except.ok ?_
    rw [String.toList_ofList]
    apply String.toList_injective
    simp [quotedNumeral]

/-- The parts of a numeral's text, as it is split at the point. -/
theorem splitOn_text (x : Numeral) :
    x.text.splitOn '.' = if x.frac = [] then [x.whole] else [x.whole, x.frac] := by
  have hpoint : ∀ cs : List Char, (∀ c ∈ cs, c.isDigit = true) → '.' ∉ cs :=
    fun cs hcs hc => absurd (hcs '.' hc) (by decide)
  rw [Numeral.text]
  split
  · rw [List.append_nil]
    exact List.splitOn_eq_singleton (hpoint _ x.whole_digits)
  · rw [List.splitOn_append_cons_self_of_not_mem (hpoint _ x.whole_digits),
      List.splitOn_eq_singleton (hpoint _ x.frac_digits)]

theorem numeral_frac_eq {x y : Numeral} (h : x.text = y.text) : x.frac = y.frac := by
  have hparts := congrArg (List.splitOn '.') h
  rw [splitOn_text, splitOn_text] at hparts
  by_cases hx : x.frac = []
  · by_cases hy : y.frac = []
    · rw [hx, hy]
    · rw [if_pos hx, if_neg hy] at hparts
      exact absurd (congrArg List.length hparts) (by simp)
  · by_cases hy : y.frac = []
    · rw [if_neg hx, if_pos hy] at hparts
      exact absurd (congrArg List.length hparts) (by simp)
    · rw [if_neg hx, if_neg hy] at hparts
      exact (List.cons.inj (List.cons.inj hparts).2).1

/-- The schema takes the numerals with up to eight digits behind the point. -/
theorem fairAmountRegex_iff {text : List Char} : fairAmountRegex.test text = true ↔
    ∃ x : Numeral, x.frac.length ≤ 8 ∧ x.text = text := by
  rw [Regex.test_iff]
  constructor
  · rintro ⟨whole, rest, ⟨hne, hwhole⟩, hrest, rfl⟩
    obtain ⟨_, frac, ⟨c, hc, rfl⟩, hfrac, rfl⟩ | rfl := hrest
    · obtain ⟨hfne, hlen, hdigits⟩ := Regex.matches_upTo.mp hfrac
      refine ⟨⟨whole, frac, hne, hwhole, hdigits⟩, hlen, ?_⟩
      rw [Numeral.text, if_neg hfne, eq_of_beq hc]
      rfl
    · exact ⟨⟨whole, [], hne, hwhole, by simp⟩, Nat.zero_le 8, rfl⟩
  · rintro ⟨x, hlen, rfl⟩
    refine ⟨x.whole, _, ⟨x.nonempty, x.whole_digits⟩, ?_, rfl⟩
    by_cases hnil : x.frac = []
    · exact Or.inr (if_pos hnil)
    · rw [if_neg hnil]
      exact Or.inl ⟨['.'], x.frac, ⟨'.', rfl, rfl⟩,
        Regex.matches_upTo.mpr ⟨hnil, hlen, x.frac_digits⟩, rfl⟩

theorem fairAmountToSats_numeral (x : Numeral) (h : x.frac.length ≤ 8) :
    ∃ sats, fairAmountToSats (String.ofList x.text) = .ok sats ∧
      (sats : ℚ) = x.value * 10 ^ 8 := by
  have hparts : (x.text.splitOn '.').getD 0 ['0'] = x.whole ∧
      (x.text.splitOn '.').getD 1 [] = x.frac := by
    rw [splitOn_text]
    split
    · exact ⟨rfl, Eq.symm ‹_›⟩
    · exact ⟨rfl, rfl⟩
  have hpadded : (x.frac ++ List.replicate 8 '0').take 8 =
      x.frac ++ List.replicate (8 - x.frac.length) '0' := by
    rw [List.take_append, List.take_of_length_le h, List.take_replicate,
      Nat.min_eq_left (Nat.sub_le 8 _)]
  have hdigits : ∀ c ∈ x.frac ++ List.replicate (8 - x.frac.length) '0', c.isDigit = true := by
    intro c hc
    cases List.mem_append.mp hc with
    | inl hc => exact x.frac_digits c hc
    | inr hc => rw [List.eq_of_mem_replicate hc]; decide
  refine ⟨(Nat.ofDigitChars 10 x.whole 0 : Int) * satsPerFair +
    (Nat.ofDigitChars 10 (x.frac ++ List.replicate (8 - x.frac.length) '0') 0 : Int), ?_, ?_⟩
  · rw [fairAmountToSats, String.toList_ofList]
    simp only [hparts, hpadded, bigIntOfText_digits x.whole_digits, bigIntOfText_digits hdigits]
    rfl
  · have hfill := ofDigitChars_fill h
    have hsats : ((satsPerFair : Int) : ℚ) = 10 ^ 8 := by norm_num [satsPerFair]
    rw [Numeral.value, add_mul, ← hfill, ← hsats]
    push_cast
    rfl

/-- An amount is quoted by a numeral of its exact value, every amount that the schema takes is
read as its exact value, and so the quoted text of an amount of sats is read as that amount. -/
theorem amount_text_exact :
    (∀ n decimals : Nat, 1 ≤ decimals → ∃ x : Numeral,
      formatPaymentAmount (toString n) decimals = .ok (String.ofList x.text) ∧
      x.value = (n : ℚ) / 10 ^ decimals ∧ x.frac.length ≤ decimals ∧
      x.frac.getLast? ≠ some '0') ∧
    (∀ amount : String, fairAmountRegex.test amount.toList = true →
      (∃ x : Numeral, x.text = amount.toList) ∧
      ∀ x : Numeral, x.text = amount.toList → ∃ sats, fairAmountToSats amount = .ok sats ∧
        (sats : ℚ) = x.value * 10 ^ 8) ∧
    ∀ n : Nat, (formatPaymentAmount (toString n) 8).bind fairAmountToSats = .ok (n : Int) := by
  refine ⟨fun n decimals h => ?_, fun amount h => ?_, fun n => ?_⟩
  · exact ⟨quotedNumeral n decimals, formatPaymentAmount_eq h, quotedNumeral_value h,
      quotedNumeral_length h, getLast_stripZeros _⟩
  · obtain ⟨x, hlen, htext⟩ := fairAmountRegex_iff.mp h
    refine ⟨⟨x, htext⟩, fun y hy => ?_⟩
    rw [numeral_frac_eq (htext.trans hy.symm)] at hlen
    obtain ⟨sats, hsats, hvalue⟩ := fairAmountToSats_numeral y hlen
    rw [hy, String.ofList_toList] at hsats
    exact ⟨sats, hsats, hvalue⟩
  · obtain ⟨sats, hsats, hvalue⟩ := fairAmountToSats_numeral (quotedNumeral n 8)
      (quotedNumeral_length (by decide))
    have hformat := @formatPaymentAmount_eq n 8 (by decide)
    rw [Nat.cast_ofNat] at hformat
    simp only [hformat, Except.bind, hsats, Except.ok.injEq]
    rw [quotedNumeral_value (by decide), div_mul_cancel₀ _ (by norm_num)] at hvalue
    exact_mod_cast hvalue

/-- One and a half ether, and 12.5 FAIR. -/
theorem sample_amounts_exact :
    (∃ x : Numeral, formatPaymentAmount (toString 1500000000000000000) 18 =
        .ok (String.ofList x.text) ∧ x.value = (1500000000000000000 : Nat) / 10 ^ 18) ∧
    ∃ x : Numeral, x.text = "12.5".toList ∧ ∃ sats, fairAmountToSats "12.5" = .ok sats ∧
      (sats : ℚ) = x.value * 10 ^ 8 := by
  obtain ⟨x, hx, hvalue, _⟩ := amount_text_exact.1 1500000000000000000 18 (by decide)
  obtain ⟨⟨y, hy⟩, hread⟩ := amount_text_exact.2.1 "12.5" (by decide +kernel)
  exact ⟨⟨x, hx, hvalue⟩, y, hy, hread y hy⟩

end FairBridge.BuyQuote
