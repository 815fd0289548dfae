import Mathlib.Data.Rat.Floor
import Mathlib.Tactic.NormNum
import Mathlib.Tactic.Positivity

/-!
Numbers and errors of the service. Amounts travel as bigints. Configuration
values are numbers, and a number becomes a bigint only if it is an integer.
-/

namespace FairBridge

/-- A raised `Error`; `nonRetryable` marks the `NonRetryableError` subclass. -/
structure JsError where
  message : String
  nonRetryable : Bool
  deriving DecidableEq, Repr

def JsError.error (message : String) : JsError := ⟨message, false⟩

def JsError.nonRetryableError (message : String) : JsError := ⟨message, true⟩

/-- `message.includes(part)`. -/
def JsError.includes (e : JsError) (part : String) : Bool :=
  decide (part.toList <:+: e.message.toList)

/-- A number other than NaN. A rational stands for the double nearest to it. -/
inductive JsNumber where
  | finite (q : ℚ)
  | infinity (negative : Bool)
  deriving DecidableEq

namespace JsNumber

/-- `BigInt(x)`. -/
def toBigInt : JsNumber → Except JsError Int
  | .finite q =>
      if q.den = 1 then .ok q.num
      else .error (.error "The number cannot be converted to a BigInt because it is not an integer")
  | .infinity _ =>
      .error (.error "The number cannot be converted to a BigInt because it is not an integer")

/-- From here on a rational is nearer to infinity than to any double. -/
def overflow : ℚ := 2 ^ 1024 - 2 ^ 970

/-- The double nearest to a rational. -/
def nearest (q : ℚ) : JsNumber :=
  if overflow ≤ |q| then .infinity (decide (q < 0)) else .finite q

/-- `x * 100_000_000`. -/
def timesSatsPerFair : JsNumber → JsNumber
  | .finite q => nearest (q * 100000000)
  | .infinity negative => .infinity negative

/-- `n - x` for an integer `n`. -/
def subFrom (n : Int) : JsNumber → JsNumber
  | .finite q => .finite (n - q)
  | .infinity negative => .infinity (!negative)

/-- `n <= x` for an integer `n`. -/
def atLeast (n : Int) : JsNumber → Bool
  | .finite q => decide ((n : ℚ) ≤ q)
  | .infinity negative => !negative

/-- `n < x` for an integer `n`. -/
def above (n : Int) : JsNumber → Bool
  | .finite q => decide ((n : ℚ) < q)
  | .infinity negative => !negative

end JsNumber

/-- `Math.round` on a finite number: halves go up. -/
def roundHalfUp (q : ℚ) : Int := (q + 1 / 2).floor

/-- `Math.round(x)`. -/
def JsNumber.round : JsNumber → JsNumber
  | .finite q => .finite (roundHalfUp q : ℚ)
  | .infinity negative => .infinity negative

/-- `BigInt(Math.round(x * 100_000_000))`. -/
def JsNumber.toSats (x : JsNumber) : Except JsError Int :=
  x.timesSatsPerFair.round.toBigInt

/-- Division of bigints rounds towards zero. -/
def bigIntDiv (a b : Int) : Int := a.tdiv b

def satsPerFair : Int := 100000000

/-- 1e10, from 8-decimal sats to 18-decimal wei. -/
def satsToWei : Int := 10000000000

def bpsDenom : Int := 10000

def dayMs : Nat := 24 * 60 * 60 * 1000

/-- The part of an amount that is left after the bridge fee. -/
def applyFee (amount : Int) (feeBps : JsNumber) : Except JsError Int := do
  return bigIntDiv (amount * (bpsDenom - (← feeBps.toBigInt))) bpsDenom

@[simp] theorem JsNumber.toBigInt_int (n : Int) :
    (JsNumber.finite (n : ℚ)).toBigInt = .ok n := by
  simp [JsNumber.toBigInt]

/-- `Math.round` makes an integer of every number but an infinite one. -/
theorem JsNumber.toSats_ok_iff {x : JsNumber} :
    (∃ n, x.toSats = .ok n) ↔ ∃ q, x.timesSatsPerFair = .finite q := by
  rw [toSats]
  cases x.timesSatsPerFair with
  | finite q => exact ⟨fun _ => ⟨q, rfl⟩, fun _ => ⟨roundHalfUp q, toBigInt_int _⟩⟩
  | infinity _ =>
      constructor
      · intro h
        obtain ⟨_, h⟩ := h
        cases h
      · intro h
        obtain ⟨_, h⟩ := h
        cases h

theorem JsNumber.toBigInt_ok {x : JsNumber} {n : Int} (h : x.toBigInt = .ok n) :
    x = .finite (n : ℚ) := by
  cases x with
  | infinity _ => cases h
  | finite q =>
      simp only [JsNumber.toBigInt] at h
      split at h
      · rename_i hd
        cases h
        rw [Rat.den_eq_one_iff q |>.mp hd]
      · cases h

@[simp] theorem roundHalfUp_int (n : Int) : roundHalfUp (n : ℚ) = n := by
  have h : ⌊((n : ℚ) + 1 / 2)⌋ = n := by
    rw [Int.floor_eq_iff]
    constructor <;> norm_num
  exact h

theorem roundHalfUp_nonneg {q : ℚ} (h : 0 ≤ q) : 0 ≤ roundHalfUp q := by
  have hfloor : 0 ≤ ⌊q + 1 / 2⌋ := Int.floor_nonneg.mpr (by positivity)
  exact hfloor

theorem applyFee_eq (amount fee : Int) :
    applyFee amount (.finite (fee : ℚ)) =
      .ok (bigIntDiv (amount * (bpsDenom - fee)) bpsDenom) := by
  simp only [applyFee, JsNumber.toBigInt_int]
  rfl

theorem applyFee_ok {amount r : Int} {feeBps : JsNumber} (h : applyFee amount feeBps = .ok r) :
    ∃ fee : Int, feeBps = .finite (fee : ℚ) ∧
      r = bigIntDiv (amount * (bpsDenom - fee)) bpsDenom := by
  cases hf : feeBps.toBigInt with
  | error e =>
      rw [applyFee, hf] at h
      cases h
  | ok fee =>
      have hfee := JsNumber.toBigInt_ok hf
      rw [hfee, applyFee_eq] at h
      exact ⟨fee, hfee, (Except.ok.inj h).symm⟩

/-- Towards zero is down where the quotient is positive. -/
theorem bigIntDiv_of_pos {a b : Int} (hb : 0 < b) (h : 0 < bigIntDiv a b) :
    bigIntDiv a b = a / b := by
  have ha : 0 ≤ a := by
    by_contra hneg
    have hnn : 0 ≤ (-a).tdiv b := Int.tdiv_nonneg (by omega) (by omega)
    rw [Int.neg_tdiv] at hnn
    rw [bigIntDiv] at h
    omega
  exact Int.tdiv_eq_ediv_of_nonneg ha

/-- Within 0 to 10000 basis points the fee takes a part of the amount. -/
theorem bigIntDiv_fee_le {amount fee : Int} (ha : 0 ≤ amount) (h0 : 0 ≤ fee)
    (h1 : fee ≤ bpsDenom) :
    0 ≤ bigIntDiv (amount * (bpsDenom - fee)) bpsDenom ∧
      bigIntDiv (amount * (bpsDenom - fee)) bpsDenom ≤ amount := by
  have hb : bpsDenom = 10000 := rfl
  have hn : 0 ≤ amount * (bpsDenom - fee) := mul_nonneg ha (by omega)
  have hle : amount * (bpsDenom - fee) ≤ amount * bpsDenom :=
    mul_le_mul_of_nonneg_left (by omega) ha
  rw [bigIntDiv, Int.tdiv_eq_ediv_of_nonneg hn]
  refine ⟨Int.ediv_nonneg hn (by omega), ?_⟩
  rw [hb] at hle ⊢
  omega

end FairBridge
