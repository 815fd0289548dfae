import FairBridge.Model.Number
import FairBridge.Text.Decimal

/-!
Text as the service reads it off the chain: the non-fatal UTF-8 decoder of
`TextDecoder` and the trimming of ECMAScript white space; and text as it puts it
there.
-/

namespace FairBridge

/-- A multi-byte sequence in progress: the code point so far, how many
continuation bytes are missing, and the range the next byte has to be in. -/
structure Utf8State where
  codePoint : Nat
  needed : Nat
  lower : Nat
  upper : Nat
  deriving DecidableEq, Repr

namespace Utf8State

def idle : Utf8State := ⟨0, 0, 0x80, 0xBF⟩

def replacement : Char := Char.ofNat 0xFFFD

/-- The first byte of a sequence. -/
def lead (b : Nat) : Utf8State × List Char :=
  if b ≤ 0x7F then (idle, [Char.ofNat b])
  else if 0xC2 ≤ b ∧ b ≤ 0xDF then (⟨b % 0x20, 1, 0x80, 0xBF⟩, [])
  else if 0xE0 ≤ b ∧ b ≤ 0xEF then
    (⟨b % 0x10, 2, if b = 0xE0 then 0xA0 else 0x80, if b = 0xED then 0x9F else 0xBF⟩, [])
  else if 0xF0 ≤ b ∧ b ≤ 0xF4 then
    (⟨b % 0x08, 3, if b = 0xF0 then 0x90 else 0x80, if b = 0xF4 then 0x8F else 0xBF⟩, [])
  else (idle, [replacement])

def feed (s : Utf8State) (b : Nat) : Utf8State × List Char :=
  if s.needed = 0 then lead b
  else if s.lower ≤ b ∧ b ≤ s.upper then
    let codePoint := s.codePoint * 0x40 + b % 0x40
    if s.needed = 1 then (idle, [Char.ofNat codePoint])
    else (⟨codePoint, s.needed - 1, 0x80, 0xBF⟩, [])
  else
    -- a sequence cut short is replaced, and the byte starts a new one
    ((lead b).1, replacement :: (lead b).2)

end Utf8State

def utf8DecodeFrom : Utf8State → List UInt8 → List Char
  | s, [] => if s.needed = 0 then [] else [Utf8State.replacement]
  | s, b :: bs => (s.feed b.toNat).2 ++ utf8DecodeFrom (s.feed b.toNat).1 bs

def byteOrderMark : Char := Char.ofNat 0xFEFF

/-- `new TextDecoder().decode(bytes)`: a leading byte order mark is dropped. -/
def textDecode (bytes : List UInt8) : List Char :=
  match utf8DecodeFrom .idle bytes with
  | c :: cs => if c = byteOrderMark then cs else c :: cs
  | [] => []

/-- ECMAScript white space and line terminators. -/
def isJsSpace (c : Char) : Bool :=
  let n := c.toNat
  (0x09 ≤ n && n ≤ 0x0D) || n == 0x20 || n == 0xA0 || n == 0x1680 ||
    (0x2000 ≤ n && n ≤ 0x200A) || n == 0x2028 || n == 0x2029 || n == 0x202F ||
    n == 0x205F || n == 0x3000 || n == 0xFEFF

/-- `s.trim()`. -/
def jsTrim (cs : List Char) : List Char :=
  (((cs.dropWhile isJsSpace).reverse).dropWhile isJsSpace).reverse

/-- The destination that the bytes of a burn event spell. -/
def decodeFaircoinAddressBytes (bytes : List UInt8) : String :=
  String.ofList (jsTrim (textDecode bytes))

/-- The bytes a burn of the service's own sends along, in UTF-8. -/
def fairAddressToBytes (address : String) : List UInt8 :=
  address.toList.flatMap String.utf8EncodeChar

/-- `byte.toString(16).padStart(2, "0")`. -/
def hexByte (byte : UInt8) : List Char := Decimal.padStart 2 '0' (Nat.toDigits 16 byte.toNat)

/-- Bytes as the libraries pass them around. -/
def hexText (bytes : List UInt8) : String := "0x" ++ String.ofList (bytes.flatMap hexByte)

/-- The value of a digit of a number in the given radix. -/
def digitValue (radix : Nat) (c : Char) : Option Nat :=
  let value := if c.isDigit then c.toNat - 48
    else if 'a' ≤ c ∧ c ≤ 'z' then c.toNat - 87
    else if 'A' ≤ c ∧ c ≤ 'Z' then c.toNat - 55
    else radix
  if value < radix then some value else none

/-- A nonempty list of digits. -/
def digitsValue (radix : Nat) (cs : List Char) : Option Nat :=
  if cs = [] then none
  else cs.foldlM (fun n c => (digitValue radix c).map fun d => radix * n + d) 0

/-- What `BigInt` accepts besides plain digits: a sign, or the prefix of another radix. -/
def prefixedBigInt : List Char → Option Int
  | '-' :: cs => (digitsValue 10 cs).map fun n => -(n : Int)
  | '+' :: cs => (digitsValue 10 cs).map fun n => (n : Int)
  | '0' :: radix :: cs =>
      if radix = 'x' ∨ radix = 'X' then (digitsValue 16 cs).map fun n => (n : Int)
      else if radix = 'o' ∨ radix = 'O' then (digitsValue 8 cs).map fun n => (n : Int)
      else if radix = 'b' ∨ radix = 'B' then (digitsValue 2 cs).map fun n => (n : Int)
      else none
  | _ => none

/-- `BigInt(text)`. White space around the number does not count, and no digits are zero. -/
def bigIntOfText (text : List Char) : Except JsError Int :=
  let trimmed := jsTrim text
  if trimmed.all Char.isDigit then .ok (Nat.ofDigitChars 10 trimmed 0)
  else match prefixedBigInt trimmed with
    | some n => .ok n
    | none => .error (.error "Failed to parse String to BigInt")

theorem jsTrim_of_ends {cs : List Char} (hhead : ∀ c, cs.head? = some c → isJsSpace c = false)
    (hlast : ∀ c, cs.getLast? = some c → isJsSpace c = false) : jsTrim cs = cs := by
  have hdrop : ∀ ds : List Char, (∀ c, ds.head? = some c → isJsSpace c = false) →
      ds.dropWhile isJsSpace = ds := by
    intro ds hds
    cases ds with
    | nil => rfl
    | cons c ds => rw [List.dropWhile_cons_of_neg (by rw [hds c rfl]; exact Bool.false_ne_true)]
  rw [jsTrim, hdrop cs hhead, hdrop cs.reverse, List.reverse_reverse]
  intro c hc
  exact hlast c (List.head?_reverse ▸ hc)

theorem isJsSpace_digit {c : Char} (h : c.isDigit = true) : isJsSpace c = false := by
  simp only [Char.isDigit, Bool.and_eq_true, decide_eq_true_eq, ge_iff_le, UInt32.le_iff_toNat_le] at h
  simp only [isJsSpace, Bool.or_eq_false_iff, Bool.and_eq_false_iff, decide_eq_false_iff_not,
    beq_eq_false_iff_ne, Char.toNat]
  have h48 : 48 ≤ c.val.toNat := h.1
  have h57 : c.val.toNat ≤ 57 := h.2
  omega

/-- Plain digits are read as they are written. -/
theorem bigIntOfText_digits {cs : List Char} (h : ∀ c ∈ cs, c.isDigit = true) :
    bigIntOfText cs = .ok (Nat.ofDigitChars 10 cs 0) := by
  have htrim : jsTrim cs = cs :=
    jsTrim_of_ends (fun c hc => isJsSpace_digit (h c (List.mem_of_mem_head? hc)))
      fun c hc => isJsSpace_digit (h c (List.mem_of_getLast? hc))
  rw [bigIntOfText, htrim, if_pos (List.all_eq_true.mpr h)]

example : decodeFaircoinAddressBytes [0x20, 0x46, 0xC3, 0xA9, 0xE2, 0x82, 0x0A] = "Fé\uFFFD" := by
  decide

end FairBridge
