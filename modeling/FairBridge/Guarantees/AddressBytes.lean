import FairBridge.Contract.Wfair
import FairBridge.Model.Text

/-!
The bytes of a destination. The service writes them when it burns and reads them off
every burn; what it reads is what was written.
-/

namespace FairBridge

namespace Utf8State

theorem feed_lead {b : Nat} : idle.feed b = lead b := rfl

/-- A continuation byte in range that does not complete the sequence. -/
theorem feed_next {codePoint needed lower upper b : Nat} (hlow : lower ≤ b) (hup : b ≤ upper) :
    (Utf8State.mk codePoint (needed + 2) lower upper).feed b =
      (⟨codePoint * 0x40 + b % 0x40, needed + 1, 0x80, 0xBF⟩, []) := by
  rw [feed, if_neg (Nat.succ_ne_zero _), if_pos ⟨hlow, hup⟩]
  exact if_neg (by simp)

/-- The last continuation byte. -/
theorem feed_last {codePoint lower upper b : Nat} (hlow : lower ≤ b) (hup : b ≤ upper) :
    (Utf8State.mk codePoint 1 lower upper).feed b =
      (idle, [Char.ofNat (codePoint * 0x40 + b % 0x40)]) := by
  rw [feed, if_neg Nat.one_ne_zero, if_pos ⟨hlow, hup⟩]
  exact if_pos rfl

theorem lead_one {b : Nat} (h : b ≤ 0x7F) : lead b = (idle, [Char.ofNat b]) := if_pos h

theorem lead_two {b : Nat} (hlow : 0xC2 ≤ b) (hup : b ≤ 0xDF) :
    lead b = (⟨b % 0x20, 1, 0x80, 0xBF⟩, []) := by
  rw [lead, if_neg (by omega), if_pos ⟨hlow, hup⟩]

theorem lead_three {b : Nat} (hlow : 0xE0 ≤ b) (hup : b ≤ 0xEF) :
    lead b = (⟨b % 0x10, 2, if b = 0xE0 then 0xA0 else 0x80,
      if b = 0xED then 0x9F else 0xBF⟩, []) := by
  rw [lead, if_neg (by omega), if_neg (by omega), if_pos ⟨hlow, hup⟩]

theorem lead_four {b : Nat} (hlow : 0xF0 ≤ b) (hup : b ≤ 0xF4) :
    lead b = (⟨b % 0x08, 3, if b = 0xF0 then 0x90 else 0x80,
      if b = 0xF4 then 0x8F else 0xBF⟩, []) := by
  rw [lead, if_neg (by omega), if_neg (by omega), if_neg (by omega), if_pos ⟨hlow, hup⟩]

end Utf8State

theorem byte_toNat {n : Nat} (h : n < 256) : (UInt8.ofNat n).toNat = n := by
  rw [UInt8.toNat_ofNat']
  exact Nat.mod_eq_of_lt h

/-- A character is read back from its bytes, whatever follows them. -/
theorem utf8DecodeFrom_char (c : Char) (bytes : List UInt8) :
    utf8DecodeFrom .idle (String.utf8EncodeChar c ++ bytes) = c :: utf8DecodeFrom .idle bytes := by
  have hvalid : c.val.toNat < 0xD800 ∨ 0xDFFF < c.val.toNat ∧ c.val.toNat < 0x110000 := c.valid
  have hback : Char.ofNat c.val.toNat = c := Char.ofNat_toNat c
  rw [String.utf8EncodeChar]
  generalize c.val.toNat = v at *
  split
  · simp only [List.cons_append, List.nil_append, utf8DecodeFrom]
    rw [byte_toNat (by omega), Utf8State.feed_lead, Utf8State.lead_one ‹_›, hback]
    rfl
  · split
    · simp only [List.cons_append, List.nil_append, utf8DecodeFrom]
      rw [byte_toNat (by omega), byte_toNat (by omega), Utf8State.feed_lead,
        Utf8State.lead_two (by omega) (by omega), Utf8State.feed_last (by omega) (by omega)]
      have hpoint : (v / 64 % 32 + 192) % 32 * 64 + (v % 64 + 128) % 64 = v := by omega
      rw [hpoint, hback]
      rfl
    · split
      · simp only [List.cons_append, List.nil_append, utf8DecodeFrom]
        rw [byte_toNat (by omega), byte_toNat (by omega), byte_toNat (by omega),
          Utf8State.feed_lead, Utf8State.lead_three (by omega) (by omega),
          Utf8State.feed_next (by split <;> omega) (by split <;> omega),
          Utf8State.feed_last (by omega) (by omega)]
        have hpoint : ((v / 4096 % 16 + 224) % 16 * 64 + (v / 64 % 64 + 128) % 64) * 64 +
          (v % 64 + 128) % 64 = v := by omega
        rw [hpoint, hback]
        rfl
      · simp only [List.cons_append, List.nil_append, utf8DecodeFrom]
        rw [byte_toNat (by omega), byte_toNat (by omega), byte_toNat (by omega),
          byte_toNat (by omega), Utf8State.feed_lead, Utf8State.lead_four (by omega) (by omega),
          Utf8State.feed_next (by split <;> omega) (by split <;> omega),
          Utf8State.feed_next (by omega) (by omega), Utf8State.feed_last (by omega) (by omega)]
        have hpoint : (((v / 262144 % 8 + 240) % 8 * 64 + (v / 4096 % 64 + 128) % 64) * 64 +
          (v / 64 % 64 + 128) % 64) * 64 + (v % 64 + 128) % 64 = v := by omega
        rw [hpoint, hback]
        rfl

/-- Text is read back from its bytes. -/
theorem utf8DecodeFrom_text (cs : List Char) :
    utf8DecodeFrom .idle (cs.flatMap String.utf8EncodeChar) = cs := by
  induction cs with
  | nil => rfl
  | cons c cs ih => rw [List.flatMap_cons, utf8DecodeFrom_char, ih]

/-- No ECMAScript white space at either end. -/
def Trimmed (s : String) : Prop :=
  (∀ c, s.toList.head? = some c → isJsSpace c = false) ∧
    ∀ c, s.toList.getLast? = some c → isJsSpace c = false

/-- A byte order mark is white space, so the decoder drops nothing. -/
theorem textDecode_trimmed {s : String} (h : Trimmed s) :
    textDecode (fairAddressToBytes s) = s.toList := by
  rw [textDecode, fairAddressToBytes, utf8DecodeFrom_text]
  cases hs : s.toList with
  | nil => rfl
  | cons c cs =>
      have hspace : isJsSpace c = false := h.1 c (by rw [hs]; rfl)
      refine if_neg ?_
      rintro rfl
      exact absurd hspace (by decide)

theorem decode_fairAddressToBytes {s : String} (h : Trimmed s) :
    decodeFaircoinAddressBytes (fairAddressToBytes s) = s := by
  rw [decodeFaircoinAddressBytes, textDecode_trimmed h, jsTrim_of_ends h.1 h.2,
    String.ofList_toList]

theorem fairAddressToBytes_injective : Function.Injective fairAddressToBytes := by
  intro s t h
  have hlist := congrArg (utf8DecodeFrom .idle) h
  rw [fairAddressToBytes, fairAddressToBytes, utf8DecodeFrom_text, utf8DecodeFrom_text] at hlist
  exact String.toList_injective hlist

/-- The alphabet of FairCoin addresses: no zero, no capital O or I, no small l. -/
def isBase58 (c : Char) : Bool :=
  ('1' ≤ c && c ≤ '9') || ('A' ≤ c && c ≤ 'Z' && c != 'I' && c != 'O') ||
    ('a' ≤ c && c ≤ 'z' && c != 'l')

theorem utf8Encode_base58 {c : Char} (h : isBase58 c = true) :
    (String.utf8EncodeChar c).length = 1 := by
  have hascii : c.val.toNat ≤ 127 := by
    simp only [isBase58, Bool.or_eq_true, Bool.and_eq_true, decide_eq_true_eq, Char.le_def,
      UInt32.le_iff_toNat_le] at h
    obtain (h | h) | h := h
    · have h9 : c.val.toNat ≤ 57 := h.2
      omega
    · have hZ : c.val.toNat ≤ 90 := h.1.1.2
      omega
    · have hz : c.val.toNat ≤ 122 := h.1.2
      omega
  rw [String.utf8EncodeChar]
  simp only [if_pos hascii]
  rfl

/-- A base58 address has as many bytes as characters. -/
theorem length_fairAddressToBytes {s : String} (h : ∀ c ∈ s.toList, isBase58 c = true) :
    (fairAddressToBytes s).length = s.length := by
  have hlen : ∀ cs : List Char, (∀ c ∈ cs, isBase58 c = true) →
      (cs.flatMap String.utf8EncodeChar).length = cs.length := by
    intro cs hcs
    induction cs with
    | nil => rfl
    | cons c cs ih =>
        obtain ⟨hc, hcs⟩ := List.forall_mem_cons.mp hcs
        rw [List.flatMap_cons, List.length_append, utf8Encode_base58 hc, ih hcs, List.length_cons,
          Nat.add_comm]
  rw [fairAddressToBytes, hlen _ h, String.length_toList]

namespace HexText

/-- The encoder returns the bytes as text. -/
def fairAddressToBytes (address : String) : String := hexText (FairBridge.fairAddressToBytes address)

/-- The decoder has a library turn the text into bytes. -/
def decodeFaircoinAddressBytes (hexToBytes : String → Except JsError (List UInt8)) (hex : String) :
    Except JsError String := do
  let bytes ← hexToBytes hex
  return FairBridge.decodeFaircoinAddressBytes bytes

theorem decode_fairAddressToBytes {hexToBytes : String → Except JsError (List UInt8)}
    (hhex : ∀ bytes, hexToBytes (hexText bytes) = .ok bytes) {s : String} (h : Trimmed s) :
    decodeFaircoinAddressBytes hexToBytes (fairAddressToBytes s) = .ok s := by
  rw [decodeFaircoinAddressBytes, fairAddressToBytes, hhex]
  exact congrArg Except.ok (FairBridge.decode_fairAddressToBytes h)

/-- An address without white space at its ends is read off its burn as it was written, no two
of them are burned to as one, and the contract bounds a base58 address as it is written. -/
theorem address_bytes_round_trip {hexToBytes : String → Except JsError (List UInt8)}
    (hhex : ∀ bytes, hexToBytes (hexText bytes) = .ok bytes) :
    (∀ a : String, Trimmed a →
      decodeFaircoinAddressBytes hexToBytes (fairAddressToBytes a) = .ok a) ∧
    (∀ a b : String, Trimmed a → Trimmed b → fairAddressToBytes a = fairAddressToBytes b → a = b) ∧
    ∀ a : String, (∀ c ∈ a.toList, isBase58 c = true) →
      ∃ bytes, hexToBytes (fairAddressToBytes a) = .ok bytes ∧ bytes.length = a.length ∧
        ∀ (σ : Type) (oz : Wfair.OpenZeppelin σ) sender amount s,
          (Wfair.bridgeBurn oz sender amount bytes s).isSome = true →
            26 ≤ a.length ∧ a.length ≤ 35 := by
  refine ⟨fun a ha => decode_fairAddressToBytes hhex ha, fun a b ha hb hab => ?_, fun a ha => ?_⟩
  · have hdecoded := decode_fairAddressToBytes hhex ha
    rw [hab, decode_fairAddressToBytes hhex hb] at hdecoded
    exact (Except.ok.inj hdecoded).symm
  · have hlen := length_fairAddressToBytes ha
    refine ⟨FairBridge.fairAddressToBytes a, hhex _, hlen, fun σ oz sender amount s hburn => ?_⟩
    obtain ⟨_, h⟩ := Option.isSome_iff_exists.mp hburn
    obtain ⟨_, _, h⟩ := Option.bind_eq_some_iff.mp h
    obtain ⟨_, _, h⟩ := Option.bind_eq_some_iff.mp h
    obtain ⟨_, hguard, _⟩ := Option.bind_eq_some_iff.mp h
    have hbounds : (FairBridge.fairAddressToBytes a).length ≥ 26 ∧
        (FairBridge.fairAddressToBytes a).length ≤ 35 := by
      by_contra hnot
      simp [guard, hnot] at hguard
    rw [hlen] at hbounds
    exact hbounds

end HexText

namespace Sample

/-- A byte from its two digits. -/
def byteOfPair (c d : Char) : Option UInt8 := do
  let high ← digitValue 16 c
  let low ← digitValue 16 d
  return UInt8.ofNat (16 * high + low)

def bytesOfPairs : List Char → Option (List UInt8)
  | [] => some []
  | [_] => none
  | c :: d :: cs => (byteOfPair c d).bind fun b => (bytesOfPairs cs).map fun bs => b :: bs

def hexToBytes (hex : String) : Except JsError (List UInt8) :=
  match bytesOfPairs (hex.toList.drop 2) with
  | some bytes => .ok bytes
  | none => .error (.error "Invalid byte sequence")

theorem byteOfPair_hexByte (b : UInt8) :
    ∃ c d, hexByte b = [c, d] ∧ byteOfPair c d = some b := by
  have hall : ∀ h < 16, ∀ l < 16,
      (Decimal.padStart 2 '0' (Nat.toDigits 16 (16 * h + l))).length = 2 ∧
        bytesOfPairs (Decimal.padStart 2 '0' (Nat.toDigits 16 (16 * h + l))) =
          some [UInt8.ofNat (16 * h + l)] := by
    decide +kernel
  have hlt := b.toNat_lt
  obtain ⟨hlength, hpairs⟩ := hall (b.toNat / 16) (by omega) (b.toNat % 16) (by omega)
  rw [Nat.div_add_mod] at hlength hpairs
  rw [UInt8.ofNat_toNat] at hpairs
  obtain ⟨c, d, hcd⟩ := List.length_eq_two.mp hlength
  rw [hcd, bytesOfPairs, bytesOfPairs] at hpairs
  obtain ⟨byte, hbyte, hrest⟩ := Option.bind_eq_some_iff.mp hpairs
  cases hrest
  exact ⟨c, d, hcd, hbyte⟩

theorem hexToBytes_hexText (bytes : List UInt8) : hexToBytes (hexText bytes) = .ok bytes := by
  have hpairs : bytesOfPairs (bytes.flatMap hexByte) = some bytes := by
    induction bytes with
    | nil => rfl
    | cons b bytes ih =>
        obtain ⟨c, d, hcd, hbyte⟩ := byteOfPair_hexByte b
        rw [List.flatMap_cons, hcd]
        simp only [List.cons_append, List.nil_append, bytesOfPairs, hbyte, Option.bind_some, ih,
          Option.map_some]
  have hdrop : (hexText bytes).toList.drop 2 = bytes.flatMap hexByte := by
    simp [hexText]
  rw [hexToBytes, hdrop, hpairs]

end Sample

theorem sample_address_round_trip :
    HexText.decodeFaircoinAddressBytes Sample.hexToBytes
      (HexText.fairAddressToBytes "FFairDestinationAddress1234") =
        .ok "FFairDestinationAddress1234" :=
  (HexText.address_bytes_round_trip Sample.hexToBytes_hexText).1 _
    ⟨by rintro _ ⟨⟩; decide, by rintro _ ⟨⟩; decide⟩

end FairBridge
