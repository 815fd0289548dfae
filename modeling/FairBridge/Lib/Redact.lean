import FairBridge.Model.Text
import FairBridge.Text.Regex

/-!
What the service cuts out of its log. An error may carry the endpoint of a provider with
the key in its path; a serialised error is walked through and every text in it is
rewritten.
-/

namespace FairBridge

/-- A text as the language sees it, in units of UTF-16. -/
abbrev JsString := List UInt16

def codeUnit (c : Char) : UInt16 := c.toNat.toUInt16

def asciiText (s : String) : JsString := s.toList.map codeUnit

namespace JsString

def isDigit (u : UInt16) : Bool := codeUnit '0' ≤ u && u ≤ codeUnit '9'

/-- `[A-Za-z0-9_-]` -/
def isKeyUnit (u : UInt16) : Bool :=
  (codeUnit 'A' ≤ u && u ≤ codeUnit 'Z') || (codeUnit 'a' ≤ u && u ≤ codeUnit 'z') || isDigit u ||
    u == codeUnit '_' || u == codeUnit '-'

/-- `[^\s/]`; a surrogate is no white space. -/
def isHostUnit (u : UInt16) : Bool := !isJsSpace (Char.ofNat u.toNat) && u != codeUnit '/'

end JsString

/-- `https?:\/\/[^\s/]+\/v[0-9]+\/` -/
def endpointRegex : Regex UInt16 :=
  .seq (.text (codeUnit 'h') (asciiText "ttp")) <|
  .seq (.opt (.cls fun u => u == codeUnit 's')) <|
  .seq (.text (codeUnit ':') (asciiText "//")) <|
  .seq (.many JsString.isHostUnit) <|
  .seq (.text (codeUnit '/') (asciiText "v")) <|
  .seq (.many JsString.isDigit) (.cls fun u => u == codeUnit '/')

/-- `[A-Za-z0-9_-]+` -/
def keyRegex : Regex UInt16 := .many JsString.isKeyUnit

def redactRpcUrls (text : JsString) : JsString :=
  Regex.replaceAfter endpointRegex keyRegex (asciiText "<redacted>") text

/-- A value without cycles. `hidden` is what an object has beyond the fields that
`Object.entries` lists and an array beyond its items: symbols, fields that are not
enumerable, the state of a date or a map. -/
inductive JsValue (Leaf Hidden : Type) where
  | string (s : JsString)
  | array (hidden : Hidden) (items : List (JsValue Leaf Hidden))
  | object (hidden : Hidden) (fields : List (JsString × JsValue Leaf Hidden))
  | other (leaf : Leaf)

namespace JsValue
variable {Leaf Hidden : Type}

def protoKey : JsString := asciiText "__proto__"

mutual

/-- What a new array and a new object have beyond items and fields is `plain`. -/
def redactErrorFields (plain : Hidden) : JsValue Leaf Hidden → JsValue Leaf Hidden
  | .string s => .string (redactRpcUrls s)
  | .array _ items => .array plain (redactItems plain items)
  | .object _ fields => .object plain (redactEntries plain fields)
  | .other leaf => .other leaf

def redactItems (plain : Hidden) : List (JsValue Leaf Hidden) → List (JsValue Leaf Hidden)
  | [] => []
  | item :: rest => redactErrorFields plain item :: redactItems plain rest

def redactEntries (plain : Hidden) :
    List (JsString × JsValue Leaf Hidden) → List (JsString × JsValue Leaf Hidden)
  | [] => []
  | (key, inner) :: rest =>
      -- `out["__proto__"] = ...` sets the prototype of `out` and adds no field
      if key = protoKey then redactEntries plain rest
      else (key, redactErrorFields plain inner) :: redactEntries plain rest

end

mutual

/-- The value with every text in it rewritten and all else as it is. -/
def mapStrings (f : JsString → JsString) : JsValue Leaf Hidden → JsValue Leaf Hidden
  | .string s => .string (f s)
  | .array hidden items => .array hidden (mapItems f items)
  | .object hidden fields => .object hidden (mapEntries f fields)
  | .other leaf => .other leaf

def mapItems (f : JsString → JsString) : List (JsValue Leaf Hidden) → List (JsValue Leaf Hidden)
  | [] => []
  | item :: rest => mapStrings f item :: mapItems f rest

def mapEntries (f : JsString → JsString) :
    List (JsString × JsValue Leaf Hidden) → List (JsString × JsValue Leaf Hidden)
  | [] => []
  | (key, inner) :: rest => (key, mapStrings f inner) :: mapEntries f rest

end

mutual

/-- Arrays and objects have items and fields only, and no field is named `__proto__`. -/
def Plain (plain : Hidden) : JsValue Leaf Hidden → Prop
  | .string _ => True
  | .array hidden items => hidden = plain ∧ PlainItems plain items
  | .object hidden fields => hidden = plain ∧ PlainEntries plain fields
  | .other _ => True

def PlainItems (plain : Hidden) : List (JsValue Leaf Hidden) → Prop
  | [] => True
  | item :: rest => Plain plain item ∧ PlainItems plain rest

def PlainEntries (plain : Hidden) : List (JsString × JsValue Leaf Hidden) → Prop
  | [] => True
  | (key, inner) :: rest => key ≠ protoKey ∧ Plain plain inner ∧ PlainEntries plain rest

end

end JsValue

end FairBridge
