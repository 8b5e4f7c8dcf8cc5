import Kompli.Parson.Value

/-! The parser. A text is what is left of a C string, so its end is the NUL. -/
namespace Kompli.Parson

/-- How the C library writes and reads a double: `sprintf` with `%1.17g`, and
`strtod`, which gives the number and how far it read, or sets `errno`. -/
structure NumberFormat where
  print : UInt64 → Bytes
  read : Bytes → Option (UInt64 × Nat)

namespace Ascii

abbrev quote : UInt8 := 0x22
abbrev comma : UInt8 := 0x2C
abbrev minus : UInt8 := 0x2D
abbrev dot : UInt8 := 0x2E
abbrev slash : UInt8 := 0x2F
abbrev zero : UInt8 := 0x30
abbrev nine : UInt8 := 0x39
abbrev colon : UInt8 := 0x3A
abbrev leftBracket : UInt8 := 0x5B
abbrev backslash : UInt8 := 0x5C
abbrev rightBracket : UInt8 := 0x5D
abbrev b : UInt8 := 0x62
abbrev f : UInt8 := 0x66
abbrev n : UInt8 := 0x6E
abbrev r : UInt8 := 0x72
abbrev t : UInt8 := 0x74
abbrev u : UInt8 := 0x75
abbrev leftBrace : UInt8 := 0x7B
abbrev rightBrace : UInt8 := 0x7D

end Ascii

open Ascii

/-- `isspace` in the C locale. -/
def isSpace (c : UInt8) : Bool := c = 0x20 || (0x09 ≤ c && c ≤ 0x0D)

def skipWhitespaces (s : Bytes) : Bytes := s.dropWhile isSpace

def hexCharToInt (c : UInt8) : Option Nat :=
  if 0x30 ≤ c ∧ c ≤ 0x39 then some (c.toNat - 0x30)
  else if 0x61 ≤ c ∧ c ≤ 0x66 then some (c.toNat - 0x61 + 10)
  else if 0x41 ≤ c ∧ c ≤ 0x46 then some (c.toNat - 0x41 + 10)
  else none

def parseUtf16Hex (s₀ s₁ s₂ s₃ : UInt8) : Option Nat := do
  let x₁ ← hexCharToInt s₀
  let x₂ ← hexCharToInt s₁
  let x₃ ← hexCharToInt s₂
  let x₄ ← hexCharToInt s₃
  some (x₁ * 0x1000 + x₂ * 0x100 + x₃ * 0x10 + x₄)

def cont (cp : Nat) : UInt8 := UInt8.ofNat (0x80 + cp % 0x40)

/-- What `parse_utf16` writes for a code point. -/
def encodeUtf8 (cp : Nat) : Bytes :=
  if cp < 0x80 then [UInt8.ofNat cp]
  else if cp < 0x800 then [UInt8.ofNat (0xC0 + cp / 0x40), cont cp]
  else if cp < 0x10000 then [UInt8.ofNat (0xE0 + cp / 0x1000), cont (cp / 0x40), cont cp]
  else [UInt8.ofNat (0xF0 + cp / 0x40000), cont (cp / 0x1000), cont (cp / 0x40), cont cp]

/-- The escapes of one character. -/
def unescape (c : UInt8) : Option UInt8 :=
  if c = quote then some quote
  else if c = backslash then some backslash
  else if c = slash then some slash
  else if c = b then some 0x08
  else if c = f then some 0x0C
  else if c = n then some 0x0A
  else if c = r then some 0x0D
  else if c = t then some 0x09
  else none

/-- The text up to the closing quote, and what follows that quote. -/
def skipQuotes : Bytes → Option (Bytes × Bytes)
  | [] => none
  | c :: s =>
    if c = quote then some ([], s)
    else if c = backslash then
      match s with
      | [] => none
      | e :: s => (skipQuotes s).map fun (input, rest) => (c :: e :: input, rest)
    else (skipQuotes s).map fun (input, rest) => (c :: input, rest)

/-- `process_string`, with `parse_utf16` written out in it. The source reads an
escape past the end of `input`, where the closing quote makes it fail as here. -/
def processString : Bytes → Option Bytes
  | [] => some []
  | c :: s =>
    if c = backslash then
      match s with
      | [] => none
      | e :: s =>
        if e = u then
          match s with
          | s₀ :: s₁ :: s₂ :: s₃ :: s => do
            let cp ← parseUtf16Hex s₀ s₁ s₂ s₃
            if cp < 0xD800 ∨ 0xDFFF < cp then (processString s).map (encodeUtf8 cp ++ ·)
            else if cp ≤ 0xDBFF then
              match s with
              | e₀ :: e₁ :: t₀ :: t₁ :: t₂ :: t₃ :: s => do
                let trail ← parseUtf16Hex t₀ t₁ t₂ t₃
                if e₀ = backslash ∧ e₁ = u ∧ 0xDC00 ≤ trail ∧ trail ≤ 0xDFFF then
                  (processString s).map
                    (encodeUtf8 ((cp - 0xD800) * 0x400 + (trail - 0xDC00) + 0x10000) ++ ·)
                else none
              | _ => none
            else none
          | _ => none
        else do
          let unescaped ← unescape e
          (processString s).map (unescaped :: ·)
    else if c < 0x20 then none
    else (processString s).map (c :: ·)

def getQuotedString : Bytes → Option (Bytes × Bytes)
  | [] => none
  | c :: s =>
    if c = quote then do
      let (input, rest) ← skipQuotes s
      let output ← processString input
      some (output, rest)
    else none

def parseStringValue (s : Bytes) : Option (JsonValue × Bytes) :=
  (getQuotedString s).map fun (string, rest) => (.string string, rest)

def startsWith (token s : Bytes) : Bool := token.isPrefixOf s

def parseBooleanValue (s : Bytes) : Option (JsonValue × Bytes) :=
  if startsWith (utf8 "true") s then some (.boolean true, s.drop 4)
  else if startsWith (utf8 "false") s then some (.boolean false, s.drop 5)
  else none

def parseNullValue (s : Bytes) : Option (JsonValue × Bytes) :=
  if startsWith (utf8 "null") s then some (.null, s.drop 4) else none

/-- `is_decimal` of what `strtod` read. -/
def isDecimal (s : Bytes) : Bool :=
  !(1 < s.length && s.head? = some zero && s[1]? ≠ some dot) &&
    !(2 < s.length && s.take 2 = [minus, zero] && s[2]? ≠ some dot) &&
    s.all fun c => c ≠ 0x78 && c ≠ 0x58

/-- `json_value_init_number` takes no infinity and no NaN. -/
def isNumberInvalid (bits : UInt64) : Bool := bits >>> 52 &&& 0x7FF = 0x7FF

def parseNumberValue (num : NumberFormat) (s : Bytes) : Option (JsonValue × Bytes) := do
  let (number, length) ← num.read s
  if isDecimal (s.take length) ∧ ¬ isNumberInvalid number then some (.number number, s.drop length)
  else none

/-- A parser of values that is called where a container holds one. -/
abbrev ValueParser := Bytes → Option (JsonValue × Bytes)

/-- The loop of `parse_array_value`. Every turn but the last reads a comma, so that
`fuel` does not run out when it is more than the length of the text. -/
def parseItems (parse : ValueParser) : Nat → List JsonValue → Bytes → Option (JsonValue × Bytes)
  | 0, _, _ => none
  | fuel + 1, items, s => do
    let (value, s) ← parse s
    match skipWhitespaces s with
    | [] => none
    | c :: s =>
      if c = comma then parseItems parse fuel (items ++ [value]) (skipWhitespaces s)
      else if c = rightBracket then some (.array (items ++ [value]), s)
      else none

/-- `s` follows the opening bracket. -/
def parseArrayValue (parse : ValueParser) (s : Bytes) : Option (JsonValue × Bytes) :=
  match skipWhitespaces s with
  | [] => none
  | c :: rest =>
    if c = rightBracket then some (.array [], rest)
    else parseItems parse (s.length + 1) [] (c :: rest)

/-- The loop of `parse_object_value`: no name holds a NUL or comes twice. -/
def parseMembers (parse : ValueParser) :
    Nat → List (Bytes × JsonValue) → Bytes → Option (JsonValue × Bytes)
  | 0, _, _ => none
  | fuel + 1, members, s => do
    let (name, s) ← getQuotedString s
    if ¬ NulFree name then none
    else
      match skipWhitespaces s with
      | [] => none
      | c :: s =>
        if c ≠ colon then none
        else do
          let (value, s) ← parse s
          if (JsonValue.getValue members name).isSome then none
          else
            match skipWhitespaces s with
            | [] => none
            | c :: s =>
              if c = comma then
                parseMembers parse fuel (members ++ [(name, value)]) (skipWhitespaces s)
              else if c = rightBrace then some (.object (members ++ [(name, value)]), s)
              else none

/-- `s` follows the opening brace. -/
def parseObjectValue (parse : ValueParser) (s : Bytes) : Option (JsonValue × Bytes) :=
  match skipWhitespaces s with
  | [] => none
  | c :: rest =>
    if c = rightBrace then some (.object [], rest)
    else parseMembers parse (s.length + 1) [] (c :: rest)

def isDigit (c : UInt8) : Bool := zero ≤ c && c ≤ nine

def maxNesting : Nat := 2048

/-- `room` is how many more containers may open, and one: `maxNesting + 1 - nesting`. -/
def parseValue (num : NumberFormat) : (room : Nat) → ValueParser
  | 0, _ => none
  | room + 1, s =>
    match skipWhitespaces s with
    | [] => none
    | c :: s =>
      if c = leftBrace then parseObjectValue (parseValue num room) s
      else if c = leftBracket then parseArrayValue (parseValue num room) s
      else if c = quote then parseStringValue (c :: s)
      else if c = f ∨ c = t then parseBooleanValue (c :: s)
      else if c = minus ∨ isDigit c then parseNumberValue num (c :: s)
      else if c = n then parseNullValue (c :: s)
      else none

def byteOrderMark : Bytes := [0xEF, 0xBB, 0xBF]

/-- What follows the value is not looked at. -/
def jsonParseString (num : NumberFormat) (string : Bytes) : Option JsonValue :=
  let s := cString string
  let s := if startsWith byteOrderMark s then s.drop 3 else s
  (parseValue num (maxNesting + 1) s).map Prod.fst

end Kompli.Parson
