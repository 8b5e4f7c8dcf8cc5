import Kompli.Parson.Parse

/-! The serializer, pretty or not. It has no limit on nesting, unlike the parser. -/
namespace Kompli.Parson
open Ascii

def hexDigit (n : UInt8) : UInt8 := if n < 10 then 0x30 + n else 0x61 + (n - 10)

def escape (c : UInt8) : Bytes :=
  if c = quote then [backslash, quote]
  else if c = backslash then [backslash, backslash]
  else if c = 0x08 then [backslash, b]
  else if c = 0x0C then [backslash, f]
  else if c = 0x0A then [backslash, n]
  else if c = 0x0D then [backslash, r]
  else if c = 0x09 then [backslash, t]
  else if c < 0x20 then [backslash, u, zero, zero, hexDigit (c >>> 4), hexDigit (c &&& 0xF)]
  else if c = slash then [backslash, slash]
  else [c]

def serializeString (string : Bytes) : Bytes := quote :: (string.flatMap escape ++ [quote])

def appendIndent (level : Nat) : Bytes := (List.replicate level (utf8 "    ")).flatten

/-- The bytes before an item, between two of them and before the closing bracket. -/
def lineBreak (pretty : Bool) : Bytes := if pretty then [0x0A] else []
def indent (pretty : Bool) (level : Nat) : Bytes := if pretty then appendIndent level else []
def afterColon (pretty : Bool) : Bytes := if pretty then [0x20] else []

mutual

def serialize (num : NumberFormat) (pretty : Bool) (level : Nat) : JsonValue → Bytes
  | .null => utf8 "null"
  | .string value => serializeString value
  | .number bits => num.print bits
  | .boolean value => if value then utf8 "true" else utf8 "false"
  | .array [] => [leftBracket, rightBracket]
  | .array (item :: items) =>
    leftBracket :: (lineBreak pretty ++ (indent pretty (level + 1) ++
      (serialize num pretty (level + 1) item ++ serializeItems num pretty level items)))
  | .object [] => [leftBrace, rightBrace]
  | .object ((name, value) :: members) =>
    leftBrace :: (lineBreak pretty ++ (indent pretty (level + 1) ++
      (serializeString name ++ (colon :: (afterColon pretty ++
        (serialize num pretty (level + 1) value ++ serializeMembers num pretty level members))))))

/-- From the end of an item on. -/
def serializeItems (num : NumberFormat) (pretty : Bool) (level : Nat) : List JsonValue → Bytes
  | [] => lineBreak pretty ++ (indent pretty level ++ [rightBracket])
  | item :: items =>
    comma :: (lineBreak pretty ++ (indent pretty (level + 1) ++
      (serialize num pretty (level + 1) item ++ serializeItems num pretty level items)))

/-- From the end of a member on. -/
def serializeMembers (num : NumberFormat) (pretty : Bool) (level : Nat) :
    List (Bytes × JsonValue) → Bytes
  | [] => lineBreak pretty ++ (indent pretty level ++ [rightBrace])
  | (name, value) :: members =>
    comma :: (lineBreak pretty ++ (indent pretty (level + 1) ++
      (serializeString name ++ (colon :: (afterColon pretty ++
        (serialize num pretty (level + 1) value ++ serializeMembers num pretty level members))))))

end

/-- `json_serialize_to_string`; names are C strings, and so is what its callers read of it. -/
def jsonSerializeToString (num : NumberFormat) (value : JsonValue) : Bytes :=
  serialize num false 0 value

def jsonSerializeToStringPretty (num : NumberFormat) (value : JsonValue) : Bytes :=
  serialize num true 0 value

end Kompli.Parson
