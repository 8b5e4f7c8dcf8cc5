import Kompli.Foundation.Bytes

/-! The check that parson makes of every string it is given, though not of those it reads. -/
namespace Kompli.Parson

def isCont (b : UInt8) : Bool := b &&& 0xC0 = 0x80

def numBytesInUtf8Sequence (c : UInt8) : Nat :=
  if c = 0xC0 ∨ c = 0xC1 ∨ 0xF4 < c ∨ isCont c then 0
  else if c &&& 0x80 = 0 then 1
  else if c &&& 0xE0 = 0xC0 then 2
  else if c &&& 0xF0 = 0xE0 then 3
  else if c &&& 0xF8 = 0xF0 then 4
  else 0

/-- Six more bits of a code point. -/
def addCont (cp : Nat) (b : UInt8) : Nat := cp * 64 + (b &&& 0x3F).toNat

/-- Neither overlong for its length, nor past the end of Unicode, nor half of a surrogate pair. -/
def validCodePoint (len cp : Nat) : Bool :=
  !((cp < 0x80 && 1 < len) || (cp < 0x800 && 2 < len) || (cp < 0x10000 && 3 < len)) &&
    !(0x10FFFF < cp) && !(0xD800 ≤ cp && cp ≤ 0xDFFF)

def isValidUtf8 : Bytes → Bool
  | [] => true
  | c :: s =>
    match numBytesInUtf8Sequence c with
    | 1 => validCodePoint 1 c.toNat && isValidUtf8 s
    | 2 =>
      match s with
      | c₁ :: s => isCont c₁ && validCodePoint 2 (addCont (c &&& 0x1F).toNat c₁) && isValidUtf8 s
      | _ => false
    | 3 =>
      match s with
      | c₁ :: c₂ :: s => isCont c₁ && isCont c₂ &&
          validCodePoint 3 (addCont (addCont (c &&& 0xF).toNat c₁) c₂) && isValidUtf8 s
      | _ => false
    | 4 =>
      match s with
      | c₁ :: c₂ :: c₃ :: s => isCont c₁ && isCont c₂ && isCont c₃ &&
          validCodePoint 4 (addCont (addCont (addCont (c &&& 0x7).toNat c₁) c₂) c₃) && isValidUtf8 s
      | _ => false
    | _ => false

example : isValidUtf8 (utf8 "naïve ✅ 🇽") = true := by decide
example : isValidUtf8 [0xC3, 0x28] = false := by decide

end Kompli.Parson
