import Kompli.ComplianceEngine.StringTools
import Kompli.ComplianceEngine.TypedComparison

/-! One entry of the shadow file against the value that a field of it should have. -/
namespace Kompli.ShadowField
open StringTools

inductive ComparisonOperation where
  | equal
  | notEqual
  | lessThan
  | lessOrEqual
  | greaterThan
  | greaterOrEqual
  | patternMatch
  deriving DecidableEq, Repr

inductive Field where
  | username
  | password
  | lastChange
  | minAge
  | maxAge
  | warnPeriod
  | inactivityPeriod
  | expirationDate
  | reserved
  | encryptionMethod
  deriving DecidableEq, Repr

/-- What the audit reads of a `spwd`; no text is a null pointer. -/
structure Spwd where
  pwdp : Option Bytes
  lstchg : Int64
  min : Int64
  max : Int64
  warn : Int64
  inact : Int64
  expire : Int64

section Encryption

inductive PasswordEncryptionMethod where
  | des
  | bsdi
  | md5
  | blowfish
  | sha256
  | sha512
  | yesCrypt
  | empty
  | none
  deriving DecidableEq, Repr

def encryptionTypeMap : List (Bytes × PasswordEncryptionMethod) :=
  [(utf8 "DES", .des), (utf8 "BSDi", .bsdi), (utf8 "MD5", .md5), (utf8 "Blowfish", .blowfish), (utf8 "Sun MD5", .md5),
    (utf8 "SHA-256", .sha256), (utf8 "SHA-512", .sha512), (utf8 "YesCrypt", .yesCrypt), (utf8 "Empty", .empty),
    (utf8 "None", .none)]

def encryptionMethodMap : List (Bytes × PasswordEncryptionMethod) :=
  [(utf8 "1", .md5), (utf8 "2", .blowfish), (utf8 "2a", .blowfish), (utf8 "2y", .blowfish), (utf8 "md5", .md5),
    (utf8 "5", .sha256), (utf8 "6", .sha512), (utf8 "y", .yesCrypt)]

def parseMethodName (method : Bytes) : Except Error PasswordEncryptionMethod :=
  match encryptionTypeMap.lookup method with
  | some found => .ok found
  | none => .error { message := utf8 "Invalid encryption method: " ++ method, code := EINVAL }

def dollar : UInt8 := 0x24

def parseEncryptionMethod (shadowEntry : Spwd) : Except Error PasswordEncryptionMethod :=
  match shadowEntry.pwdp.map cString with
  | none => .error { message := utf8 "Shadow entry does not contain a valid password field", code := EINVAL }
  | some [] => .ok .empty
  | some (first :: rest) =>
    if first = 0x5F then .ok .bsdi
    -- locked, or not set
    else if first = 0x21 ∨ first = 0x2A then .ok .none
    else if first ≠ dollar then .ok .des
    else if dollar ∉ rest then .error { message := utf8 "Invalid password format in shadow entry", code := EINVAL }
    else
      let name := rest.takeWhile (· ≠ dollar)
      match encryptionMethodMap.lookup name with
      | some found => .ok found
      | none => .error { message := utf8 "Unsupported password encryption method: " ++ name, code := EINVAL }

end Encryption

section Comparison

def mapComparison : ComparisonOperation → Except Error TypedComparisonOperation
  | .equal => .ok .equal
  | .notEqual => .ok .notEqual
  | .lessThan => .ok .lessThan
  | .lessOrEqual => .ok .lessOrEqual
  | .greaterThan => .ok .greaterThan
  | .greaterOrEqual => .ok .greaterOrEqual
  | .patternMatch => .error { message := utf8 "Unsupported comparison operation 6", code := EINVAL }

/-- `regexSearch` searches a text for an expression, or says why the expression is none. -/
def stringComparison (regexSearch : Bytes → Bytes → Except Bytes Bool) (lhs rhs : Bytes)
    (operation : ComparisonOperation) : Except Error Bool :=
  if operation = .patternMatch then
    match regexSearch lhs rhs with
    | .ok found => .ok found
    | .error what => .error { message := utf8 "Pattern match failed: " ++ what, code := EINVAL }
  else
    match mapComparison operation with
    | .error e =>
      .error { message := utf8 "Unsupported comparison operation for a string type: " ++ e.message, code := e.code }
    | .ok mapped => .ok (compareTyped lhs rhs mapped)

def integerComparison (lhs rhs : Int32) (operation : ComparisonOperation) : Except Error Bool :=
  match mapComparison operation with
  | .error e =>
    .error { message := utf8 "Unsupported comparison operation for an integer type: " ++ e.message, code := e.code }
  | .ok mapped => .ok (compareTyped lhs rhs mapped)

/-- `PrettyFieldName`. -/
def Field.prettyName : Field → Bytes
  | .username => utf8 "login name"
  | .password => utf8 "encrypted password"
  | .lastChange => utf8 "last password change date"
  | .minAge => utf8 "minimum password age"
  | .maxAge => utf8 "maximum password age"
  | .warnPeriod => utf8 "password warning period"
  | .inactivityPeriod => utf8 "password inactivity period"
  | .expirationDate => utf8 "account expiration date"
  | .reserved => utf8 "reserved"
  | .encryptionMethod => utf8 "password encryption method"

/-- The number that a field has. -/
def Spwd.number (entry : Spwd) : Field → Option Int64
  | .lastChange => some entry.lstchg
  | .minAge => some entry.min
  | .maxAge => some entry.max
  | .warnPeriod => some entry.warn
  | .inactivityPeriod => some entry.inact
  | .expirationDate => some entry.expire
  | _ => none

def compareNumber (entry : Spwd) (field : Field) (value : Bytes) (operation : ComparisonOperation) :
    Except Error Bool :=
  match tryStringToInt value with
  | .error _ => .error { message := utf8 "invalid " ++ field.prettyName ++ utf8 " parameter value", code := EINVAL }
  | .ok intValue =>
    match entry.number field with
    | some number => integerComparison number.toInt32 (Int32.ofInt intValue) operation
    | none => .error { message := field.prettyName ++ utf8 " field comparison is not supported", code := EINVAL }

/-- Without a result where a `std::string` is made of a null pointer, which throws. -/
def compareUserEntry (regexSearch : Bytes → Bytes → Except Bytes Bool) (entry : Spwd) (field : Field) (value : Bytes)
    (operation : ComparisonOperation) : Option (Except Error Bool) :=
  match field with
  | .username => some (.error { message := utf8 "Username field comparison is not supported", code := EINVAL })
  | .password => entry.pwdp.map fun pwdp => stringComparison regexSearch value (cString pwdp) operation
  | .encryptionMethod =>
    if operation ≠ .equal ∧ operation ≠ .notEqual then
      some (.error { message := utf8 "Unsupported comparison operation for encryption method", code := EINVAL })
    else
      match parseMethodName value, parseEncryptionMethod entry with
      | .error e, _ => some (.error e)
      | .ok _, .error e => some (.error e)
      | .ok suppliedMethod, .ok entryMethod =>
        some (.ok (if operation = .equal then entryMethod = suppliedMethod else entryMethod ≠ suppliedMethod))
  | field => some (compareNumber entry field value operation)

end Comparison

section Verdicts

variable {entry : Spwd} {field : Field} {number : Int64} {value : Bytes} {intValue : Int}
  {operation : ComparisonOperation} {mapped : TypedComparisonOperation}

/-- The number of the entry is made an `int` before it is compared. -/
theorem compareUserEntry_number (regexSearch : Bytes → Bytes → Except Bytes Bool)
    (hnumber : entry.number field = some number) (hvalue : tryStringToInt value = .ok intValue)
    (hmapped : mapComparison operation = .ok mapped) :
    compareUserEntry regexSearch entry field value operation =
      some (.ok (compareTyped number.toInt32 (Int32.ofInt intValue) mapped)) := by
  have hcompare : compareUserEntry regexSearch entry field value operation =
      some (compareNumber entry field value operation) := by
    cases field <;> first | rfl | cases hnumber
  simp only [hcompare, compareNumber, hvalue, hnumber, integerComparison, hmapped]

theorem toInt_intValue (hvalue : tryStringToInt value = .ok intValue) :
    TypedComparisonOperation.Fits intValue ∧ (Int32.ofInt intValue).toInt = intValue := by
  obtain ⟨-, -, -, -, -, hlow, hhigh⟩ := tryStringToInt_ok_iff.mp hvalue
  exact ⟨⟨hlow, hhigh⟩, Int32.toInt_ofInt_of_le hlow hhigh⟩

end Verdicts

end Kompli.ShadowField
