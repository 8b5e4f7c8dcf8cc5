import Kompli.ComplianceEngine.StringTools

/-! The parser of `login.defs`. -/
namespace Kompli.LoginDefs
open Foundation Streams StringTools

def E2BIG : Int := 7
def EBADMSG : Int := 74

def maxBytes : Nat := 1024 * 1024
def maxLineBytes : Nat := 16 * 1024
def maxRecords : Nat := 8192

inductive EncryptionMethod where
  | des
  | md5
  | sha256
  | sha512
  | yescrypt
  | bcrypt
  deriving DecidableEq, Repr

structure Document where
  source : Bytes
  uidMin : Option Nat := none
  passMaxDays : Option Int := none
  passMinDays : Option Int := none
  passWarnAge : Option Int := none
  encryptMethod : Option EncryptionMethod := none

section Errors

def position (source : Bytes) (line column : Nat) : Bytes :=
  source ++ utf8 ":" ++ printUnsigned line ++ utf8 ":" ++ printUnsigned column

def limitError (location : Bytes) (limit : Bytes) (observed maximum : Nat) (unit : Bytes) : Error where
  message := location ++ utf8 ": login.defs " ++ limit ++ utf8 " limit exceeded: " ++ printUnsigned observed ++ utf8 " " ++
    unit ++ utf8 " (maximum " ++ printUnsigned maximum ++ utf8 " " ++ unit ++ utf8 ")"
  code := E2BIG

def syntaxError (source : Bytes) (line column : Nat) (problem : Bytes) : Error where
  message := position source line column ++ utf8 ": login.defs " ++ problem
  code := EBADMSG

def valueError (document : Document) (line column : Nat) (key : Bytes) (error : Error) : Error where
  message := position document.source line column ++ utf8 ": invalid " ++ key ++ utf8 " value: " ++ error.message
  code := EBADMSG

def conflictError (document : Document) (line column : Nat) (key : Bytes) : Error where
  message := position document.source line column ++ utf8 ": conflicting duplicate " ++ key ++ utf8 " value"
  code := EBADMSG

end Errors

section Values

def parseEncryptionMethod (value : Bytes) : Except Error EncryptionMethod :=
  let name := toLower value
  if name = utf8 "des" then .ok .des
  else if name = utf8 "md5" then .ok .md5
  else if name = utf8 "sha256" then .ok .sha256
  else if name = utf8 "sha512" then .ok .sha512
  else if name = utf8 "yescrypt" then .ok .yescrypt
  else if name = utf8 "bcrypt" then .ok .bcrypt
  else .error { message := utf8 "Unsupported encryption method: " ++ value, code := EINVAL }

def encryptionMethodName : EncryptionMethod → Bytes
  | .des => utf8 "DES"
  | .md5 => utf8 "MD5"
  | .sha256 => utf8 "SHA256"
  | .sha512 => utf8 "SHA512"
  | .yescrypt => utf8 "YESCRYPT"
  | .bcrypt => utf8 "BCRYPT"

def maxUid : Nat := 2 ^ 32 - 1

def parseUid (value : Bytes) : Except Error Nat :=
  match tryStringToUint value with
  | .error e => .error e
  | .ok uid =>
    if maxUid < uid then .error { message := utf8 "Integer value out of uid_t range: " ++ value, code := ERANGE }
    else .ok uid

/-- The keys that are known. -/
inductive Key where
  | uidMin
  | passMaxDays
  | passMinDays
  | passWarnAge
  | encryptMethod
  deriving DecidableEq, Repr

def Key.name : Key → Bytes
  | .uidMin => utf8 "UID_MIN"
  | .passMaxDays => utf8 "PASS_MAX_DAYS"
  | .passMinDays => utf8 "PASS_MIN_DAYS"
  | .passWarnAge => utf8 "PASS_WARN_AGE"
  | .encryptMethod => utf8 "ENCRYPT_METHOD"

def Key.all : List Key := [.uidMin, .passMaxDays, .passMinDays, .passWarnAge, .encryptMethod]

def Key.ofName (name : Bytes) : Option Key := Key.all.find? (·.name = name)

abbrev Key.Value : Key → Type
  | .uidMin => Nat
  | .encryptMethod => EncryptionMethod
  | _ => Int

instance (key : Key) : DecidableEq key.Value :=
  match key with
  | .uidMin => inferInstanceAs (DecidableEq Nat)
  | .encryptMethod => inferInstanceAs (DecidableEq EncryptionMethod)
  | .passMaxDays => inferInstanceAs (DecidableEq Int)
  | .passMinDays => inferInstanceAs (DecidableEq Int)
  | .passWarnAge => inferInstanceAs (DecidableEq Int)

def Key.parse : (key : Key) → Bytes → Except Error key.Value
  | .uidMin => parseUid
  | .encryptMethod => parseEncryptionMethod
  | .passMaxDays => tryStringToInt
  | .passMinDays => tryStringToInt
  | .passWarnAge => tryStringToInt

def Document.get (document : Document) : (key : Key) → Option key.Value
  | .uidMin => document.uidMin
  | .passMaxDays => document.passMaxDays
  | .passMinDays => document.passMinDays
  | .passWarnAge => document.passWarnAge
  | .encryptMethod => document.encryptMethod

def Document.set (document : Document) : (key : Key) → key.Value → Document
  | .uidMin, value => { document with uidMin := some value }
  | .passMaxDays, value => { document with passMaxDays := some value }
  | .passMinDays, value => { document with passMinDays := some value }
  | .passWarnAge, value => { document with passWarnAge := some value }
  | .encryptMethod, value => { document with encryptMethod := some value }

end Values

section Lines

def isSeparator (c : UInt8) : Bool := c ∈ utf8 " \t\r" || c = 0x0B || c = 0x0C

/-- The line from its key on. -/
def fromKey (line : Bytes) : Bytes := line.dropWhile isSeparator

/-- A line with something else than a comment. -/
def IsRecord (line : Bytes) : Prop := fromKey line ≠ [] ∧ (fromKey line).head? ≠ some hash

instance (line : Bytes) : Decidable (IsRecord line) := inferInstanceAs (Decidable (_ ∧ _))

def key (line : Bytes) : Bytes := (fromKey line).takeWhile fun c => !isSeparator c && c ≠ hash

/-- The line from its value on. -/
def fromValue (line : Bytes) : Bytes := ((fromKey line).drop (key line).length).dropWhile isSeparator

def value (line : Bytes) : Bytes := trimWhiteSpaces (stripComment (fromValue line))

/-- What is known before a line. -/
structure State where
  document : Document
  seen : List Bytes := []
  recordCount : Nat := 0
  lineNumber : Nat := 1

/-- A known value that comes again has to be the same. -/
def parseRecord (document : Document) (lineNumber column : Nat) (name value : Bytes) (firstOccurrence : Bool) :
    Except Error Document :=
  match Key.ofName name with
  | none => .ok document
  | some key =>
    match key.parse value with
    | .error e => .error (valueError document lineNumber column name e)
    | .ok parsed =>
      if firstOccurrence = false ∧ document.get key ≠ some parsed then
        .error (conflictError document lineNumber column name)
      else .ok (if firstOccurrence then document.set key parsed else document)

def parseLine (s : State) (line : Bytes) : Except Error State :=
  let source := s.document.source
  let column := line.length - (fromValue line).length + 1
  if maxLineBytes < line.length then
    .error (limitError (source ++ utf8 ":" ++ printUnsigned s.lineNumber) (utf8 "line") line.length maxLineBytes
      (utf8 "bytes"))
  else if 0 ∈ line then
    .error (syntaxError source s.lineNumber ((line.takeWhile (· ≠ 0)).length + 1) (utf8 "embedded NUL"))
  else if ¬ IsRecord line then .ok { s with lineNumber := s.lineNumber + 1 }
  else if maxRecords ≤ s.recordCount then
    .error (limitError (source ++ utf8 ":" ++ printUnsigned s.lineNumber) (utf8 "record") (s.recordCount + 1) maxRecords
      (utf8 "records"))
  else if stripComment (fromValue line) = [] then
    .error (syntaxError source s.lineNumber column (utf8 "missing value"))
  else
    match parseRecord s.document s.lineNumber column (key line) (value line) (key line ∉ s.seen) with
    | .error e => .error e
    | .ok document =>
      .ok { document, seen := s.seen.insert (key line), recordCount := s.recordCount + 1, lineNumber := s.lineNumber + 1 }

def parse (bytes source : Bytes) : Except Error Document :=
  if maxBytes < bytes.length then .error (limitError source (utf8 "byte") bytes.length maxBytes (utf8 "bytes"))
  else
    match (lines bytes).foldlM parseLine { document := { source } } with
    | .error e => .error e
    | .ok s => .ok s.document

end Lines

end Kompli.LoginDefs
