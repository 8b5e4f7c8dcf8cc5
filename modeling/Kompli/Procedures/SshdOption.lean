import Kompli.ComplianceEngine.Indicators
import Kompli.ComplianceEngine.StringTools
import Kompli.Foundation.Split
import Kompli.Foundation.Streams

/-! The match contexts of a configuration of `sshd`, and limits that are several numbers. -/
namespace Kompli.SshdOption
open Foundation Streams StringTools

section GetAllMatches

def slash : UInt8 := 0x2F
def comma : UInt8 := 0x2C
def asterisk : UInt8 := 0x2A

/-- The files that can be read, and the paths that are found under a directory for a pattern of names. -/
structure Host where
  files : ByteMap Bytes
  filesFound : Bytes → Bytes → List Bytes

/-- `stream >> text`, where `text` is empty before. -/
def nextWord (stream : Bytes) : Bytes × Bytes := (word stream).getD ([], [])

def includedFiles (host : Host) (includeFile : Bytes) : List Bytes :=
  if includeFile = [] then []
  else
    match cutLast slash includeFile with
    | some (directory, pattern) => if asterisk ∈ pattern then host.filesFound directory pattern else [includeFile]
    | none => [includeFile]

def supportedTypes : List Bytes :=
  [utf8 "user", utf8 "group", utf8 "host", utf8 "port", utf8 "address", utf8 "localaddress"]

/-- The patterns between the commas that are not empty. -/
def matchPatterns (value : Bytes) : List Bytes := (value.splitOn comma).filter (· ≠ [])

def matchContext (type pattern : Bytes) : Bytes :=
  type ++ utf8 "=" ++
    if type = utf8 "address" ∨ type = utf8 "localaddress" then pattern.takeWhile (· ≠ slash) else pattern

/-- What a line may be indented with. -/
def lineBlank (c : UInt8) : Bool := c = 0x20 || c = 0x09

structure MatchState where
  configFiles : List Bytes := []
  allMatches : List Bytes := []
  deriving DecidableEq

def readLine (host : Host) (state : MatchState) (line : Bytes) : MatchState :=
  let line := line.dropWhile lineBlank
  if line = [] ∨ line.head? = some StringTools.hash then state
  else
    let (directive, rest) := nextWord line
    if toLower directive = utf8 "include" then
      let (includeFile, _) := nextWord rest
      { state with configFiles := state.configFiles ++ includedFiles host includeFile }
    else if toLower directive = utf8 "match" then
      let (type, rest) := nextWord rest
      let (value, _) := nextWord rest
      if toLower type ∈ supportedTypes then
        { state with
          allMatches := state.allMatches ++ (matchPatterns (toLower value)).map (matchContext (toLower type)) }
      else state
    else state

def readFile (host : Host) (state : MatchState) (currentFile : Bytes) : MatchState :=
  match host.files[currentFile]? with
  | none => state
  | some fileContent => (lines fileContent).foldl (readLine host) state

/-- Nothing is returned while there are files to be read. -/
def matchLoop (host : Host) : Nat → List Bytes → List Bytes → Option (List Bytes)
  | _, [], allMatches => some allMatches
  | 0, _ :: _, _ => none
  | fuel + 1, currentFile :: configFiles, allMatches =>
    let state := readFile host { configFiles, allMatches } currentFile
    matchLoop host fuel state.configFiles state.allMatches

def mainFile : Bytes := utf8 "/etc/ssh/sshd_config"

def getAllMatches (host : Host) (fuel : Nat) : Option (List Bytes) := matchLoop host fuel [mainFile] []

end GetAllMatches

section Limits

def limitDelimiter : UInt8 := 0x3A

/-- `strtoll`, with nothing after the number. -/
def parseToken (token : Bytes) : Except Error Int :=
  match signed 64 token with
  | none => .error { message := utf8 "stoll", code := EINVAL }
  | some (value, rest) =>
    if rest = [] then .ok value
    else .error { message := utf8 "Unconsumed suffix in numeric token '" ++ token ++ utf8 "'", code := EINVAL }

/-- What `std::getline` takes from a stream, what is left, and whether the end has been met; nothing at the end. -/
def getline (delimiter : UInt8) (stream : Bytes) : Option (Bytes × Bytes × Bool) :=
  if stream = [] then none
  else
    match stream.dropWhile (· ≠ delimiter) with
    | [] => some (stream, [], true)
    | _ :: rest => some (stream.takeWhile (· ≠ delimiter), rest, false)

/-- At most `numFields` numbers, and whether the end has been met (`eof`). -/
def parseFields (delimiter : UInt8) : Nat → Bool → Bytes → Except Error (List Int × Bool)
  | 0, eof, _ => .ok ([], eof)
  | numFields + 1, _, stream =>
    match getline delimiter stream with
    | none => .ok ([], true)
    | some (token, rest, eof) =>
      match parseToken token with
      | .error e => .error e
      | .ok parsed =>
        match parseFields delimiter numFields eof rest with
        | .error e => .error e
        | .ok (parts, eof) => .ok (parsed :: parts, eof)

/-- What is said of the value or of the limit of an option. -/
def failedToParse (option kind text reason : Bytes) (code : Int) : Error :=
  { message := utf8 "Failed to parse " ++ option ++ utf8 " " ++ kind ++ utf8 " '" ++ text ++ utf8 "': " ++ reason, code }

def extraField : Bytes := utf8 "Unexpected extra field or trailing delimiter"

def evaluateDelimitedNumericLimits (option value realValue : Bytes) (delimiter : UInt8) (numFields : Nat) (ctx : Bytes) :
    Except Error Indicator :=
  match parseFields delimiter numFields false realValue with
  | .error e => .error (failedToParse option (utf8 "value") realValue e.message e.code)
  | .ok (realParts, realEof) =>
    if realParts.length = 0 then .error (failedToParse option (utf8 "value") realValue (utf8 "No numeric fields") EINVAL)
    else if realParts.length = numFields ∧ realEof = false ∨ realValue.getLast? = some delimiter then
      .error (failedToParse option (utf8 "value") realValue extraField EINVAL)
    else
      match parseFields limitDelimiter numFields false value with
      | .error e => .error (failedToParse option (utf8 "limit") value e.message e.code)
      | .ok (limitParts, limitEof) =>
        if limitParts.length = numFields ∧ limitEof = false ∨ value.getLast? = some limitDelimiter then
          .error (failedToParse option (utf8 "limit") value extraField EINVAL)
        else if (List.range numFields).any fun i => limitParts.getD i 0 < realParts.getD i 0 then
          .ok { message := utf8 "Option '" ++ option ++ utf8 "' has value '" ++ realValue ++ utf8 "' which exceeds limits '" ++
                  value ++ utf8 "'" ++ ctx
                status := .nonCompliant }
        else
          .ok { message := utf8 "Option '" ++ option ++ utf8 "' has a value '" ++ realValue ++
                  utf8 "' compliant with limits '" ++ value ++ utf8 "'" ++ ctx
                status := .compliant }

end Limits

end Kompli.SshdOption
