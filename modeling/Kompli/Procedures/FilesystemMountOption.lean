import Kompli.ComplianceEngine.Indicators
import Kompli.ComplianceEngine.StringTools
import Kompli.Foundation.Streams

/-! How a table of file systems is read, and how the options of one of them are remediated. -/
namespace Kompli.FilesystemMountOption
open Foundation Streams

def hash : UInt8 := 0x23
def comma : UInt8 := 0x2C

section Mntent

/-- What separates the fields of a line. -/
def isBlank (c : UInt8) : Bool := c = 0x20 || c = 0x09

structure Mntent where
  fsname : Bytes
  dir : Bytes
  type : Bytes
  opts : Bytes
  freq : Int32
  passno : Int32
  deriving DecidableEq

/-- How a blank, a newline or a backslash is written inside of a field. -/
def escapes : List (Bytes × UInt8) :=
  [(utf8 "\\040", 0x20), (utf8 "\\011", 0x09), (utf8 "\\012", 0x0A), (utf8 "\\\\", 0x5C), (utf8 "\\134", 0x5C)]

/-- The first bytes are those of an escape that has been read. -/
def decodeFrom : Nat → Bytes → Bytes
  | _, [] => []
  | n + 1, _ :: s => decodeFrom n s
  | 0, c :: s =>
    match escapes.find? fun escape => escape.1.isPrefixOf (c :: s) with
    | some escape => escape.2 :: decodeFrom (escape.1.length - 1) s
    | none => c :: decodeFrom 0 s

def decodeName (name : Bytes) : Bytes := decodeFrom 0 name

def fieldOf (head : Bytes) : Bytes := decodeName (head.takeWhile (! isBlank ·))

def afterField (head : Bytes) : Bytes := (head.dropWhile (! isBlank ·)).dropWhile isBlank

/-- `%d`: the number is read as a `long`, which is cut to an `int`. -/
def scanInt (s : Bytes) : Option (Int32 × Bytes) :=
  (number s).map fun ((negative, n), rest) =>
    (Int32.ofInt (if negative then max (-2 ^ 63) (-(n : Int)) else min (2 ^ 63 - 1) (n : Int)), rest)

/-- A number that is missing is 0. -/
def numbersOf (s : Bytes) : Int32 × Int32 :=
  match scanInt s with
  | none => (0, 0)
  | some (freq, rest) =>
    match scanInt rest with
    | none => (freq, 0)
    | some (passno, _) => (freq, passno)

/-- The entry that a line stands for, where it is neither blank nor a comment. -/
def entryOfLine (line : Bytes) : Option Mntent :=
  let head := (cString line).dropWhile isBlank
  if head = [] ∨ head.head? = some hash then none
  else
    let type := afterField (afterField head)
    let numbers := numbersOf (afterField (afterField type))
    some { fsname := fieldOf head, dir := fieldOf (afterField head), type := fieldOf type
           opts := fieldOf (afterField type), freq := numbers.1, passno := numbers.2 }

end Mntent

section ParseFstab

/-- A `FILE`: what is left to read, and `feof`. -/
structure File where
  rest : Bytes
  eof : Bool := false

/-- The bytes of the line that is being read come first, the last of them in front. -/
def readEntry : Bytes → Bytes → Option Mntent × File
  | line, [] => (entryOfLine line.reverse, { rest := [], eof := true })
  | line, c :: s =>
    if c = newline then
      match entryOfLine line.reverse with
      | some mnt => (some mnt, { rest := s })
      | none => readEntry [] s
    else readEntry (c :: line) s

/-- The next line that is neither blank nor a comment. What the C library does besides is left out: it reads a line of
4096 bytes or more in pieces, passes over an `autofs` entry with the option `ignore`, and ends a line at a NUL. -/
def getmntent (rest : Bytes) : Option Mntent × File := readEntry [] rest

structure FstabEntry where
  device : Bytes
  filesystem : Bytes
  options : List Bytes
  dump : Int32
  pass : Int32
  lineno : Int32
  deriving DecidableEq

/-- As `std::getline` takes them, without an empty option at the end. -/
def splitOptions (opts : Bytes) : List Bytes :=
  let items := opts.splitOn comma
  if items.getLast? = some [] then items.dropLast else items

def fstabEntry (mnt : Mntent) (lineno : Int32) : FstabEntry where
  device := mnt.fsname
  filesystem := mnt.type
  options := splitOptions mnt.opts
  dump := mnt.freq
  pass := mnt.passno
  lineno

/-- `while (b != '\n') fread(&b, 1, 1, file)`: at the end of the file `b` stays what it is. Nothing is returned while
the loop still runs. -/
def skipComment : Nat → UInt8 → Bytes → Option Bytes
  | 0, _, _ => none
  | fuel + 1, b, rest =>
    if b = newline then some rest
    else
      match rest with
      | [] => skipComment fuel b []
      | c :: rest => skipComment fuel c rest

def parseLoop : Nat → Int32 → ByteMap FstabEntry → File → Option (ByteMap FstabEntry)
  | 0, _, _, _ => none
  | fuel + 1, lineno, fstabMap, file =>
    if file.eof then some fstabMap
    else
      match file.rest with
      | [] => some fstabMap
      | b :: s =>
        if b = hash ∨ b = newline then
          match skipComment fuel b s with
          | none => none
          | some rest => parseLoop fuel (lineno + 1) fstabMap { rest }
        else
          match getmntent (b :: s) with
          | (none, file) => parseLoop fuel (lineno + 1) fstabMap file
          | (some mnt, file) =>
            parseLoop fuel (lineno + 1) (fstabMap.insert mnt.dir (fstabEntry mnt (lineno + 1))) file

/-- Of a file that can be opened. -/
def parseFstab (fuel : Nat) (contents : Bytes) : Option (ByteMap FstabEntry) :=
  parseLoop fuel 0 ∅ { rest := contents }

end ParseFstab

section CheckOptions

/-- A `std::set` of the options that are asked for. -/
def optionSet (items : Option (List Bytes)) : ByteMap Unit :=
  (items.getD []).foldl (fun set option => set.insert option ()) ∅

/-- The options up to the first one that does not pass. -/
def checkEach (passes : Bytes → Bool) (good bad : Bytes) : List Bytes → List Indicator × Bool
  | [] => ([], true)
  | option :: options =>
    if passes option then
      let (indicators, passed) := checkEach passes good bad options
      ({ message := good ++ option, status := .compliant } :: indicators, passed)
    else ([{ message := bad ++ option, status := .nonCompliant }], false)

def checkOptions (options : List Bytes) (optionsSet optionsNotSet : ByteMap Unit) : List Indicator × Status :=
  let (required, allSet) := checkEach (· ∈ options) (utf8 "Required option is set: ")
    (utf8 "Required option not set: ") optionsSet.keys
  let (forbidden, noneSet) := checkEach (· ∉ options) (utf8 "Forbidden option is not set: ")
    (utf8 "Forbidden option is set: ") optionsNotSet.keys
  if allSet = false then (required, .nonCompliant)
  else if noneSet = false then (required ++ forbidden, .nonCompliant)
  else
    (required ++ forbidden ++
      [{ message := utf8 "All required options are set and no forbidden options are set", status := .compliant }],
      .compliant)

end CheckOptions

section Remediate

structure Params where
  mountpoint : Bytes
  mountpointIsPattern : Bool := false
  optionsSet : Option (List Bytes) := none
  optionsNotSet : Option (List Bytes) := none

def missingOptions (params : Params) (options : List Bytes) : List Bytes :=
  (options.foldl (fun missing option => missing.erase option) (optionSet params.optionsSet)).keys

def keptOptions (params : Params) (options : List Bytes) : List Bytes :=
  options.filter (· ∉ optionSet params.optionsNotSet)

/-- The options that the new line is to have. -/
def newOptions (params : Params) (options : List Bytes) : List Bytes :=
  keptOptions params options ++ missingOptions params options

/-- `seekp(-1, end)` lets the last byte be written over, whatever it is. -/
def fstabLine (params : Params) (entry : FstabEntry) : Bytes :=
  let oss := entry.device ++ utf8 " " ++ params.mountpoint ++ utf8 " " ++ entry.filesystem ++ utf8 " " ++
    (newOptions params entry.options).flatMap fun option => option ++ utf8 ","
  oss.dropLast ++ utf8 " " ++ printSigned entry.dump.toInt ++ utf8 " " ++ printSigned entry.pass.toInt

/-- The lines that have been read are counted by an `int`. -/
def rewriteLines (params : Params) (entry : FstabEntry) : Int32 → List Bytes → Bytes
  | _, [] => []
  | lineno, line :: rest =>
    (if lineno + 1 = entry.lineno then fstabLine params entry else line) ++ [newline] ++
      rewriteLines params entry (lineno + 1) rest

def rewriteFstab (params : Params) (entry : FstabEntry) (contents : Bytes) : Bytes :=
  rewriteLines params entry 0 (lines contents)

/-- What the procedure finds, and how the calls of the rewrite end. Of `/etc/fstab` as many bytes are read as
`readBytes` says (none where it is not opened), and of what is written to the temporary file `writtenBytes` get there;
where that file is not opened it stays what it was. -/
structure Host where
  fstabPath : Bytes
  fstab : Bytes
  fstabEntries : Except Error (ByteMap FstabEntry)
  mtabEntries : Except Error (ByteMap FstabEntry)
  readBytes : Nat
  tempOpened : Bool
  staleTemp : Option Bytes
  writtenBytes : Nat
  backupError : Option Int
  replaceError : Option Int
  mountPath : Bytes
  executeCommand : Bytes → Except Error Bytes

/-- `fstab` is what `/etc/fstab` holds in the end, if it is there. -/
structure Remediated where
  result : Except Error Status
  fstab : Option Bytes

/-- A text on its way to the temporary file. -/
def Host.temp (host : Host) (text : Bytes) : Option Bytes :=
  if host.tempOpened then some (text.take host.writtenBytes) else host.staleTemp

def errnoText (errno : Int) : Bytes := utf8 " with error " ++ printSigned errno

/-- The copy and the two renames. Whether they succeed is told apart from what the file is in the end. -/
def replaceFstab (host : Host) (params : Params) (entry : FstabEntry) : Option Error × Option Bytes :=
  match host.backupError with
  | some errno =>
    (some { message := utf8 "Failed to backup " ++ host.fstabPath ++ errnoText errno }, some host.fstab)
  | none =>
    match host.temp (rewriteFstab params entry (host.fstab.take host.readBytes)), host.replaceError with
    | some temp, none => (none, some temp)
    | some _, some errno =>
      (some { message := utf8 "Failed to rename " ++ host.fstabPath ++ utf8 ".tmp" ++ errnoText errno }, none)
    | none, errno =>
      (some { message := utf8 "Failed to rename " ++ host.fstabPath ++ utf8 ".tmp" ++ errnoText (errno.getD ENOENT) },
        none)

def remount (host : Host) (params : Params) (mtabEntries : ByteMap FstabEntry) : Except Error Status :=
  match mtabEntries[params.mountpoint]? with
  | none => .ok .compliant
  | some entry =>
    if (checkOptions entry.options (optionSet params.optionsSet) (optionSet params.optionsNotSet)).2 = .nonCompliant then
      match host.executeCommand
          (host.mountPath ++ utf8 " -o remount \"" ++ StringTools.escapeForShell params.mountpoint ++ utf8 "\"") with
      | .error e =>
        .error { message := utf8 "Failed to remount " ++ params.mountpoint ++ utf8 ": " ++ e.message, code := e.code }
      | .ok _ => .ok .compliant
    else .ok .compliant

/-- The entry that is rewritten, if one is. -/
def entryToRewrite (params : Params) (fstabEntries : ByteMap FstabEntry) : Option FstabEntry :=
  fstabEntries[params.mountpoint]?.filter fun entry =>
    (checkOptions entry.options (optionSet params.optionsSet) (optionSet params.optionsNotSet)).2 = .nonCompliant

def remediateFilesystemMountOption (host : Host) (params : Params) : Remediated :=
  if params.mountpointIsPattern then
    { result := .error { message := utf8 "Mountpoint pattern remediation is not supported", code := EINVAL }
      fstab := some host.fstab }
  else
    match host.fstabEntries, host.mtabEntries with
    | .error e, _ => { result := .error e, fstab := some host.fstab }
    | .ok _, .error e => { result := .error e, fstab := some host.fstab }
    | .ok fstabEntries, .ok mtabEntries =>
      match entryToRewrite params fstabEntries with
      | none => { result := remount host params mtabEntries, fstab := some host.fstab }
      | some entry =>
        match replaceFstab host params entry with
        | (some e, fstab) => { result := .error e, fstab }
        | (none, fstab) => { result := remount host params mtabEntries, fstab }

end Remediate

end Kompli.FilesystemMountOption
