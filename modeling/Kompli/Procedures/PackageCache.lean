import Kompli.Foundation.MapEntries
import Kompli.Foundation.Streams
import Kompli.Procedures.PackageInstalled

/-! The packages that are installed, as the package managers list them, and the file that keeps them between audits. -/
namespace Kompli.PackageInstalled
open Parson Ascii Foundation Streams

inductive PackageManagerType where
  | autodetect
  | rpm
  | dpkg
  deriving DecidableEq

namespace PackageManagerType

/-- `std::to_string`. -/
def label : PackageManagerType → Bytes
  | autodetect => utf8 "autodetect"
  | rpm => utf8 "rpm"
  | dpkg => utf8 "dpkg"

end PackageManagerType

structure PackageCache where
  lastUpdateTime : Int64
  packageManager : PackageManagerType
  packages : ByteMap Bytes

def PACKAGELIST_TTL : Int64 := 3000
def PACKAGELIST_STALE_TTL : Int64 := 12600

def space : UInt8 := 0x20
def atSign : UInt8 := 0x40

section Lines

/-- A line without a space is skipped; the first space ends the name. -/
def addLine (packages : ByteMap Bytes) (line : Bytes) : ByteMap Bytes :=
  if space ∈ line then packages.insert (line.takeWhile (· ≠ space)) (line.dropWhile (· ≠ space)).tail else packages

/-- The words of a line as `>>` reads them: what is not there stays empty. -/
def nextWord (line : Bytes) : Bytes × Bytes := (word line).getD ([], [])

/-- Whether the header has been seen, and the packages so far. -/
def addDpkgLine (read : Bool × ByteMap Bytes) (line : Bytes) : Bool × ByteMap Bytes :=
  if read.1 = false then (startsWith (utf8 "+++-") line, read.2)
  else if line.take 3 = utf8 "ii " then
    let (_, rest) := nextWord line
    let (name, rest) := nextWord rest
    let (version, _) := nextWord rest
    -- some names end with a colon and the architecture
    if name ≠ [] then (true, read.2.insert (name.takeWhile (· ≠ colon)) version) else read
  else read

def readRpm (output : Bytes) : ByteMap Bytes := (lines output).foldl addLine ∅

def readDpkg (output : Bytes) : ByteMap Bytes := ((lines output).foldl addDpkgLine (false, ∅)).2

end Lines

section File

def pkgCacheHeader : Bytes := utf8 "# PackageCache "

/-- `std::stol`: what follows the number is not looked at. -/
def stol (text : Bytes) : Option Int64 := (signed 64 text).map fun read => Int64.ofInt read.1

/-- What is read of a file until it ends or until a read fails. -/
structure FileRead where
  contents : Bytes
  bad : Bool := false

def loadPackageCache (path : Bytes) (file : Option FileRead) : Except Error PackageCache :=
  match file with
  | none => .error { message := utf8 "Failed to open cache file: " ++ path }
  | some file =>
    match lines file.contents with
    | [] => .error { message := utf8 "Invalid cache file format" }
    | header :: body =>
      if file.bad && newline ∉ file.contents then .error { message := utf8 "Invalid cache file format" }
      else if startsWith pkgCacheHeader header = false then .error { message := utf8 "Invalid cache file format" }
      else if atSign ∉ header then .error { message := utf8 "Invalid cache file header format" }
      else
        let packageManagerStr := (header.takeWhile (· ≠ atSign)).drop pkgCacheHeader.length
        let load (packageManager : PackageManagerType) : Except Error PackageCache :=
          match stol (header.dropWhile (· ≠ atSign)).tail with
          | none => .error { message := utf8 "Invalid timestamp in cache file header" }
          | some lastUpdateTime =>
            if file.bad then .error { message := utf8 "Error reading cache file" }
            else .ok { lastUpdateTime, packageManager, packages := body.foldl addLine ∅ }
        if packageManagerStr = utf8 "dpkg" then load .dpkg
        else if packageManagerStr = utf8 "rpm" then load .rpm
        else .error { message := utf8 "Invalid package manager type" }

def headerOf (cache : PackageCache) : Bytes :=
  pkgCacheHeader ++ cache.packageManager.label ++ utf8 "@" ++ printSigned cache.lastUpdateTime.toInt

def lineOf (package : Bytes × Bytes) : Bytes := package.1 ++ utf8 " " ++ package.2

def cacheText (cache : PackageCache) : Bytes :=
  headerOf cache ++ utf8 "\n" ++ cache.packages.toList.flatMap fun package => lineOf package ++ utf8 "\n"

/-- Which calls succeed while the cache is saved; `temporary` is the name that `mkstemp` gives. -/
structure SaveCalls where
  temporary : Option Bytes
  opened : Bool
  headerWritten : Bool
  packageWritten : Bytes → Bool
  closed : Bool
  renamed : Bool

/-- What the file at `path` holds from then on; nothing of it is changed where there is an error. -/
def savePackageCache (calls : SaveCalls) (cache : PackageCache) (path : Bytes) : Except Error Bytes :=
  match calls.temporary with
  | none => .error { message := utf8 "Failed to create temporary file" }
  | some tempPath =>
    if calls.opened = false then
      .error { message := utf8 "Failed to open temporary file for writing: " ++ tempPath }
    else if calls.headerWritten = false then .error { message := utf8 "Failed to write header to temporary file" }
    else if cache.packages.toList.any fun package => ! calls.packageWritten package.1 then
      .error { message := utf8 "Failed to write package name to temporary file" }
    else if calls.closed = false then .error { message := utf8 "Failed to close temporary file" }
    else if calls.renamed = false then
      .error { message := utf8 "Failed to rename temporary file to target path: " ++ tempPath ++ utf8 "->" ++ path }
    else .ok (cacheText cache)

end File

section Audit

/-- What the procedure sees of its host. `now` is the clock where the age of the cache is looked at, `fetchTime` where
the packages are listed. -/
structure Host where
  statePath : Bytes
  cacheFile : Option FileRead
  executeCommand : Bytes → Except Error Bytes
  now : Int64
  fetchTime : Int64

variable (host : Host)

def Host.cachePath : Bytes := host.statePath ++ utf8 "/ComplianceEnginePackageCache"

def succeeds (command : Bytes) : Bool := (host.executeCommand command).isOk

def detectPackageManager : Except Error PackageManagerType :=
  if succeeds host (utf8 "dpkg -l dpkg") then .ok .dpkg
  else if succeeds host (utf8 "rpm -q rpm") then .ok .rpm
  -- for SLES 15
  else if succeeds host (utf8 "rpm -q rpm-ndb") then .ok .rpm
  else .error { message := utf8 "No package manager found", code := ENOENT }

def getInstalledPackagesRpm : Except Error PackageCache :=
  match host.executeCommand (utf8 "rpm -qa --qf='%\x7bNAME\x7d %\x7bEVR\x7d\n'") with
  | .error _ => .error { message := utf8 "Failed to execute rpm command" }
  | .ok output => .ok { lastUpdateTime := host.fetchTime, packageManager := .rpm, packages := readRpm output }

def getInstalledPackagesDpkg : Except Error PackageCache :=
  match host.executeCommand (utf8 "dpkg -l") with
  | .error _ => .error { message := utf8 "Failed to execute dpkg command" }
  | .ok output => .ok { lastUpdateTime := host.fetchTime, packageManager := .dpkg, packages := readDpkg output }

def getInstalledPackages (packageManager : PackageManagerType) : Except Error PackageCache :=
  match packageManager with
  | .rpm => getInstalledPackagesRpm host
  | .dpkg => getInstalledPackagesDpkg host
  | .autodetect =>
    .error { message := utf8 "Unsupported package manager: " ++ PackageManagerType.label .autodetect }

structure AuditParams extends Params where
  packageManager : PackageManagerType := .autodetect

/-- Where the packages are from that an audit goes by. -/
inductive Origin where
  | file
  | command
  deriving DecidableEq

/-- What an audit goes by. -/
inductive Chosen where
  | notApplicable (message : Bytes)
  | packages (packageManager : PackageManagerType) (origin : Origin) (cache : PackageCache)

def refresh (packageManager : PackageManagerType) (stale : Option PackageCache) : Except Error Chosen :=
  match getInstalledPackages host packageManager with
  | .ok cache => .ok (.packages packageManager .command cache)
  | .error e =>
    match stale with
    | some cache => .ok (.packages packageManager .file cache)
    | none => .error { message := utf8 "Failed to get installed packages: " ++ e.message }

/-- The difference of the times is one of their type. -/
def chooseByAge (cache : PackageCache) : Except Error Chosen :=
  let cacheAge := host.now - cache.lastUpdateTime
  if PACKAGELIST_STALE_TTL < cacheAge then refresh host cache.packageManager none
  else if PACKAGELIST_TTL < cacheAge then refresh host cache.packageManager (some cache)
  else .ok (.packages cache.packageManager .file cache)

/-- `AuditPackageInstalled` up to the lookup of the package. -/
def choosePackages (params : AuditParams) : Except Error Chosen :=
  match loadPackageCache host.cachePath host.cacheFile with
  | .ok cache =>
    if params.packageManager = .autodetect ∨ cache.packageManager = params.packageManager then chooseByAge host cache
    else refresh host params.packageManager none
  | .error _ =>
    if params.packageManager = .autodetect then
      match detectPackageManager host with
      | .ok packageManager => refresh host packageManager none
      | .error e => if e.code = ENOENT then .ok (.notApplicable e.message) else .error e
    else refresh host params.packageManager none

def auditPackageInstalled (params : AuditParams) : Except Error Indicator :=
  match choosePackages host params with
  | .error e => .error e
  | .ok (.notApplicable message) => .ok { message, status := .notApplicable }
  | .ok (.packages _ _ cache) => .ok (reportInstalled params.toParams cache.packages)

end Audit

end Kompli.PackageInstalled
