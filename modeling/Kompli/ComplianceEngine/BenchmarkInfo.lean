import Kompli.Parson.Parse
import Kompli.ComplianceEngine.MmiResults

/-! What a benchmark is for: its framework, the distributions it applies to, and its version. -/
namespace Kompli
open Parson Ascii

inductive OSType where
  | linux
  deriving DecidableEq, Repr

inductive Architecture where
  | x86_64
  | aarch64
  deriving DecidableEq, Repr

inductive LinuxDistribution where
  | ubuntu
  | centos
  | rhel
  | suse
  | oracleLinux
  | mariner
  | debian
  | azureLinux
  | amazonLinux
  | almaLinux
  | rockyLinux
  | aks
  deriving DecidableEq, Repr

namespace LinuxDistribution

/-- The names of `GetDistributionMap`. -/
def name : LinuxDistribution → Bytes
  | ubuntu => utf8 "ubuntu"
  | centos => utf8 "centos"
  | rhel => utf8 "rhel"
  | suse => utf8 "sles"
  | oracleLinux => utf8 "ol"
  | mariner => utf8 "mariner"
  | debian => utf8 "debian"
  | azureLinux => utf8 "azurelinux"
  | amazonLinux => utf8 "amzn"
  | almaLinux => utf8 "almalinux"
  | rockyLinux => utf8 "rocky"
  | aks => utf8 "aks"

def all : List LinuxDistribution :=
  [ubuntu, centos, rhel, suse, oracleLinux, mariner, debian, azureLinux, amazonLinux, almaLinux,
    rockyLinux, aks]

def parse (distributionStr : Bytes) : Except Error LinuxDistribution :=
  match all.find? (·.name = distributionStr) with
  | some distribution => .ok distribution
  | none => .error { message := utf8 "Unsupported Linux distribution: " ++ distributionStr, code := EINVAL }

end LinuxDistribution

/-- What is known of the host. -/
structure DistributionInfo where
  osType : OSType := .linux
  architecture : Architecture := .x86_64
  distribution : LinuxDistribution := .ubuntu
  version : Bytes

structure BenchmarkInfo where
  framework : Bytes
  distribution : LinuxDistribution
  version : Bytes
  benchmarkVersion : Bytes
  section_ : Bytes := []
  deriving DecidableEq

namespace BenchmarkInfo

abbrev asterisk : UInt8 := 0x2A
abbrev questionMark : UInt8 := 0x3F
abbrev letterX : UInt8 := 0x78

/-- `std::getline` up to `delimiter`: the line, and what follows the delimiter. -/
def getLine (delimiter : UInt8) (s : Bytes) : Option (Bytes × Bytes) :=
  if s = [] then none else some (s.takeWhile (· ≠ delimiter), (s.dropWhile (· ≠ delimiter)).tail)

def validateGlobbing (distributionVersion : Bytes) : Except Error Unit :=
  if distributionVersion.any (· ∈ [leftBracket, rightBracket, leftBrace, rightBrace, 0]) then
    .error { message := utf8 "Invalid benchmark distribution version: " ++ distributionVersion ++
               utf8 ". Globbing characters [ ] \x7b \x7d are not allowed."
             code := EINVAL }
  else .ok ()

/-- A line that must be there and not be empty. -/
def requiredLine (delimiter : UInt8) (missing : Bytes) (s : Bytes) : Except Error (Bytes × Bytes) :=
  match getLine delimiter s with
  | none => .error { message := missing, code := EINVAL }
  | some (line, rest) => if line = [] then .error { message := missing, code := EINVAL } else .ok (line, rest)

def parse (payloadKey : Bytes) : Except Error BenchmarkInfo := do
  match getLine slash payloadKey with
  | some ([], rest) =>
    let (framework, rest) ←
      requiredLine slash (utf8 "Invalid payload key format: missing benchmark framework") rest
    match getLine slash rest with
    | none =>
      .error { message := utf8 "Invalid benchmark payload key format: missing distribution", code := EINVAL }
    | some (token, rest) =>
      let distribution ← LinuxDistribution.parse token
      let (version, rest) ←
        requiredLine slash (utf8 "Invalid benchmark payload key format: missing distribution version") rest
      validateGlobbing version
      let (benchmarkVersion, rest) ←
        requiredLine slash (utf8 "Invalid benchmark payload key format: missing benchmark version") rest
      let (section_, _) ←
        requiredLine 0x0A (utf8 "Invalid benchmark payload key format: missing benchmark section") rest
      .ok { framework, distribution, version, benchmarkVersion, section_ }
  | _ => .error { message := utf8 "Invalid payload key format: must start with '/'", code := EINVAL }

def fromMetadata (framework distribution distributionVersion benchmarkVersion : Bytes) :
    Except Error BenchmarkInfo := do
  if framework = [] then .error { message := utf8 "Benchmark framework must not be empty", code := EINVAL }
  else
    let distribution ← LinuxDistribution.parse distribution
    if distributionVersion = [] then
      .error { message := utf8 "Benchmark distribution version must not be empty", code := EINVAL }
    else
      validateGlobbing distributionVersion
      if benchmarkVersion = [] then
        .error { message := utf8 "Benchmark version must not be empty", code := EINVAL }
      else .ok { framework, distribution, version := distributionVersion, benchmarkVersion }

/-- `Match`; `fnmatch` is that of the C library, with the pattern first. -/
def isMatch (fnmatch : Bytes → Bytes → Bool) (benchmarkInfo : BenchmarkInfo)
    (distributionInfo : DistributionInfo) : Bool :=
  distributionInfo.distribution = benchmarkInfo.distribution &&
    fnmatch (cString benchmarkInfo.version) (cString distributionInfo.version)

/-- `SanitizedVersion`; a character is escaped when the one before is a backslash that is not. -/
def sanitize : (escaped : Bool) → Bytes → Bytes
  | _, [] => []
  | true, c :: version => c :: sanitize false version
  | false, c :: version =>
    if c = backslash then sanitize true version
    else if c = asterisk then sanitize false version
    else if c = questionMark then letterX :: sanitize false version
    else c :: sanitize false version

def sanitizedVersion (benchmarkInfo : BenchmarkInfo) : Bytes := sanitize false benchmarkInfo.version

/-- `std::to_string`. -/
def toBytes (benchmarkInfo : BenchmarkInfo) : Bytes :=
  slash :: benchmarkInfo.framework ++ slash :: benchmarkInfo.distribution.name ++
    slash :: benchmarkInfo.version ++ slash :: benchmarkInfo.benchmarkVersion ++
    slash :: benchmarkInfo.section_

/-- The benchmark version without the `v` that it may start with. -/
def versionWithoutPrefix (benchmarkVersion : Bytes) : Bytes :=
  if benchmarkVersion.head? = some 0x76 then benchmarkVersion.tail else benchmarkVersion

end BenchmarkInfo
end Kompli
