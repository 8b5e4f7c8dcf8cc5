import Kompli.ComplianceEngine.JsonWrapper
import Kompli.ComplianceEngine.Indicators
import Mathlib.Algebra.Group.Nat.Defs
import Mathlib.Data.List.TakeWhile

/-! How the versions of packages are compared, and what is reported of an installed package. -/
namespace Kompli.PackageInstalled
open Parson Ascii Foundation JsonWrapper

section Split

def colon : UInt8 := 0x3A
def dash : UInt8 := 0x2D

/-- Epoch, version and release. -/
structure Evr where
  epoch : Bytes
  version : Bytes
  release : Bytes

/-- At the last dash, unless that is the first byte. -/
def splitRelease (ver : Bytes) : Bytes × Bytes :=
  let release := (ver.reverse.takeWhile (· ≠ dash)).reverse
  let version := ver.take (ver.length - (release.length + 1))
  if dash ∈ ver ∧ version ≠ [] then (version, release) else (ver, utf8 "0")

def evrSplit (ver : Bytes) : Evr :=
  let (epoch, rest) :=
    if colon ∈ ver then (ver.takeWhile (· ≠ colon), (ver.dropWhile (· ≠ colon)).tail) else (utf8 "0", ver)
  { epoch, version := (splitRelease rest).1, release := (splitRelease rest).2 }

/-- Runs of digits, and runs without digits that start with a letter. -/
def split : Bytes → List Bytes
  | [] => []
  | c :: cs =>
    if isAlnum c = false then split cs
    else if isDigit c then (c :: cs.takeWhile isDigit) :: split (cs.dropWhile isDigit)
    else (c :: cs.takeWhile (! isDigit ·)) :: split (cs.dropWhile (! isDigit ·))
  termination_by ver => ver.length
  decreasing_by
    · exact Nat.lt_succ_self _
    · exact Nat.lt_succ_of_le (List.length_dropWhile_le _ _)
    · exact Nat.lt_succ_of_le (List.length_dropWhile_le _ _)

end Split

section Compare

/-- The `int` that the difference of two sizes is turned into. -/
def sizeDifference (size other : Nat) : Int := ((size : Int) - other).bmod (2 ^ 32)

/-- The last one of zeros only stays. -/
def stripZeroes (part : Bytes) : Bytes :=
  if part.all (· = zero) then part.drop (part.length - 1) else part.dropWhile (· = zero)

/-- Leading zeros are stripped, then the lengths are compared and then the texts. -/
def compareNumbers (part other : Bytes) : Ordering :=
  let cmp := sizeDifference (stripZeroes part).length (stripZeroes other).length
  if cmp < 0 then .lt
  else if 0 < cmp then .gt
  else Ord.compare (stripZeroes part) (stripZeroes other)

def startsWithDigit (part : Bytes) : Bool := part.head?.any isDigit

def comparePart (part other : Bytes) : Ordering :=
  if startsWithDigit part && startsWithDigit other then compareNumbers part other
  else if ! startsWithDigit part && ! startsWithDigit other then Ord.compare part other
  -- one is a number and the other is not: the number is more
  else if startsWithDigit part then .gt
  else .lt

def compareLists : List Bytes → List Bytes → Ordering
  | [], [] => .eq
  | [], _ :: _ => .lt
  | _ :: _, [] => .gt
  | part :: parts, other :: others => (comparePart part other).then (compareLists parts others)

def compareParts (p1 p2 : Bytes) : Ordering := compareLists (split p1) (split p2)

/-- The results -1, 0 and 1 are orderings. -/
def versionCompare (v1 v2 : Bytes) : Ordering :=
  let evr1 := evrSplit v1
  let evr2 := evrSplit v2
  (compareParts evr1.epoch evr2.epoch).then
    ((compareParts evr1.version evr2.version).then (compareParts evr1.release evr2.release))

end Compare

section Report

structure Params where
  packageName : Bytes
  minPackageVersion : Option Bytes := none

/-- The end of `AuditPackageInstalled`, once the packages are known. -/
def reportInstalled (params : Params) (packages : ByteMap Bytes) : Indicator :=
  match packages[params.packageName]? with
  | none => { message := utf8 "Package " ++ params.packageName ++ utf8 " is not installed", status := .nonCompliant }
  | some installedVersion =>
    match params.minPackageVersion with
    | none => { message := utf8 "Package " ++ params.packageName ++ utf8 " is installed", status := .compliant }
    | some minPackageVersion =>
      if versionCompare installedVersion minPackageVersion = .lt then
        { message := utf8 "Package " ++ params.packageName ++ utf8 " is installed but version " ++ installedVersion ++
            utf8 " is less than minimum required version " ++ minPackageVersion
          status := .nonCompliant }
      else
        { message := utf8 "Package " ++ params.packageName ++ utf8 " is installed with version " ++ installedVersion ++
            utf8 ", which meets or exceeds the minimum required version " ++ minPackageVersion
          status := .compliant }

end Report

end Kompli.PackageInstalled
