import Kompli.ComplianceEngine.JsonWrapper
import Kompli.Foundation.Streams
import Kompli.Foundation.Substring
import Kompli.Procedures.ConfigRewrite

/-! The remediation of the attributes that AIDE records of a file. -/
namespace Kompli.AideAttributes
open Parson Ascii Foundation Streams ConfigRewrite

structure Params where
  configPath : Bytes
  filename : Bytes
  attributes : Bytes

def plus : UInt8 := 0x2B

/-- `Separated<std::string, '+'>::Parse`: like `std::getline`, without an empty item at the end. -/
def separated (attributes : Bytes) : List Bytes :=
  let items := attributes.splitOn plus
  if items.getLast? = some [] then items.dropLast else items

def parseAttributes (params : Params) : Except Error (List Bytes) :=
  if params.configPath = [] ∨ params.filename = [] ∨ params.attributes = [] ∨ 0 ∈ params.configPath ∨
      0 ∈ params.filename then
    .error { message := utf8 "AIDE configuration, filename and required attributes must be specified", code := EINVAL }
  else if params.attributes.getLast? = some plus then
    .error { message := utf8 "Invalid trailing AIDE attribute separator", code := EINVAL }
  else
    match (separated params.attributes).find? fun item => item = [] || item.any fun c => ! (isAlnum c || c ∈ utf8 "_") with
    | some item => .error { message := utf8 "Invalid AIDE attribute: " ++ item, code := EINVAL }
    | none => .ok (separated params.attributes)

def upperDigits : Bytes := utf8 "0123456789ABCDEF"
def lowerDigits : Bytes := utf8 "0123456789abcdef"

/-- The two hexadecimal digits of a byte. -/
def hexByte (digits : Bytes) (c : UInt8) : Bytes := [digits[c.toNat / 16]?.getD 0, digits[c.toNat % 16]?.getD 0]

def encodeAidePath (path : Bytes) : Bytes :=
  path.flatMap fun c => if isAlnum c || c ∈ utf8 "/_-" then [c] else utf8 "%" ++ hexByte upperDigits c

def hexEncode (value : Bytes) : Bytes := value.flatMap (hexByte lowerDigits)

/-- The marker of a path is followed by its rule; where there is none both are put in front. -/
def setManagedRule (contents canonicalPath attributes : Bytes) : Bytes :=
  let marker := utf8 "# kompli:AideAttributes:" ++ hexEncode canonicalPath
  let rule := utf8 "=" ++ encodeAidePath canonicalPath ++ utf8 "$ " ++ attributes
  match cutAt marker contents with
  | none => marker ++ [newline] ++ rule ++ [newline] ++ contents
  | some (before, after) =>
    match cutAt [newline] after with
    | none => before ++ marker ++ [newline] ++ rule ++ [newline]
    | some (line, rest) => before ++ marker ++ line ++ [newline] ++ rule ++ rest.dropWhile (· ≠ newline)

def remediateAideAttributes (outcomes : Outcomes) (params : Params) : ConfigM Status := do
  let _ ← ConfigRewrite.ofExcept (parseAttributes params)
  unlessCompliant outcomes <|
    match outcomes.realpath with
    | none => nonCompliant (utf8 "Cannot resolve AIDE file: " ++ params.filename)
    | some canonical =>
      if ∃ c ∈ canonical, c ∈ utf8 "\r\n" then
        throw { message := utf8 "AIDE file path cannot contain a newline", code := EINVAL }
      else
        rewriteConfig outcomes params.configPath (setManagedRule · canonical params.attributes)
          (utf8 "AIDE remediation produced no configuration change") (utf8 "AIDE configuration remained noncompliant")

theorem remediateAideAttributes_keeps (outcomes : Outcomes) (params : Params) (file : Option ConfigFile) :
    Keeps file (remediateAideAttributes outcomes params { file }) ↔
      ∀ attributes, parseAttributes params = .ok attributes → NeedsChange outcomes →
        ∀ canonical, outcomes.realpath = some canonical → (¬ ∃ c ∈ canonical, c ∈ utf8 "\r\n") →
          ReadsAllToUndo outcomes file fun text => setManagedRule text canonical params.attributes ≠ text := by
  refine ofExcept_keeps (untouched_start file) fun _ => ?_
  refine unlessCompliant_keeps (fun t ht => ?_) (untouched_start file)
  cases outcomes.realpath with
  | none => exact iff_of_true ((ht.record (by simp) (by simp)).keeps rfl) fun _ hnone => (nomatch hnone)
  | some canonical =>
    simp only [Option.some.injEq, forall_eq']
    by_cases hline : ∃ c ∈ canonical, c ∈ utf8 "\r\n"
    · rw [if_pos hline]
      exact iff_of_true (ht.keeps rfl) fun hnot => absurd hline hnot
    · rw [if_neg hline, rewriteConfig_keeps ht]
      exact ⟨fun h _ => h, fun h => h hline⟩

end Kompli.AideAttributes
