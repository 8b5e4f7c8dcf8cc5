import Kompli.Cli.Plan
import Kompli.Foundation.CheckedWrites
import Mathlib.Data.List.Sigma

/-! Rules are named by toggles and, followed by a parameter, by overrides: when the
two resolve to the same rule. -/
namespace Kompli.Cli
open BenchmarkIO Parson Ascii Foundation

variable {parsedFiles : List ParsedBenchmarkFile}

/-- A toggle's reference names a rule that its file has. -/
def TogglesTo (parsedFiles : List ParsedBenchmarkFile) (ref : Bytes) (rule : ResolvedRuleRef) : Prop :=
  resolveRuleRef parsedFiles ref (multiFile parsedFiles) = .ok rule ∧
    ∃ parsed, parsedFiles[rule.file]? = some parsed ∧ rule.id ∈ parsed.rules

/-- The rule declares the parameter. -/
def Declares (parsedFiles : List ParsedBenchmarkFile) (found : ResolvedParameterOverride) : Prop :=
  ∃ (parsed : ParsedBenchmarkFile) (metadata : ByteMap ParameterMetadata),
    parsedFiles[found.file]? = some parsed ∧ parsed.parameterMetadata[found.id]? = some metadata ∧
      found.name ∈ metadata

/-- What an override's selector resolves to. -/
def Selects (parsedFiles : List ParsedBenchmarkFile) (selector : Bytes) :
    Except Error ResolvedParameterOverride :=
  resolveParameterOverride parsedFiles selector (multiFile parsedFiles)

def ambiguousSelector (selector : Bytes) : Error :=
  { message := utf8 "Ambiguous parameter selector '" ++ selector ++
      utf8 "'; it matches more than one rule and parameter"
    code := EINVAL }

/-- What precedes an id: the base name of its file, where there are several files. -/
def qualifier (parsedFiles : List ParsedBenchmarkFile) (parsed : ParsedBenchmarkFile) : Bytes :=
  if multiFile parsedFiles then baseName parsed.file.val ++ [colon] else []

/-- The base name of the file at `file` tells where it ends, and it is that of no other file. -/
structure Distinguished (parsedFiles : List ParsedBenchmarkFile) (file : Nat) (parsed : ParsedBenchmarkFile) :
    Prop where
  colonFree : colon ∉ baseName parsed.file.val
  unshared : ∀ (other : Nat) (otherParsed : ParsedBenchmarkFile), parsedFiles[other]? = some otherParsed →
    baseName otherParsed.file.val = baseName parsed.file.val → other = file

section Lookup

private theorem filter_zipIdx_eq_singleton {α : Type} {p : α → Bool} {xs : List α} {i : Nat} {x : α}
    (hx : xs[i]? = some x) (hp : p x = true) (hunique : ∀ j y, xs[j]? = some y → p y = true → j = i) :
    (xs.zipIdx.filter fun y => p y.1) = [(x, i)] := by
  have hnodup : (xs.zipIdx.filter fun y => p y.1).Nodup :=
    ((List.nodup_zipIdx_map_snd xs).of_map Prod.snd).filter _
  have hmem : ∀ y, y ∈ (xs.zipIdx.filter fun y => p y.1) ↔ y ∈ [(x, i)] := by
    intro y
    rw [List.mem_filter, List.mem_zipIdx_iff_getElem?, List.mem_singleton]
    constructor
    · rintro ⟨hy, hpy⟩
      have hi := hunique y.2 y.1 hy hpy
      rw [hi, hx] at hy
      exact Prod.ext (Option.some.inj hy).symm hi
    · rintro rfl
      exact ⟨hx, hp⟩
  exact List.perm_singleton.mp ((List.perm_ext_iff_of_nodup hnodup (List.nodup_singleton _)).mpr hmem)

theorem mem_parameterSelectors {selector : Bytes} {found : ResolvedParameterOverride} :
    (selector, found) ∈ parameterSelectors parsedFiles (multiFile parsedFiles) ↔
      Declares parsedFiles found ∧ ∃ parsed, parsedFiles[found.file]? = some parsed ∧
        selector = qualifier parsedFiles parsed ++ found.id ++ [dot] ++ found.name := by
  simp only [parameterSelectors, List.mem_flatMap, List.mem_map, Prod.mk.injEq]
  constructor
  · rintro ⟨⟨parsed, file⟩, hfile, rule, hrule, parameter, hparameter, rfl, rfl⟩
    have hparsed := List.mem_zipIdx_iff_getElem?.mp hfile
    have hid := Std.ExtTreeMap.mem_toList_iff_getElem?_eq_some.mp hrule
    exact ⟨⟨parsed, rule.2, hparsed, hid, mem_of_mem_toList hparameter⟩, parsed, hparsed, rfl⟩
  · rintro ⟨⟨parsed, metadata, hparsed, hid, hname⟩, parsed', hparsed', rfl⟩
    obtain rfl : parsed = parsed' := Option.some.inj (hparsed.symm.trans hparsed')
    obtain ⟨value, hvalue⟩ := exists_mem_toList hname
    exact ⟨(parsed, found.file), List.mem_zipIdx_iff_getElem?.mpr hparsed, (found.id, metadata),
      Std.ExtTreeMap.mem_toList_iff_getElem?_eq_some.mpr hid, (found.name, value), hvalue, rfl, rfl⟩

/-- A selector resolves to a parameter that is declared, and whose whole selector it is. -/
theorem selects_ok {selector : Bytes} {found : ResolvedParameterOverride}
    (h : Selects parsedFiles selector = .ok found) :
    Declares parsedFiles found ∧ ∃ parsed, parsedFiles[found.file]? = some parsed ∧
      selector = qualifier parsedFiles parsed ++ found.id ++ [dot] ++ found.name := by
  unfold Selects resolveParameterOverride at h
  split at h
  · cases h
  · rename_i m hfilter
    cases h
    have hm : m ∈ (parameterSelectors parsedFiles (multiFile parsedFiles)).filter (·.1 = selector) := by
      rw [hfilter]
      exact List.mem_singleton_self m
    obtain ⟨hmem, hselector⟩ := List.mem_filter.mp hm
    obtain rfl : m.1 = selector := by simpa using hselector
    exact mem_parameterSelectors.mp hmem
  · cases h

/-- The whole selector of a declared parameter resolves to it, or is ambiguous. -/
theorem selects_of_declared {selector : Bytes} {found : ResolvedParameterOverride}
    (h : (selector, found) ∈ parameterSelectors parsedFiles (multiFile parsedFiles)) :
    Selects parsedFiles selector = .ok found ∨
      Selects parsedFiles selector = .error (ambiguousSelector selector) := by
  have hm : (selector, found) ∈
      (parameterSelectors parsedFiles (multiFile parsedFiles)).filter (·.1 = selector) :=
    List.mem_filter.mpr ⟨h, by simp⟩
  unfold Selects resolveParameterOverride
  split
  · rename_i hfilter
    rw [hfilter] at hm
    exact absurd hm List.not_mem_nil
  · rename_i m hfilter
    rw [hfilter, List.mem_singleton] at hm
    rw [← hm]
    exact Or.inl rfl
  · exact Or.inr rfl

private theorem split_qualified {basename : Bytes} (h : colon ∉ basename) (id : Bytes) :
    (basename ++ [colon] ++ id).takeWhile (· ≠ colon) = basename ∧
      ((basename ++ [colon] ++ id).dropWhile (· ≠ colon)).tail = id := by
  have hbefore : ∀ c ∈ basename, decide (c ≠ colon) = true := by
    intro c hc
    simp only [ne_eq, decide_eq_true_eq]
    rintro rfl
    exact h hc
  rw [List.append_assoc, List.takeWhile_append_of_pos hbefore, List.dropWhile_append_of_pos hbefore]
  simp

/-- A qualified reference is split where its base name ends. -/
theorem resolveRuleRef_qualified (hmulti : multiFile parsedFiles = true) {file : Nat}
    {parsed : ParsedBenchmarkFile} (hparsed : parsedFiles[file]? = some parsed)
    (h : Distinguished parsedFiles file parsed) (id : Bytes) :
    resolveRuleRef parsedFiles (baseName parsed.file.val ++ [colon] ++ id) (multiFile parsedFiles) =
      .ok { file, id } := by
  obtain ⟨hbefore, hafter⟩ := split_qualified h.colonFree id
  have hfilter := filter_zipIdx_eq_singleton (p := fun other => baseName other.file.val = baseName parsed.file.val)
    hparsed (by simp) fun j other hother heq => h.unshared j other hother (by simpa using heq)
  rw [resolveRuleRef, if_neg (by simp [hmulti]), if_neg (by simp)]
  simp only [hbefore, hafter, filesNamed, hfilter, List.map_cons, List.map_nil]

private theorem eq_split {ref : Bytes} (h : colon ∈ ref) :
    ref = ref.takeWhile (· ≠ colon) ++ [colon] ++ (ref.dropWhile (· ≠ colon)).tail := by
  induction ref with
  | nil => exact absurd h List.not_mem_nil
  | cons c ref ih =>
    by_cases hc : c = colon
    · subst hc
      simp
    · have hrest := ih ((List.mem_cons.mp h).resolve_left (Ne.symm hc))
      rw [List.takeWhile_cons_of_pos (by simpa using hc), List.dropWhile_cons_of_pos (by simpa using hc),
        List.cons_append, List.cons_append, ← hrest]

/-- What a reference says when it is resolved: a file's qualifier and an id. -/
theorem resolveRuleRef_ok {ref : Bytes} {rule : ResolvedRuleRef} {parsed : ParsedBenchmarkFile}
    (hparsed : parsedFiles[rule.file]? = some parsed)
    (h : resolveRuleRef parsedFiles ref (multiFile parsedFiles) = .ok rule) :
    ref = qualifier parsedFiles parsed ++ rule.id := by
  rw [resolveRuleRef] at h
  split at h
  · rename_i hsingle
    cases h
    rw [qualifier, if_neg hsingle, List.nil_append]
  · rename_i hmulti
    split at h
    · cases h
    · rename_i hcolon
      dsimp only at h
      split at h
      · cases h
      · rename_i file hnamed
        cases h
        have hmem : file ∈ filesNamed parsedFiles (ref.takeWhile (· ≠ colon)) := by
          rw [hnamed]
          exact List.mem_singleton_self _
        rw [filesNamed] at hmem
        obtain ⟨⟨parsed', _⟩, hfound, rfl⟩ := List.mem_map.mp hmem
        obtain ⟨hfile, hbasename⟩ := List.mem_filter.mp hfound
        obtain rfl : parsed' = parsed :=
          Option.some.inj ((List.mem_zipIdx_iff_getElem?.mp hfile).symm.trans hparsed)
        rw [qualifier, if_pos (by simpa using hmulti), of_decide_eq_true hbasename]
        exact eq_split (by simpa using hcolon)
      · cases h

end Lookup

/-- The two ways of naming a rule agree, and a base name is enough to tell the files apart. -/
def SelectorsAgree (parsedFiles : List ParsedBenchmarkFile) : Prop :=
  (∀ (ref name : Bytes) (rule : ResolvedRuleRef),
    Selects parsedFiles (ref ++ [dot] ++ name) = .ok { file := rule.file, id := rule.id, name } →
      TogglesTo parsedFiles ref rule) ∧
  (∀ (ref name : Bytes) (rule : ResolvedRuleRef), TogglesTo parsedFiles ref rule →
    Declares parsedFiles { file := rule.file, id := rule.id, name } →
      Selects parsedFiles (ref ++ [dot] ++ name) = .ok { file := rule.file, id := rule.id, name } ∨
        Selects parsedFiles (ref ++ [dot] ++ name) = .error (ambiguousSelector (ref ++ [dot] ++ name))) ∧
  ((parsedFiles.map fun parsed => baseName parsed.file.val).Nodup →
    ∀ (file : Nat) (parsed : ParsedBenchmarkFile) (id : Bytes), parsedFiles[file]? = some parsed →
      id ∈ parsed.rules → TogglesTo parsedFiles (baseName parsed.file.val ++ [colon] ++ id) { file, id })

private theorem single_file (h : ¬ multiFile parsedFiles) {file : Nat} {parsed : ParsedBenchmarkFile}
    (hparsed : parsedFiles[file]? = some parsed) : file = 0 := by
  have hlt := (List.getElem?_eq_some_iff.mp hparsed).1
  simp only [multiFile, decide_eq_true_eq] at h
  omega

private theorem togglesTo_single (h : ¬ multiFile parsedFiles) {file : Nat} {parsed : ParsedBenchmarkFile}
    {id : Bytes} (hparsed : parsedFiles[file]? = some parsed) (hid : id ∈ parsed.rules) :
    TogglesTo parsedFiles id { file, id } := by
  obtain rfl := single_file h hparsed
  refine ⟨?_, parsed, hparsed, hid⟩
  rw [resolveRuleRef, if_pos h]

private theorem togglesTo_qualified (hmulti : multiFile parsedFiles) {file : Nat}
    {parsed : ParsedBenchmarkFile} {id : Bytes} (hparsed : parsedFiles[file]? = some parsed)
    (h : Distinguished parsedFiles file parsed) (hid : id ∈ parsed.rules) :
    TogglesTo parsedFiles (baseName parsed.file.val ++ [colon] ++ id) { file, id } :=
  ⟨resolveRuleRef_qualified hmulti hparsed h id, parsed, hparsed, hid⟩

private theorem distinguished_of_nodup (h : (parsedFiles.map fun parsed => baseName parsed.file.val).Nodup)
    (hcolon : ∀ other ∈ parsedFiles, colon ∉ baseName other.file.val) {file : Nat}
    {parsed : ParsedBenchmarkFile} (hparsed : parsedFiles[file]? = some parsed) :
    Distinguished parsedFiles file parsed := by
  refine ⟨hcolon parsed (List.mem_of_getElem? hparsed), fun other otherParsed hother heq => ?_⟩
  have hlt : other < (parsedFiles.map fun parsed => baseName parsed.file.val).length := by
    rw [List.length_map]
    exact (List.getElem?_eq_some_iff.mp hother).1
  refine (List.getElem?_inj hlt h).mp ?_
  rw [List.getElem?_map, List.getElem?_map, hother, hparsed, Option.map_some, Option.map_some, heq]

/-- An override's selector and the toggle's reference in it name the same rule: always where there is
one file, and where there are several if the base name of the file is its own. -/
theorem selectors_agree (parsedFiles : List ParsedBenchmarkFile) :
    (∀ (ref name : Bytes) (rule : ResolvedRuleRef) (parsed : ParsedBenchmarkFile),
      parsedFiles[rule.file]? = some parsed →
      (multiFile parsedFiles → Distinguished parsedFiles rule.file parsed) →
      Selects parsedFiles (ref ++ [dot] ++ name) = .ok { file := rule.file, id := rule.id, name } →
        TogglesTo parsedFiles ref rule) ∧
    (∀ (ref name : Bytes) (rule : ResolvedRuleRef), TogglesTo parsedFiles ref rule →
      Declares parsedFiles { file := rule.file, id := rule.id, name } →
        Selects parsedFiles (ref ++ [dot] ++ name) = .ok { file := rule.file, id := rule.id, name } ∨
          Selects parsedFiles (ref ++ [dot] ++ name) = .error (ambiguousSelector (ref ++ [dot] ++ name))) ∧
    (∀ (file : Nat) (parsed : ParsedBenchmarkFile) (id : Bytes), parsedFiles[file]? = some parsed →
      id ∈ parsed.rules →
        (¬ multiFile parsedFiles → TogglesTo parsedFiles id { file, id }) ∧
        (multiFile parsedFiles → (parsedFiles.map fun parsed => baseName parsed.file.val).Nodup →
          (∀ other ∈ parsedFiles, colon ∉ baseName other.file.val) →
          TogglesTo parsedFiles (baseName parsed.file.val ++ [colon] ++ id) { file, id })) := by
  refine ⟨?_, ?_, ?_⟩
  · intro ref name rule parsed hparsed hdistinguished h
    obtain ⟨⟨parsed', metadata, hparsed', hmetadata, -⟩, parsed'', hparsed'', hselector⟩ := selects_ok h
    obtain rfl : parsed' = parsed := Option.some.inj (hparsed'.symm.trans hparsed)
    obtain rfl : parsed'' = parsed' := Option.some.inj (hparsed''.symm.trans hparsed)
    have hid : rule.id ∈ parsed''.rules := by
      rw [parsed''.sameIds, Std.ExtTreeMap.mem_iff_isSome_getElem?, hmetadata]
      rfl
    obtain rfl : ref = qualifier parsedFiles parsed'' ++ rule.id :=
      List.append_cancel_right (List.append_cancel_right hselector)
    by_cases hmulti : multiFile parsedFiles
    · rw [qualifier, if_pos hmulti]
      exact togglesTo_qualified hmulti hparsed (hdistinguished hmulti) hid
    · rw [qualifier, if_neg hmulti, List.nil_append]
      exact togglesTo_single hmulti hparsed hid
  · rintro ref name rule ⟨hresolve, parsed, hparsed, hid⟩ hdeclares
    refine selects_of_declared (mem_parameterSelectors.mpr ⟨hdeclares, parsed, hparsed, ?_⟩)
    rw [resolveRuleRef_ok hparsed hresolve]
  · intro file parsed id hparsed hid
    refine ⟨fun hsingle => togglesTo_single hsingle hparsed hid, fun hmulti hnodup hcolon => ?_⟩
    exact togglesTo_qualified hmulti hparsed (distinguished_of_nodup hnodup hcolon hparsed) hid

/-- A definition at `path` with one rule, which declares a parameter `p`. -/
private def oneRule (path : CString) (id : Bytes) : ParsedBenchmarkFile where
  file := path
  name := utf8 "example"
  version := { major := [0x31], minor := [0x30], patch := [0x30], valid := by decide }
  rules := (∅ : ByteMap PlanRuleMode).insert id {}
  parameterMetadata := (∅ : ByteMap (ByteMap ParameterMetadata)).insert id
    ((∅ : ByteMap ParameterMetadata).insert (utf8 "p") { defaultValue := [], type := utf8 "string" })
  sameIds other := by rw [Std.ExtTreeMap.mem_insert, Std.ExtTreeMap.mem_insert]; simp

private theorem fileX_nulFree : NulFree (utf8 "/etc/x.json") := by decide

private def fileX : CString := ⟨utf8 "/etc/x.json", fileX_nulFree⟩
private def fileY : CString := ⟨utf8 "/etc/y.json", by decide⟩
private def otherX : CString := ⟨utf8 "/opt/x.json", by decide⟩

private theorem oneRule_has (path : CString) (id : Bytes) : id ∈ (oneRule path id).rules := by
  simp [oneRule]

/-- Where there is one file, its base name is no part of a reference; and where two files share
theirs, an override finds the rule that a toggle calls ambiguous. -/
theorem selectors_disagree :
    ¬ SelectorsAgree [oneRule fileX (utf8 "r")] ∧
      ¬ SelectorsAgree [oneRule fileX (utf8 "r"), oneRule otherX (utf8 "s")] := by
  constructor
  · rintro ⟨-, -, h⟩
    have hnodup : ([oneRule fileX (utf8 "r")].map fun parsed => baseName parsed.file.val).Nodup := by simp
    obtain ⟨hresolve, -⟩ := h hnodup 0 (oneRule fileX (utf8 "r")) (utf8 "r") rfl (oneRule_has fileX _)
    cases hresolve
  · rintro ⟨h, -, -⟩
    obtain ⟨hresolve, -⟩ := h (utf8 "x.json:r") (utf8 "p") { file := 0, id := utf8 "r" } (by rfl)
    cases hresolve

/-- The rule of either of two files, by its override's selector and by its base name. -/
theorem selectors_agree_two_files :
    let parsedFiles := [oneRule fileX (utf8 "r"), oneRule fileY (utf8 "r")]
    TogglesTo parsedFiles (utf8 "x.json:r") { file := 0, id := utf8 "r" } ∧
      TogglesTo parsedFiles (utf8 "y.json:r") { file := 1, id := utf8 "r" } ∧
      (Selects parsedFiles (utf8 "y.json:r.p") = .ok { file := 1, id := utf8 "r", name := utf8 "p" } ∨
        Selects parsedFiles (utf8 "y.json:r.p") = .error (ambiguousSelector (utf8 "y.json:r.p"))) := by
  intro parsedFiles
  have hX : parsedFiles[0]? = some (oneRule fileX (utf8 "r")) := rfl
  have hY : parsedFiles[1]? = some (oneRule fileY (utf8 "r")) := rfl
  have hmulti : multiFile parsedFiles = true := rfl
  have hnodup : (parsedFiles.map fun parsed => baseName parsed.file.val).Nodup := by decide
  have hcolon : ∀ other ∈ parsedFiles, colon ∉ baseName other.file.val := by
    simp only [parsedFiles, List.forall_mem_cons, List.not_mem_nil, false_implies, implies_true, and_true]
    decide
  have hqualified := ((selectors_agree parsedFiles).2.2 1 _ (utf8 "r") hY (oneRule_has fileY _)).2
    hmulti hnodup hcolon
  have hdeclares : Declares parsedFiles { file := 1, id := utf8 "r", name := utf8 "p" } :=
    ⟨_, _, hY, Std.ExtTreeMap.getElem?_insert_self, by simp⟩
  refine ⟨?_, hqualified, ?_⟩
  · exact (selectors_agree parsedFiles).1 (utf8 "x.json:r") (utf8 "p") { file := 0, id := utf8 "r" }
      _ hX (fun _ => distinguished_of_nodup hnodup hcolon hX) (by rfl)
  · exact (selectors_agree parsedFiles).2.1 (utf8 "y.json:r") (utf8 "p") _ hqualified hdeclares

end Kompli.Cli
