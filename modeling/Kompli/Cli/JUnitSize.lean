import Kompli.Cli.JUnitCases
import Kompli.Cli.XmlOutput
import Kompli.Foundation.Budget

/-! The size of a report against what is charged for it. -/
namespace Kompli.Cli
open BenchmarkDefinition Parson Foundation

section UnderConstruction

/-- What there is in the document when the code that adds to it has ended, where no limit stops it, and whether it has
ended without an error. -/
abbrev Built := List XmlNode × Bool

def Built.andThen (first second : Built) : Built := if first.2 then (first.1 ++ second.1, second.2) else first

def inOrder {α : Type} (built : α → Built) : List α → Built
  | [] => ([], true)
  | a :: as => (built a).andThen (inOrder built as)

/-- An element with what is in it, whose attributes are added first. -/
def elementBuilt (name : Bytes) (attributes : List (Bytes × Bytes)) (inside : Built) : Built :=
  let valid := attributes.takeWhile fun pair => hasValidXmlCharacters pair.2
  if valid = attributes then ([.element name attributes inside.1], inside.2) else ([.element name valid []], false)

def tagBuilt (tag : JsonValue) : Built :=
  match readTag tag with
  | .error _ => ([], false)
  | .ok value => elementBuilt (utf8 "tag") [(utf8 "value", value)] ([], true)

def tagsBuilt (rule : Members) : Built :=
  match JsonValue.getValue rule (utf8 "tags") with
  | none => ([], true)
  | some (.array []) => ([], true)
  | some (.array tags) => elementBuilt (utf8 "tags") [] (inOrder tagBuilt tags)
  | some _ => ([], false)

/-- What is written to the stream of a body. -/
def bodyText (num : NumberFormat) (rule : Members) : Bytes :=
  utf8 "Rule: " ++ stringOrEmpty rule (utf8 "ruleName") ++ utf8 "\n\nParameters:\n" ++
    ((getObject rule (utf8 "parameters")).getD []).flatMap (parameterLine num) ++ utf8 "\nIndicators:\n" ++
    appendIndicators maxIndicatorDepth ((getArray rule (utf8 "indicators")).getD [])

/-- A text counts as being added also where it is refused for its characters. -/
def textBuilt (value : Bytes) : Built :=
  ([.pcdata (withoutControls value)], hasValidXmlCharacters (withoutControls value))

def verdictBuilt (num : NumberFormat) (rule : Members) (status : Bytes) : Built :=
  let skipped (message : Bytes) :=
    elementBuilt (utf8 "skipped") [(utf8 "message", message)] (textBuilt (bodyText num rule))
  if status = utf8 "NonCompliant" then
    elementBuilt (utf8 "failure") [(utf8 "message", utf8 "Rule is non-compliant"), (utf8 "type", utf8 "NonCompliant")]
      (textBuilt (bodyText num rule))
  else if status = utf8 "NotApplicable" then skipped (utf8 "Rule is not applicable")
  else if status = utf8 "Skipped" then skipped (utf8 "Rule was skipped")
  else ([], true)

def caseBuilt (num : NumberFormat) : JsonValue → Built
  | .object rule =>
    match readTestcase rule with
    | .error _ => ([], false)
    | .ok case =>
      elementBuilt (utf8 "testcase") [(utf8 "classname", case.classname), (utf8 "name", case.title)]
        ((tagsBuilt rule).andThen (verdictBuilt num rule case.status))
  | _ => ([], false)

def countsOf : Counts → List JsonValue → Counts
  | counts, .object rule :: rules =>
    match readTestcase rule with
    | .error _ => counts
    | .ok case => countsOf (counts.add case.status) rules
  | counts, _ => counts

/-- The attributes with the counts are added last. -/
def suiteBuilt (num : NumberFormat) (rules : List JsonValue) (suiteName : Bytes) : Built :=
  let cases := inOrder (caseBuilt num) rules
  let counts := countsOf {} rules
  if ¬ hasValidXmlCharacters suiteName then ([.element (utf8 "testsuite") [] []], false)
  else if cases.2 then
    elementBuilt (utf8 "testsuite") [(utf8 "name", suiteName), (utf8 "tests", decimal rules.length),
      (utf8 "failures", decimal counts.failures), (utf8 "skipped", decimal counts.skipped)] cases
  else ([.element (utf8 "testsuite") [(utf8 "name", suiteName)] cases.1], false)

/-- The report that is being built: all of it, or up to what is wrong with the result. -/
def reportBuilt (num : NumberFormat) (rules : List JsonValue) (suiteName : Bytes) : XmlNode :=
  .element (utf8 "testsuites") [] (suiteBuilt num rules suiteName).1

end UnderConstruction

section Errors

/-- It does not fail for the size of the output. -/
def NotTooBig {α : Type} (r : Except Error α) : Prop := ∀ e, r = .error e → e.code ≠ EFBIG

theorem NotTooBig.ok {α : Type} (a : α) : NotTooBig (.ok a) := fun e h => by cases h

theorem NotTooBig.error {α : Type} {e : Error} (h : e.code ≠ EFBIG) : NotTooBig (.error e : Except Error α) :=
  fun e' heq => by
    cases heq
    exact h

theorem NotTooBig.bind {α β : Type} {r : Except Error α} {f : α → Except Error β} (hr : NotTooBig r)
    (hf : ∀ a, NotTooBig (f a)) : NotTooBig (r >>= f) := by
  cases r with
  | ok a => exact hf a
  | error e => exact .error (hr e rfl)

theorem NotTooBig.mapM {α β : Type} {f : α → Except Error β} (hf : ∀ a, NotTooBig (f a)) (as : List α) :
    NotTooBig (as.mapM f) := by
  induction as with
  | nil => exact .ok []
  | cons a as ih =>
    rw [List.mapM_cons]
    exact (hf a).bind fun b => ih.bind fun bs => .ok _

private theorem einval : EINVAL ≠ EFBIG := by decide

theorem readTag_notTooBig (tag : JsonValue) : NotTooBig (readTag tag) := by
  rw [readTag.eq_def]
  split
  · simp only
    split_ifs
    · exact .error (by decide)
    · exact .error einval
    · exact .error einval
    · exact .ok _
  · exact .error einval

theorem readTestcase_notTooBig (rule : Members) : NotTooBig (readTestcase rule) := by
  have hid : NotTooBig (readId rule) := by
    rw [readId]
    split
    · split_ifs
      · exact .error einval
      · exact .error einval
      · exact .ok _
    · exact .error einval
  have hname (name : Bytes) : NotTooBig (readTitle.checkName name) := by
    rw [readTitle.checkName]
    split_ifs
    · exact .error einval
    · exact .ok _
  have htitle : NotTooBig (readTitle rule) := by
    rw [readTitle]
    split
    · exact hname _
    · exact .error einval
    · exact hname _
    · exact .error einval
  have hstatus : NotTooBig (readStatus rule) := by
    rw [readStatus]
    split
    · split_ifs
      · exact .error einval
      · exact .ok _
    · exact .error einval
  have hcomponent (benchmark : Members) (key : Bytes) : NotTooBig (readComponent benchmark key) := by
    rw [readComponent]
    split
    · split_ifs
      · exact .error einval
      · exact .ok _
    · exact .error einval
  have hclassname (id : Bytes) : NotTooBig (testcaseClassname rule id) := by
    rw [testcaseClassname]
    split
    · exact .ok _
    · exact (NotTooBig.mapM (hcomponent _) benchmarkKeys).bind fun components => .ok _
    · exact .error einval
  refine hid.bind fun id => htitle.bind fun title => hstatus.bind fun status => (hclassname id).bind fun classname => ?_
  split
  · exact .error einval
  · exact .ok _

theorem readResult_notTooBig (num : NumberFormat) (canonicalJson : Bytes) : NotTooBig (readResult num canonicalJson) := by
  rw [readResult]
  split
  · exact .error einval
  · split
    · exact .error einval
    · split
      · exact .error einval
      · split
        · exact .error einval
        · exact .ok _
    · exact .error einval

end Errors

section Charged

/-- What is charged by code that makes nodes is what is charged for the nodes. -/
def Builds (m : XmlBuild (List XmlNode)) (built : Built) : Prop :=
  Meters maxJUnitBytes resultTooBig m (charges built.1) (if built.2 then some built.1 else none)

theorem charge_meters (bytes : Nat) : Meters maxJUnitBytes resultTooBig (charge bytes) bytes (some ()) := .spend bytes

theorem addElement_meters (name : Bytes) : Meters maxJUnitBytes resultTooBig (addElement name) (3 + name.length) (some ()) :=
  charge_meters _

theorem addAttribute_meters {value : Bytes} (name : Bytes) (h : hasValidXmlCharacters value = true) :
    Meters maxJUnitBytes resultTooBig (addAttribute name value) (4 + name.length + value.length) (some (name, value)) := by
  rw [addAttribute, if_neg (by simp [h])]
  exact ((charge_meters (4 + name.length)).bind ((charge_meters value.length).bind (.pure (name, value)))).of_eq (by omega) rfl

theorem invalidCharacters_ne : invalidCharacters ≠ resultTooBig := by
  intro h
  cases congrArg Error.code h

theorem addAttribute_invalid {α : Type} {name value : Bytes} {f : Bytes × Bytes → XmlBuild α} (cost : Nat)
    {result : Option α} (h : hasValidXmlCharacters value = false) :
    Meters maxJUnitBytes resultTooBig (addAttribute name value >>= f) cost result := by
  rw [addAttribute, if_pos (by simp [h])]
  exact Meters.bind_none (.throw invalidCharacters_ne)

theorem ofResult_meters {α β : Type} {r : Except Error α} {f : α → XmlBuild β} {cost : Nat} {result : Option β}
    (hr : NotTooBig r) (hf : ∀ a, r = .ok a → Meters maxJUnitBytes resultTooBig (f a) cost result) :
    Meters maxJUnitBytes resultTooBig (ofResult r >>= f) cost result := by
  cases r with
  | ok a => exact hf a rfl
  | error e =>
    refine Meters.bind_none (.throw fun heq => hr e rfl ?_)
    rw [heq]
    rfl

theorem addText_meters {body : Bytes} (h : hasValidXmlCharacters (withoutControls body) = true) :
    Meters maxJUnitBytes resultTooBig (addText body) (charges (textBuilt body).1) (some (.pcdata (withoutControls body))) := by
  rw [addText, if_neg (not_not.mpr h)]
  exact ((charge_meters _).bind (Meters.pure (XmlNode.pcdata (withoutControls body)))).of_eq rfl rfl

theorem addText_builds {body : Bytes} {f : XmlNode → XmlBuild (List XmlNode)} {cost : Nat} {result : Option (List XmlNode)}
    (hf : Meters maxJUnitBytes resultTooBig (f (.pcdata (withoutControls body))) cost result) :
    Meters maxJUnitBytes resultTooBig (addText body >>= f) (charges (textBuilt body).1 + cost)
      (if (textBuilt body).2 then result else none) := by
  by_cases hvalid : hasValidXmlCharacters (withoutControls body) = true
  · exact ((addText_meters hvalid).bind hf).of_eq rfl (if_pos hvalid).symm
  · rw [addText, if_pos hvalid]
    exact Meters.bind_none (.throw invalidCharacters_ne)

@[simp] theorem charges_nil : charges [] = 0 := rfl

@[simp] theorem charges_element (name : Bytes) (attributes : List (Bytes × Bytes)) (children : List XmlNode) :
    charges [.element name attributes children] = 3 + name.length + attributeCharges attributes + charges children := by
  rw [charges, charges, nodeCharges, Nat.add_zero]

@[simp] theorem attributeCharges_nil : attributeCharges [] = 0 := rfl

@[simp] theorem attributeCharges_cons (pair : Bytes × Bytes) (attributes : List (Bytes × Bytes)) :
    attributeCharges (pair :: attributes) = 4 + pair.1.length + pair.2.length + attributeCharges attributes := by
  rw [attributeCharges, List.map_cons, List.sum_cons]
  rfl

theorem elementBuilt_valid {name : Bytes} {attributes : List (Bytes × Bytes)} {inside : Built}
    (h : ∀ pair ∈ attributes, hasValidXmlCharacters pair.2 = true) :
    elementBuilt name attributes inside = ([.element name attributes inside.1], inside.2) := by
  rw [elementBuilt]
  exact if_pos (List.takeWhile_eq_self_iff.mpr h)

theorem buildBody_eq (num : NumberFormat) (rule : Members) :
    buildBody num rule =
      if maxJUnitBytes < (bodyText num rule).length then .error resultTooBig else .ok (bodyText num rule) := rfl

/-- A body that does not fit the limit would make the element that it is for too long. -/
theorem body_meters {num : NumberFormat} {rule : Members} {f : Bytes → XmlBuild (List XmlNode)} {cost : Nat}
    {result : Option (List XmlNode)} (hcost : (bodyText num rule).length ≤ cost)
    (hf : Meters maxJUnitBytes resultTooBig (f (bodyText num rule)) cost result) :
    Meters maxJUnitBytes resultTooBig (ofResult (buildBody num rule) >>= f) cost result := by
  rw [buildBody_eq]
  split_ifs with hsize
  · exact Meters.bind_none (.throw_full (by omega))
  · exact hf

private theorem length_le_text (body : Bytes) : body.length = charges (textBuilt body).1 := by
  simp [textBuilt, charges, nodeCharges, withoutControls]

theorem buildFailure_builds (num : NumberFormat) (rule : Members) :
    Builds (buildFailure num rule) (elementBuilt (utf8 "failure")
      [(utf8 "message", utf8 "Rule is non-compliant"), (utf8 "type", utf8 "NonCompliant")]
      (textBuilt (bodyText num rule))) := by
  have hmessage : hasValidXmlCharacters (utf8 "Rule is non-compliant") = true := by decide +kernel
  have htype : hasValidXmlCharacters (utf8 "NonCompliant") = true := by decide +kernel
  have hlength := length_le_text (bodyText num rule)
  rw [Builds, elementBuilt_valid (by simp [hmessage, htype])]
  refine body_meters (by simp; omega) ?_
  refine ((addElement_meters _).bind ((addAttribute_meters _ hmessage).bind ((addAttribute_meters _ htype).bind
    (addText_builds (.pure _))))).of_eq (by simp; omega) ?_
  cases htext : (textBuilt (bodyText num rule)).2 <;> rfl

theorem buildSkipped_builds (num : NumberFormat) (rule : Members) {message : Bytes}
    (h : hasValidXmlCharacters message = true) :
    Builds (buildSkipped num rule message) (elementBuilt (utf8 "skipped") [(utf8 "message", message)]
      (textBuilt (bodyText num rule))) := by
  have hlength := length_le_text (bodyText num rule)
  rw [Builds, elementBuilt_valid (by simp [h])]
  refine body_meters (by simp; omega) ?_
  refine ((addElement_meters _).bind ((addAttribute_meters _ h).bind (addText_builds (.pure _)))).of_eq
    (by simp; omega) ?_
  cases htext : (textBuilt (bodyText num rule)).2 <;> rfl

theorem buildVerdict_builds (num : NumberFormat) (rule : Members) (status : Bytes) :
    Builds (buildVerdict num rule status) (verdictBuilt num rule status) := by
  have hnotApplicable : hasValidXmlCharacters (utf8 "Rule is not applicable") = true := by decide +kernel
  have hskipped : hasValidXmlCharacters (utf8 "Rule was skipped") = true := by decide +kernel
  rw [buildVerdict, verdictBuilt]
  split_ifs
  · exact buildFailure_builds num rule
  · exact buildSkipped_builds num rule hnotApplicable
  · exact buildSkipped_builds num rule hskipped
  · exact .pure []

/-- What returns one node makes that node. -/
structure BuildsNode (m : XmlBuild XmlNode) (built : Built) : Prop where
  meters : Meters maxJUnitBytes resultTooBig m (charges built.1) (if built.2 then built.1.head? else none)
  single : built.2 = true → ∃ node, built.1 = [node]

theorem addTag_builds (tag : JsonValue) : BuildsNode (addTag tag) (tagBuilt tag) := by
  rw [addTag, tagBuilt]
  cases hread : readTag tag with
  | error e =>
    have hne := readTag_notTooBig tag
    rw [hread] at hne
    exact ⟨ofResult_meters hne fun a h => (by cases h), fun h => (by cases h)⟩
  | ok value =>
    by_cases hvalid : hasValidXmlCharacters value = true
    · have hbuilt : elementBuilt (utf8 "tag") [(utf8 "value", value)] ([], true) =
          ([.element (utf8 "tag") [(utf8 "value", value)] []], true) := elementBuilt_valid (by simpa using hvalid)
      simp only [hbuilt]
      refine ⟨ofResult_meters (.ok value) fun a h => ?_, fun _ => ⟨_, rfl⟩⟩
      cases h
      refine Meters.of_eq ((addElement_meters _).bind ((addAttribute_meters _ hvalid).map _)) ?_ rfl
      simp only [charges_element, attributeCharges_cons, attributeCharges_nil, charges_nil]
      omega
    · have hbuilt : elementBuilt (utf8 "tag") [(utf8 "value", value)] ([], true) =
          ([.element (utf8 "tag") [] []], false) := by simp [elementBuilt, hvalid]
      simp only [hbuilt]
      refine ⟨ofResult_meters (.ok value) fun a h => ?_, fun h => (by cases h)⟩
      cases h
      exact ((addElement_meters _).bind (addAttribute_invalid 0 (by simpa using hvalid))).of_eq (by simp) rfl

/-- A loop that makes a node in each step. -/
theorem mapM_builds {α : Type} {m : α → XmlBuild XmlNode} {built : α → Built} (h : ∀ a, BuildsNode (m a) (built a))
    (as : List α) : Builds (as.mapM m) (inOrder built as) := by
  induction as with
  | nil => exact .pure []
  | cons a as ih =>
    rw [List.mapM_cons, inOrder, Built.andThen]
    have hfirst := (h a).meters
    cases hdone : (built a).2 with
    | false =>
      rw [hdone] at hfirst
      rw [if_neg Bool.false_ne_true, Builds, hdone]
      exact hfirst.bind_none
    | true =>
      obtain ⟨node, hnode⟩ := (h a).single hdone
      rw [hdone, hnode] at hfirst
      rw [if_pos rfl, Builds, hnode, charges_append]
      refine Meters.bind hfirst (Meters.of_eq (ih.map _) rfl ?_)
      cases (inOrder built as).2 <;> rfl

theorem buildTags_builds (rule : Members) : Builds (buildTags rule) (tagsBuilt rule) := by
  rw [buildTags, tagsBuilt]
  cases hvalue : JsonValue.getValue rule (utf8 "tags") with
  | none => exact .pure []
  | some value =>
    cases value with
    | array tags =>
      cases tags with
      | nil => exact .pure []
      | cons tag tags =>
        have htags := mapM_builds addTag_builds (tag :: tags)
        have hbuilt : elementBuilt (utf8 "tags") [] (inOrder tagBuilt (tag :: tags)) =
            ([.element (utf8 "tags") [] (inOrder tagBuilt (tag :: tags)).1], (inOrder tagBuilt (tag :: tags)).2) :=
          elementBuilt_valid (by simp)
        simp only [hbuilt]
        rw [Builds] at htags ⊢
        refine Meters.of_eq ((addElement_meters _).bind (htags.map _)) ?_ ?_
        · simp only [charges_element, attributeCharges_nil]
          omega
        · cases (inOrder tagBuilt (tag :: tags)).2 <;> rfl
    | _ => exact .throw fun h => (by cases congrArg Error.code h)

/-- What is made after something else, and goes on with both. -/
theorem Builds.andThen {α : Type} {first second : XmlBuild (List XmlNode)} {built built' : Built} (h : Builds first built)
    (h' : Builds second built') (g : List XmlNode → α) :
    Meters maxJUnitBytes resultTooBig (first >>= fun nodes => second >>= fun nodes' => pure (g (nodes ++ nodes')))
      (charges (built.andThen built').1)
      (if (built.andThen built').2 then some (g (built.andThen built').1) else none) := by
  rw [Builds] at h h'
  rw [Built.andThen]
  cases hdone : built.2 with
  | false =>
    rw [hdone] at h
    rw [if_neg Bool.false_ne_true, hdone]
    exact h.bind_none
  | true =>
    rw [hdone] at h
    rw [if_pos rfl, charges_append]
    refine Meters.bind h (Meters.of_eq (h'.map _) rfl ?_)
    cases built'.2 <;> rfl

/-- What a step of the loop over the rules adds, and what it counts. -/
def caseResult (num : NumberFormat) (rule : Members) : Option (XmlNode × Bytes) :=
  match readTestcase rule, caseBuilt num (.object rule) with
  | .ok case, ([node], true) => some (node, case.status)
  | _, _ => none

theorem addTestcase_meters (num : NumberFormat) (rule : Members) :
    Meters maxJUnitBytes resultTooBig (addTestcase num rule) (charges (caseBuilt num (.object rule)).1)
      (caseResult num rule) := by
  rw [addTestcase, caseResult, caseBuilt]
  have hne := readTestcase_notTooBig rule
  cases hread : readTestcase rule with
  | error e =>
    rw [hread] at hne
    exact ofResult_meters hne fun a h => (by cases h)
  | ok case =>
    refine ofResult_meters (.ok case) fun a h => ?_
    cases h
    let inside := (tagsBuilt rule).andThen (verdictBuilt num rule case.status)
    by_cases hclassname : hasValidXmlCharacters case.classname = true
    · by_cases hname : hasValidXmlCharacters case.title = true
      · have hbuilt := @elementBuilt_valid (utf8 "testcase")
          [(utf8 "classname", case.classname), (utf8 "name", case.title)] inside (by simp [hclassname, hname])
        simp only [inside] at hbuilt
        simp only [hbuilt]
        refine Meters.of_eq ((addElement_meters _).bind ((addAttribute_meters _ hclassname).bind
          ((addAttribute_meters _ hname).bind ((buildTags_builds rule).andThen (buildVerdict_builds num rule case.status)
            fun children => (_, case.status))))) ?_ ?_
        · simp only [charges_element, attributeCharges_cons, attributeCharges_nil]
          omega
        · cases ((tagsBuilt rule).andThen (verdictBuilt num rule case.status)).2 <;> rfl
      · have hbuilt : elementBuilt (utf8 "testcase") [(utf8 "classname", case.classname), (utf8 "name", case.title)] inside =
            ([.element (utf8 "testcase") [(utf8 "classname", case.classname)] []], false) := by
          simp [elementBuilt, hclassname, hname]
        simp only [inside] at hbuilt
        simp only [hbuilt]
        refine Meters.of_eq ((addElement_meters _).bind ((addAttribute_meters _ hclassname).bind
          (addAttribute_invalid 0 (by simpa using hname)))) ?_ rfl
        simp only [charges_element, attributeCharges_cons, attributeCharges_nil, charges_nil]
        omega
    · have hbuilt : elementBuilt (utf8 "testcase") [(utf8 "classname", case.classname), (utf8 "name", case.title)] inside =
          ([.element (utf8 "testcase") [] []], false) := by
        simp [elementBuilt, hclassname]
      simp only [inside] at hbuilt
      simp only [hbuilt]
      refine Meters.of_eq ((addElement_meters _).bind (addAttribute_invalid 0 (by simpa using hclassname))) ?_ rfl
      simp

private theorem elementBuilt_single (name : Bytes) (attributes : List (Bytes × Bytes)) (inside : Built) :
    ∃ node, (elementBuilt name attributes inside).1 = [node] := by
  rw [elementBuilt]
  split_ifs
  · exact ⟨_, rfl⟩
  · exact ⟨_, rfl⟩

private theorem caseBuilt_done {num : NumberFormat} {rule : Members} (h : (caseBuilt num (.object rule)).2 = true) :
    ∃ case node, readTestcase rule = .ok case ∧ caseBuilt num (.object rule) = ([node], true) ∧
      caseResult num rule = some (node, case.status) := by
  cases hread : readTestcase rule with
  | error e =>
    simp only [caseBuilt, hread] at h
    cases h
  | ok case =>
    obtain ⟨node, hnode⟩ := elementBuilt_single (utf8 "testcase")
      [(utf8 "classname", case.classname), (utf8 "name", case.title)]
      ((tagsBuilt rule).andThen (verdictBuilt num rule case.status))
    have hbuilt : caseBuilt num (.object rule) = ([node], true) := by
      refine Prod.ext ?_ h
      simp only [caseBuilt, hread, hnode]
    exact ⟨case, node, rfl, hbuilt, by simp only [caseResult, hread, hbuilt]⟩

private theorem caseBuilt_stopped {num : NumberFormat} {rule : Members} (h : (caseBuilt num (.object rule)).2 = false) :
    caseResult num rule = none := by
  rw [caseResult]
  split
  · next case node hread hbuilt =>
    rw [hbuilt] at h
    cases h
  · rfl

theorem addTestcases_meters (num : NumberFormat) (counts : Counts) (rules : List JsonValue) :
    Meters maxJUnitBytes resultTooBig (addTestcases num counts rules) (charges (inOrder (caseBuilt num) rules).1)
      (if (inOrder (caseBuilt num) rules).2 then some ((inOrder (caseBuilt num) rules).1, countsOf counts rules)
      else none) := by
  induction rules generalizing counts with
  | nil => exact .pure ([], counts)
  | cons value rules ih =>
    cases value with
    | object rule =>
      have hcase := addTestcase_meters num rule
      rw [addTestcases, inOrder, Built.andThen]
      cases hdone : (caseBuilt num (.object rule)).2 with
      | false =>
        rw [caseBuilt_stopped hdone] at hcase
        rw [if_neg Bool.false_ne_true, hdone]
        exact hcase.bind_none
      | true =>
        obtain ⟨case, node, hread, hbuilt, hresult⟩ := caseBuilt_done hdone
        rw [hresult] at hcase
        rw [if_pos rfl, charges_append]
        refine Meters.bind hcase (Meters.of_eq ((ih (counts.add case.status)).map _) rfl ?_)
        rw [hbuilt, countsOf, hread]
        cases (inOrder (caseBuilt num) rules).2 <;> rfl
    | _ => exact .throw fun h => (by cases congrArg Error.code h)

/-- Numbers are characters of XML. -/
private theorem decimal_valid (n : Nat) : hasValidXmlCharacters (decimal n) = true := by
  have hdigits := (Decimal.print_canonical n).digits
  rw [decimal]
  generalize utf8 (toString n) = text at hdigits
  induction text with
  | nil => rfl
  | cons c text ih =>
    rw [Decimal.digits_cons] at hdigits
    obtain ⟨hascii, hchar⟩ := forall_byte (P := fun c => 0x30 ≤ c ∧ c ≤ 0x39 → c < 0x80 ∧ isXmlChar 1 c.toNat = true)
      (by decide +kernel) c hdigits.1
    rw [hasValidXmlCharacters.eq_def]
    simp only [if_pos hascii, hchar, ih hdigits.2, Bool.and_true]

theorem buildReport_meters (num : NumberFormat) (rules : List JsonValue) (suiteName : Bytes) :
    Meters maxJUnitBytes resultTooBig (buildReport num rules suiteName) (charges [reportBuilt num rules suiteName])
      (if (suiteBuilt num rules suiteName).2 then some (reportBuilt num rules suiteName) else none) := by
  have hcases := addTestcases_meters num {} rules
  rw [buildReport, reportBuilt, charges_element, attributeCharges_nil, suiteBuilt]
  by_cases hname : hasValidXmlCharacters suiteName = true
  · rw [if_neg (not_not.mpr hname)]
    cases hdone : (inOrder (caseBuilt num) rules).2 with
    | false =>
      rw [hdone] at hcases
      rw [if_neg Bool.false_ne_true]
      refine Meters.of_eq ((addElement_meters _).bind ((addElement_meters _).bind ((addAttribute_meters _ hname).bind
        hcases.bind_none))) ?_ rfl
      simp only [charges_element, attributeCharges_cons, attributeCharges_nil]
      omega
    | true =>
      rw [hdone] at hcases
      rw [if_pos rfl, elementBuilt_valid (by simp [hname, decimal_valid])]
      refine Meters.of_eq ((addElement_meters _).bind ((addElement_meters _).bind ((addAttribute_meters _ hname).bind
        (hcases.bind ((addAttribute_meters _ (decimal_valid _)).bind ((addAttribute_meters _ (decimal_valid _)).bind
          ((addAttribute_meters _ (decimal_valid _)).map _))))))) ?_ ?_
      · simp only [charges_element, attributeCharges_cons, attributeCharges_nil]
        omega
      · simp only [hdone, if_true, Option.map_some]
  · rw [if_pos hname]
    refine Meters.of_eq ((addElement_meters _).bind ((addElement_meters _).bind
      (addAttribute_invalid 0 (by simpa using hname)))) ?_ rfl
    simp only [charges_element, attributeCharges_nil, charges_nil]
    omega

end Charged

section Rendered

/-- The report as it is saved, piece by piece, through the bounded writer. -/
def saveReport (num : NumberFormat) (format : RawFormat) (rules : List JsonValue) (suiteName : Bytes) :
    Except Error Bytes :=
  match buildReport num rules suiteName 0 with
  | .error e _ => .error e
  | .ok document _ => writeAll (format.pieces (format.save document))

theorem saveReport_eq (num : NumberFormat) (format : RawFormat) :
    saveReport num format = renderReport num format.save := by
  funext rules suiteName
  rw [saveReport, renderReport]
  cases buildReport num rules suiteName 0 with
  | error e used => rfl
  | ok document used => simp only [writeAll_eq, format.pieces_flatten]

/-- The stream that a body is written to holds all of it, or the body is refused. -/
theorem buildBody_eq_writeAll {num : NumberFormat} {rule : Members} {pieces : List Bytes}
    (h : pieces.flatten = bodyText num rule) : buildBody num rule = writeAll pieces := by
  rw [buildBody_eq, writeAll_eq, h]

theorem saveReport_tooBig {num : NumberFormat} {format : RawFormat} {rules : List JsonValue} {suiteName : Bytes}
    (h : saveReport num format rules suiteName = .error resultTooBig) :
    maxJUnitBytes < (format.save (reportBuilt num rules suiteName)).length := by
  have hmeters := buildReport_meters num rules suiteName
  have hcharges := charges_le_save format (reportBuilt num rules suiteName)
  rw [saveReport_eq, renderReport] at h
  split at h
  · next e used hbuild =>
    cases h
    have hfull := hmeters.full hbuild
    omega
  · next document used hbuild =>
    split_ifs at h with hsize
    obtain ⟨hvalue, -⟩ := hmeters.ok hbuild
    split_ifs at hvalue
    cases hvalue
    exact hsize

theorem saveReport_ok {num : NumberFormat} {format : RawFormat} {rules : List JsonValue} {suiteName text : Bytes}
    (h : saveReport num format rules suiteName = .ok text) :
    text.length ≤ maxJUnitBytes ∧ text = format.save (reportBuilt num rules suiteName) ∧
      ∃ attributes cases, reportBuilt num rules suiteName =
          .element (utf8 "testsuites") [] [.element (utf8 "testsuite") attributes cases] ∧
        List.Forall₂ IsCaseOf rules cases ∧ Counted rules attributes cases := by
  rw [saveReport_eq, renderReport] at h
  split at h
  · cases h
  · next document used hbuild =>
    split_ifs at h with hsize
    cases h
    obtain ⟨hvalue, -⟩ := (buildReport_meters num rules suiteName).ok hbuild
    split_ifs at hvalue
    cases hvalue
    exact ⟨by omega, rfl, buildReport_ok hbuild⟩

/-- The budget never runs over, so what is left of it never wraps; a report that is refused for its size would be longer
than the limit, and one that is returned is not, and has a test case for each rule. -/
theorem renderJUnit_bounded (num : NumberFormat) (format : RawFormat) (canonicalJson suiteName : Bytes) :
    (∀ budget : XmlBudget, budget.Reachable →
      budget.mUsed.toNat ≤ maxJUnitBytes ∧
        (kMaxJUnitBytes - budget.mUsed).toNat = maxJUnitBytes - budget.mUsed.toNat ∧
          ∀ bytes, charge bytes.toNat budget.mUsed.toNat =
            if (budget.add bytes).1 then .ok () (budget.add bytes).2.mUsed.toNat
            else .error resultTooBig (budget.add bytes).2.mUsed.toNat) ∧
      (∀ rules, leaves (buildReport num rules suiteName) 0 ≤ maxJUnitBytes) ∧
      (∀ rule pieces, pieces.flatten = bodyText num rule → buildBody num rule = writeAll pieces) ∧
      (renderJUnit num (saveReport num format) canonicalJson suiteName = .error resultTooBig →
        ∃ rules, readResult num canonicalJson = .ok rules ∧
          maxJUnitBytes < (format.save (reportBuilt num rules suiteName)).length) ∧
      ∀ text, renderJUnit num (saveReport num format) canonicalJson suiteName = .ok text →
        text.length ≤ maxJUnitBytes ∧ ∃ rules attributes cases, readResult num canonicalJson = .ok rules ∧
          text = format.save (.element (utf8 "testsuites") [] [.element (utf8 "testsuite") attributes cases]) ∧
            List.Forall₂ IsCaseOf rules cases ∧ Counted rules attributes cases := by
  refine ⟨fun budget hbudget => ⟨hbudget.le, toNat_left hbudget.le, XmlBudget.charge_eq hbudget.le⟩,
    fun rules => (buildReport_meters num rules suiteName).within (Nat.zero_le _),
    fun rule pieces => buildBody_eq_writeAll, fun h => ?_, fun text h => ?_⟩
  · cases hread : readResult num canonicalJson with
    | error e =>
      rw [renderJUnit, hread] at h
      cases h
      exact absurd rfl (readResult_notTooBig num canonicalJson _ hread)
    | ok rules =>
      rw [renderJUnit, hread] at h
      exact ⟨rules, rfl, saveReport_tooBig h⟩
  · obtain ⟨rules, hread, hsave⟩ := except_bind_ok_iff.mp h
    obtain ⟨hlength, htext, attributes, cases, hbuilt, hcases, hcounted⟩ := saveReport_ok hsave
    rw [hbuilt] at htext
    exact ⟨hlength, rules, attributes, cases, hread, htext, hcases, hcounted⟩

end Rendered

end Kompli.Cli
