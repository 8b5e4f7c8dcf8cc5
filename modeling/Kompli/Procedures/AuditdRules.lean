import Kompli.ComplianceEngine.Indicators
import Kompli.ComplianceEngine.StringTools
import Mathlib.Data.List.Infix

/-! The rules of auditd in the order it loads them, and which of them decides about a search item. The expressions are
left open. -/
namespace Kompli.AuditdRules
open StringTools
open Parson (isSpace)
open Foundation.Streams (lines)

inductive EntryKind where
  | regular
  | directory
  | other
  deriving DecidableEq

/-- An entry of the rules directory; a file that cannot be opened has no content. -/
structure Entry where
  name : Bytes
  kind : EntryKind
  content : Option Bytes

/-- What becomes of the rules directory: its entries, or why it has none, with `errno`. -/
inductive Access where
  | noDirectory (errno : Int)
  | notOpened (errno : Int)
  | opened (entries : List Entry)

def isRuleFile (entry : Entry) : Bool := entry.kind = .regular && (utf8 ".rules").isSuffixOf entry.name

/-- The rule on a line of a file, which is empty where there is none. -/
def ruleOf (line : Bytes) : Bytes := trimWhiteSpaces (stripComment line)

/-- The rule starts with `-A` and white space. -/
def prepends (rule : Bytes) : Bool := 2 < rule.length && rule.take 2 = utf8 "-A" && rule[2]?.any isSpace

def asAppended (rule : Bytes) : Bytes := rule.set 1 0x61

def loadLine (rules : List Bytes) (line : Bytes) : List Bytes :=
  let rule := ruleOf line
  if rule = [] then rules
  else if prepends rule then asAppended rule :: rules
  else rules ++ [rule]

def readRules (rules : List Bytes) (entry : Entry) : List Bytes :=
  if isRuleFile entry then
    match entry.content with
    | none => rules
    | some content => (lines content).foldl loadLine rules
  else rules

section Files

variable (strverscmp : Bytes → Bytes → Int)

def notAfter (left right : Entry) : Bool := strverscmp left.name right.name ≤ 0

def getRulesFromFilesAtPath (directory : Bytes) : Access → Except Error (List Bytes)
  | .noDirectory errno => .error { message := utf8 "Failed to access audit rules directory: " ++ directory, code := errno }
  | .notOpened errno => .error { message := utf8 "Failed to open audit rules directory: " ++ directory, code := errno }
  | .opened entries => .ok ((entries.mergeSort (notAfter strverscmp)).foldl readRules [])

end Files

/-- An expression that has to match, and its text. -/
structure RequiredOption where
  isFound : Bytes → Bool
  text : Bytes

/-- What the expressions find in a rule. A search gives the place and the length of its match, or says why it is no
expression. -/
structure Expressions where
  search : Except Bytes (Bytes → Option (Nat × Nat))
  excluded : Option (Bytes → Bool)
  suppressing : Bytes → Bool
  archVariant : Bytes → Bool
  exitVariant : Bytes → Bool

section Check

variable (expressions : Expressions) (searchItem : Bytes) (required : List RequiredOption)

def isDifferentRuleVariant (rule : Bytes) : Bool :=
  required.any fun req => !req.isFound rule &&
    ((utf8 "-F arch=").isPrefixOf req.text && expressions.archVariant rule ||
      (utf8 "-F exit=").isPrefixOf req.text && expressions.exitVariant rule)

/-- The match ends inside a word that it does not end itself. -/
def endsInside (rule : Bytes) (found : Nat × Nat) : Bool :=
  let matchEnd := found.1 + found.2
  utf8 "-S " <:+: searchItem && rule[matchEnd]?.any (!isSpace ·) &&
    (found.2 = 0 || rule[matchEnd - 1]?.any (!isSpace ·))

/-- The rule is not passed over. -/
def isRelevant (search : Bytes → Option (Nat × Nat)) (rule : Bytes) : Bool :=
  match search rule with
  | none => false
  | some found =>
    if endsInside searchItem rule found then false
    else if expressions.excluded.any (· rule) then false
    else !isDifferentRuleVariant expressions required rule

/-- A status, and what is shown for it. -/
structure Checked where
  status : Status
  indicators : List Indicator

def missing (rule : Bytes) (req : RequiredOption) : Indicator :=
  { message := utf8 "Rule '" ++ rule ++ utf8 "' matching '" ++ searchItem ++ utf8 "' is missing required option " ++ req.text
    status := .nonCompliant }

def concluded (shown : List Indicator) (message : Bytes) (status : Status) : Checked :=
  { status, indicators := shown ++ [{ message, status }] }

/-- What is missing in the rules passed so far is shown only if no rule decides. -/
def checkRules (search : Bytes → Option (Nat × Nat)) : List Bytes → List Indicator → Checked
  | [], incompleteRules => concluded incompleteRules (utf8 "Rule not found " ++ searchItem) .nonCompliant
  | rule :: rules, incompleteRules =>
    if !isRelevant expressions searchItem required search rule then checkRules search rules incompleteRules
    else if expressions.suppressing rule then
      concluded [] (utf8 "Rule '" ++ rule ++ utf8 "' suppresses auditing for '" ++ searchItem ++ utf8 "'") .nonCompliant
    else
      match required.find? (!·.isFound rule) with
      | some req => checkRules search rules (incompleteRules ++ [missing searchItem rule req])
      | none =>
        concluded [] (utf8 "Rule '" ++ rule ++ utf8 "' matching '" ++ searchItem ++
          utf8 "' found  and is properly configured") .compliant

def checkRuleInList (rules : List Bytes) : Checked :=
  match expressions.search with
  | .error what => concluded [] (utf8 "Invalid searchItem regex: " ++ what) .nonCompliant
  | .ok search => checkRules expressions searchItem required search rules []

end Check

section Load

/-- The rules that these lines of files add: the prepended ones in the opposite order, then the others. -/
def loaded (fileLines : List Bytes) : List Bytes :=
  (((fileLines.map ruleOf).filter prepends).map asAppended).reverse ++
    (fileLines.map ruleOf).filter fun rule => rule ≠ [] && !prepends rule

theorem foldl_loadLine (fileLines rules : List Bytes) : fileLines.foldl loadLine rules =
    (((fileLines.map ruleOf).filter prepends).map asAppended).reverse ++ rules ++
      (fileLines.map ruleOf).filter fun rule => rule ≠ [] && !prepends rule := by
  induction fileLines generalizing rules with
  | nil => simp
  | cons line fileLines ih =>
    rw [List.foldl_cons, ih, List.map_cons, loadLine]
    by_cases hempty : ruleOf line = []
    · rw [if_pos hempty, hempty, List.filter_cons_of_neg (by decide), List.filter_cons_of_neg (by decide)]
    · rw [if_neg hempty]
      by_cases hprepends : prepends (ruleOf line) = true
      · rw [if_pos hprepends, List.filter_cons_of_pos hprepends, List.filter_cons_of_neg (by simp [hprepends])]
        simp
      · rw [if_neg hprepends, List.filter_cons_of_neg hprepends,
          List.filter_cons_of_pos (by simpa [hempty] using hprepends)]
        simp

/-- The lines of the rule files that can be opened. -/
def fileLines (entry : Entry) : List Bytes := if isRuleFile entry then (entry.content.map lines).getD [] else []

theorem readRules_eq (rules : List Bytes) (entry : Entry) :
    readRules rules entry = (fileLines entry).foldl loadLine rules := by
  rw [readRules, fileLines]
  split_ifs
  · cases entry.content <;> rfl
  · rfl

theorem foldl_readRules (entries : List Entry) (rules : List Bytes) :
    entries.foldl readRules rules = (entries.flatMap fileLines).foldl loadLine rules := by
  induction entries generalizing rules with
  | nil => rfl
  | cons entry entries ih => rw [List.foldl_cons, ih, readRules_eq, List.flatMap_cons, List.foldl_append]

/-- What is documented of `strverscmp`: it orders names. -/
structure OrdersNames (strverscmp : Bytes → Bytes → Int) : Prop where
  total : ∀ a b, strverscmp a b ≤ 0 ∨ strverscmp b a ≤ 0
  trans : ∀ a b c, strverscmp a b ≤ 0 → strverscmp b c ≤ 0 → strverscmp a c ≤ 0

theorem getRulesFromFilesAtPath_opened {strverscmp : Bytes → Bytes → Int} (horder : OrdersNames strverscmp)
    (directory : Bytes) (entries : List Entry) :
    ∃ ordered : List Entry, ordered.Perm entries ∧ ordered.Pairwise (fun a b => strverscmp a.name b.name ≤ 0) ∧
      getRulesFromFilesAtPath strverscmp directory (.opened entries) = .ok (loaded (ordered.flatMap fileLines)) := by
  refine ⟨entries.mergeSort (notAfter strverscmp), List.mergeSort_perm _ _, ?_, ?_⟩
  · have hsorted : (entries.mergeSort (notAfter strverscmp)).Pairwise _ := List.pairwise_mergeSort (fun a b c hab hbc => by
      simp only [notAfter, decide_eq_true_eq] at *
      exact horder.trans _ _ _ hab hbc) (fun a b => by
      simp only [notAfter, Bool.or_eq_true, decide_eq_true_eq]
      exact horder.total _ _) entries
    exact hsorted.imp fun h => by simpa [notAfter] using h
  · rw [getRulesFromFilesAtPath, foldl_readRules, foldl_loadLine, List.append_nil]
    rfl

end Load

section FirstMatch

variable {expressions : Expressions} {searchItem : Bytes} {required : List RequiredOption}

/-- The match of a search item with a syscall ends where a word of the rule does. -/
def WholeToken (searchItem rule : Bytes) (found : Nat × Nat) : Prop :=
  utf8 "-S " <:+: searchItem →
    (∀ c, rule[found.1 + found.2]? = some c → isSpace c) ∨
      0 < found.2 ∧ ∀ c, rule[found.1 + found.2 - 1]? = some c → isSpace c

/-- The rule has another architecture or exit code than one that is required. -/
def OtherVariant (expressions : Expressions) (required : List RequiredOption) (rule : Bytes) : Prop :=
  ∃ req ∈ required, req.isFound rule = false ∧
    (utf8 "-F arch=" <+: req.text ∧ expressions.archVariant rule ∨ utf8 "-F exit=" <+: req.text ∧ expressions.exitVariant rule)

/-- The rule is about the search item. -/
def Relevant (expressions : Expressions) (searchItem : Bytes) (required : List RequiredOption) (rule : Bytes) : Prop :=
  ∃ search found, expressions.search = .ok search ∧ search rule = some found ∧ WholeToken searchItem rule found ∧
    (∀ excluded, expressions.excluded = some excluded → excluded rule = false) ∧ ¬ OtherVariant expressions required rule

def HasRequired (required : List RequiredOption) (rule : Bytes) : Prop := ∀ req ∈ required, req.isFound rule = true

theorem endsInside_eq_false {rule : Bytes} {found : Nat × Nat} :
    endsInside searchItem rule found = false ↔ WholeToken searchItem rule found := by
  simp only [endsInside, WholeToken, Bool.and_eq_false_iff, Bool.or_eq_false_iff, decide_eq_false_iff_not,
    Option.any_eq_false, Bool.not_eq_false', imp_iff_not_or, Nat.pos_iff_ne_zero, or_assoc]

theorem otherVariant_iff {rule : Bytes} :
    isDifferentRuleVariant expressions required rule = true ↔ OtherVariant expressions required rule := by
  simp only [isDifferentRuleVariant, OtherVariant, List.any_eq_true, Bool.and_eq_true, Bool.or_eq_true,
    Bool.not_eq_true', List.isPrefixOf_iff_prefix]

theorem isRelevant_iff {search : Bytes → Option (Nat × Nat)} (hsearch : expressions.search = .ok search) {rule : Bytes} :
    isRelevant expressions searchItem required search rule = true ↔ Relevant expressions searchItem required rule := by
  rw [isRelevant, Relevant]
  simp only [hsearch, Except.ok.injEq, exists_eq_left', exists_and_left]
  cases search rule with
  | none => simp
  | some found =>
    simp only [Option.some.injEq, exists_eq_left', ← endsInside_eq_false, ← otherVariant_iff]
    cases endsInside searchItem rule found <;> cases expressions.excluded <;> simp

/-- The first relevant rule that is complete or suppresses decides. -/
theorem checkRules_compliant {search : Bytes → Option (Nat × Nat)} (hsearch : expressions.search = .ok search)
    (rules : List Bytes) (shown : List Indicator) :
    (checkRules expressions searchItem required search rules shown).status = .compliant ↔
      ∃ before rule after, rules = before ++ rule :: after ∧ Relevant expressions searchItem required rule ∧
        HasRequired required rule ∧
        ∀ earlier ∈ before ++ [rule], Relevant expressions searchItem required earlier → expressions.suppressing earlier = false := by
  induction rules generalizing shown with
  | nil =>
    refine iff_of_false (fun h => ?_) ?_
    · cases h
    · rintro ⟨before, rule, after, heq, -⟩
      simp at heq
  | cons rule rules ih =>
    have hcons : (∃ before found after, rule :: rules = before ++ found :: after ∧
        Relevant expressions searchItem required found ∧ HasRequired required found ∧
        ∀ earlier ∈ before ++ [found], Relevant expressions searchItem required earlier →
          expressions.suppressing earlier = false) ↔
        (Relevant expressions searchItem required rule → expressions.suppressing rule = false) ∧
        (Relevant expressions searchItem required rule ∧ HasRequired required rule ∨
          ∃ before found after, rules = before ++ found :: after ∧ Relevant expressions searchItem required found ∧
            HasRequired required found ∧ ∀ earlier ∈ before ++ [found],
              Relevant expressions searchItem required earlier → expressions.suppressing earlier = false) := by
      constructor
      · rintro ⟨before, found, after, heq, hrelevant, hrequired, hearlier⟩
        cases before with
        | nil =>
          cases heq
          exact ⟨hearlier _ (by simp), .inl ⟨hrelevant, hrequired⟩⟩
        | cons first before =>
          cases heq
          exact ⟨hearlier _ (by simp), .inr ⟨before, found, after, rfl, hrelevant, hrequired,
            fun earlier h => hearlier earlier (List.mem_cons_of_mem _ h)⟩⟩
      · rintro ⟨hrule, ⟨hrelevant, hrequired⟩ | ⟨before, found, after, rfl, hrelevant, hrequired, hearlier⟩⟩
        · exact ⟨[], rule, rules, rfl, hrelevant, hrequired, by simpa using hrule⟩
        · refine ⟨rule :: before, found, after, rfl, hrelevant, hrequired, ?_⟩
          rw [List.cons_append, List.forall_mem_cons]
          exact ⟨hrule, hearlier⟩
    rw [hcons, checkRules]
    by_cases hrelevant : Relevant expressions searchItem required rule
    · rw [if_neg (by simpa using (isRelevant_iff hsearch).mpr hrelevant)]
      by_cases hsuppressing : expressions.suppressing rule = true
      · rw [if_pos hsuppressing]
        refine iff_of_false (fun h => ?_) (fun h => ?_)
        · cases h
        · rw [h.1 hrelevant] at hsuppressing
          cases hsuppressing
      · rw [if_neg hsuppressing]
        cases hfind : required.find? (!·.isFound rule) with
        | none =>
          refine iff_of_true rfl ⟨fun _ => by simpa using hsuppressing, .inl ⟨hrelevant, ?_⟩⟩
          intro req hreq
          simpa using List.find?_eq_none.mp hfind req hreq
        | some req =>
          have hmissing : ¬ HasRequired required rule := by
            intro h
            have hnot := List.find?_some hfind
            rw [h req (List.mem_of_find?_eq_some hfind)] at hnot
            cases hnot
          dsimp only
          rw [ih, and_iff_right fun _ => by simpa using hsuppressing, or_iff_right fun h => hmissing h.2]
    · have hno : isRelevant expressions searchItem required search rule = false := by
        rw [← Bool.not_eq_true, isRelevant_iff hsearch]
        exact hrelevant
      rw [hno, Bool.not_false, if_pos rfl, ih, and_iff_right fun h => absurd h hrelevant, or_iff_right fun h => hrelevant h.1]

theorem checkRuleInList_compliant (expressions : Expressions) (searchItem : Bytes) (required : List RequiredOption)
    (rules : List Bytes) : (checkRuleInList expressions searchItem required rules).status = .compliant ↔
      ∃ before rule after, rules = before ++ rule :: after ∧ Relevant expressions searchItem required rule ∧
        HasRequired required rule ∧
        ∀ earlier ∈ before ++ [rule], Relevant expressions searchItem required earlier →
          expressions.suppressing earlier = false := by
  rw [checkRuleInList]
  cases hsearch : expressions.search with
  | ok search => exact checkRules_compliant hsearch rules []
  | error what =>
    refine iff_of_false (fun h => ?_) ?_
    · cases h
    · rintro ⟨before, rule, after, -, ⟨search, found, hok, -⟩, -⟩
      rw [hsearch] at hok
      cases hok

end FirstMatch

section LoadedRules

/-- The rules are those of the files in the order of their names, the prepended ones first and in the opposite order,
and the first relevant rule that is complete or suppresses decides. -/
theorem first_match {strverscmp : Bytes → Bytes → Int} (horder : OrdersNames strverscmp) (directory : Bytes)
    (entries : List Entry) (expressions : Expressions) (searchItem : Bytes) (required : List RequiredOption)
    (rules : List Bytes) :
    (∃ ordered : List Entry, ordered.Perm entries ∧ ordered.Pairwise (fun a b => strverscmp a.name b.name ≤ 0) ∧
      getRulesFromFilesAtPath strverscmp directory (.opened entries) = .ok (loaded (ordered.flatMap fileLines))) ∧
    ((checkRuleInList expressions searchItem required rules).status = .compliant ↔
      ∃ before rule after, rules = before ++ rule :: after ∧ Relevant expressions searchItem required rule ∧
        HasRequired required rule ∧
        ∀ earlier ∈ before ++ [rule], Relevant expressions searchItem required earlier →
          expressions.suppressing earlier = false) :=
  ⟨getRulesFromFilesAtPath_opened horder directory entries,
    checkRuleInList_compliant expressions searchItem required rules⟩

/-- `strverscmp` on names without digits in the same place. -/
def byBytes (a b : Bytes) : Int :=
  match compare a b with
  | .lt => -1
  | .eq => 0
  | .gt => 1

theorem byBytes_le (a b : Bytes) : byBytes a b ≤ 0 ↔ (compare a b).isLE = true := by
  rw [byBytes]
  cases compare a b <;> decide

theorem byBytes_orders : OrdersNames byBytes where
  total a b := by
    rw [byBytes_le, byBytes_le, @Std.OrientedCmp.eq_swap _ compare _ b a]
    cases compare a b <;> decide
  trans a b c := by
    rw [byBytes_le, byBytes_le, byBytes_le]
    exact Std.TransCmp.isLE_trans

def watchFiles : List Entry :=
  [{ name := utf8 "b.rules", kind := .regular, content := some (utf8 "-A never,exit -w /x\n# no rule\n-w /y") },
    { name := utf8 "a.rules", kind := .regular, content := some (utf8 "-w /x -k x\n") }]

def watchX : Expressions where
  search := .ok fun rule => if rule.take 5 = utf8 "-w /x" then some (0, 5) else none
  excluded := none
  suppressing rule := rule.take 13 = utf8 "-a never,exit"
  archVariant _ := false
  exitVariant _ := false

theorem first_match_watch :
    (∃ ordered : List Entry, ordered.Perm watchFiles ∧ ordered.Pairwise (fun a b => byBytes a.name b.name ≤ 0) ∧
      getRulesFromFilesAtPath byBytes (utf8 "/r") (.opened watchFiles) = .ok (loaded (ordered.flatMap fileLines))) ∧
    ((checkRuleInList watchX (utf8 "-w /x") [] [utf8 "-w /x -k x"]).status = .compliant ↔
      ∃ before rule after, [utf8 "-w /x -k x"] = before ++ rule :: after ∧ Relevant watchX (utf8 "-w /x") [] rule ∧
        HasRequired [] rule ∧ ∀ earlier ∈ before ++ [rule], Relevant watchX (utf8 "-w /x") [] earlier →
          watchX.suppressing earlier = false) :=
  first_match byBytes_orders _ _ _ _ _ _

example : loaded [utf8 "-w /x -k x", utf8 "-A never,exit -w /x # first", utf8 "# no rule", utf8 "-w /y"] =
    [utf8 "-a never,exit -w /x", utf8 "-w /x -k x", utf8 "-w /y"] := by
  decide +kernel

end LoadedRules

end Kompli.AuditdRules
