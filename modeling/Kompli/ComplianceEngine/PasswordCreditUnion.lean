import Kompli.ComplianceEngine.ResultEvidence
import Kompli.ComplianceEngine.TypedComparison
import Kompli.Foundation.StateRule

/-! The verdict on the password credits of two roots, and the report of all that was found in them. -/
namespace Kompli.PasswordCreditUnion
open Foundation ResultEvidence

def EIO : Int := 5

/-- Without a value an item is selected and fails. -/
structure PasswordCreditItem where
  identity : Bytes
  value : Option Int64

inductive Outcome where
  | unspecified
  | complete
  | absent
  | stopped
  | other (value : Int)
  deriving DecidableEq

structure PasswordCreditRoot where
  outcome : Outcome := .unspecified
  selected : List PasswordCreditItem := []
  exclusions : List Bytes := []
  stopReason : Bytes := []

structure PasswordCreditAssessment where
  result : Except Error PasswordCreditRoot
  observed : List Bytes

inductive CreditRootLocation where
  | main
  | dropIn
  deriving DecidableEq

inductive CreditEvidenceKind where
  | selected
  | excluded
  | observed
  deriving DecidableEq

structure Diagnostic where
  location : CreditRootLocation
  kind : CreditEvidenceKind
  identity : Bytes
  deriving DecidableEq

/-- How a call of the reporter ends. -/
inductive Reported where
  | returned
  | exception
  | unknown

/-- A call of the reporter may depend on those before it. -/
abbrev CreditDiagnosticReporter := List Diagnostic → Diagnostic → Reported

abbrev Report := EStateM Error (List Diagnostic)

section Report

variable (reportDiagnostic : CreditDiagnosticReporter)

def reportOne (diagnostic : Diagnostic) : Report Unit := do
  let reported := reportDiagnostic (← get) diagnostic
  modify (· ++ [diagnostic])
  match reported with
  | .returned => pure ()
  | .exception => throw { message := utf8 "Password credit diagnostic reporter threw an exception", code := EIO }
  | .unknown => throw { message := utf8 "Password credit diagnostic reporter threw an unknown exception", code := EIO }

def reportEvidence (root : PasswordCreditAssessment) (location : CreditRootLocation) : Report Unit := do
  match root.result with
  | .ok evidence =>
    forM evidence.selected fun item => reportOne reportDiagnostic ⟨location, .selected, item.identity⟩
    forM evidence.exclusions fun exclusion => reportOne reportDiagnostic ⟨location, .excluded, exclusion⟩
  | .error _ => pure ()
  forM root.observed fun identity => reportOne reportDiagnostic ⟨location, .observed, identity⟩

def reportAllEvidence (mainRoot dropInRoot : PasswordCreditAssessment) : Report Unit := do
  reportEvidence reportDiagnostic mainRoot .main
  reportEvidence reportDiagnostic dropInRoot .dropIn

end Report

def rootError (message name : Bytes) : Error := { message := message ++ name, code := EINVAL }

def validateRoot (evidence : PasswordCreditRoot) (name : Bytes) : Except Error Status :=
  if evidence.outcome = .stopped then
    if evidence.stopReason = [] then .error (rootError (utf8 "Stopped password credit root lacks a reason: ") name)
    else .error (rootError (utf8 "Insufficient stop in ")
      (name ++ utf8 " password credit root: " ++ evidence.stopReason))
  else if evidence.outcome ≠ .complete ∧ evidence.outcome ≠ .absent then
    .error (rootError (utf8 "Invalid password credit root outcome: ") name)
  else if evidence.outcome = .absent ∧ (evidence.selected ≠ [] ∨ evidence.exclusions ≠ []) then
    .error (rootError (utf8 "Absent password credit root contains items: ") name)
  else if evidence.stopReason ≠ [] ∧ evidence.outcome ≠ .stopped then
    .error (rootError (utf8 "Non-stopped password credit root contains a stop reason: ") name)
  else .ok .compliant

/-- What `CompareTyped` says of the item, which cannot be an error. -/
def itemState (item : PasswordCreditItem) : StateSatisfaction :=
  match item.value with
  | none => .notSatisfied
  | some value => if compareTyped value 0 .lessThan then .satisfied else .notSatisfied

def combine (selected : List PasswordCreditItem) : CompletedItemEvidence :=
  selected.foldl (fun combined item => combined.addSelected (.ok (itemState item))) {}

def evaluation (mainRoot dropInRoot : PasswordCreditAssessment) : Except Error Status :=
  match mainRoot.result, dropInRoot.result with
  | .error e, _ => .error e
  | .ok _, .error e => .error e
  | .ok main, .ok dropIn => do
    let _ ← validateRoot main (utf8 "main")
    let _ ← validateRoot dropIn (utf8 "drop-in")
    let combined := combine (main.selected ++ dropIn.selected)
    let state ← combined.allSelectedStatesSatisfied
    pure (if combined.hasSelectedItems ∧ state = .satisfied then .compliant else .nonCompliant)

def evaluatePasswordCreditUnion (mainRoot dropInRoot : PasswordCreditAssessment)
    (reportDiagnostic : Option CreditDiagnosticReporter) : Report Status :=
  match reportDiagnostic with
  | none => throw { message := utf8 "Missing password credit diagnostic reporter", code := EINVAL }
  | some reportDiagnostic => fun diagnostics =>
    match reportAllEvidence reportDiagnostic mainRoot dropInRoot diagnostics, evaluation mainRoot dropInRoot with
    | .ok _ reported, .ok status => .ok status reported
    | .ok _ reported, .error e => .error e reported
    | .error _ reported, .error e => .error e reported
    | .error e reported, .ok _ => .error e reported

section Evidence

/-- All that is found in a root, in the order of the report. -/
def evidenceOf (root : PasswordCreditAssessment) (location : CreditRootLocation) : List Diagnostic :=
  (match root.result with
    | .ok evidence => evidence.selected.map (fun item => ⟨location, .selected, item.identity⟩) ++
        evidence.exclusions.map fun exclusion => ⟨location, .excluded, exclusion⟩
    | .error _ => []) ++
  root.observed.map fun identity => ⟨location, .observed, identity⟩

def allEvidence (mainRoot dropInRoot : PasswordCreditAssessment) : List Diagnostic :=
  evidenceOf mainRoot .main ++ evidenceOf dropInRoot .dropIn

/-- The reporter returns from each of these calls. -/
def Returns (reportDiagnostic : CreditDiagnosticReporter) (before diagnostics : List Diagnostic) : Prop :=
  ∀ done diagnostic more, diagnostics = done ++ diagnostic :: more → reportDiagnostic (before ++ done) diagnostic = .returned

/-- The root has a result that can be judged. -/
def Sufficient (root : PasswordCreditAssessment) (evidence : PasswordCreditRoot) : Prop :=
  root.result = .ok evidence ∧ evidence.stopReason = [] ∧
    (evidence.outcome = .complete ∨ evidence.outcome = .absent ∧ evidence.selected = [] ∧ evidence.exclusions = [])

variable {reportDiagnostic : CreditDiagnosticReporter} {before diagnostics : List Diagnostic} {diagnostic : Diagnostic}
  {mainRoot dropInRoot root : PasswordCreditAssessment}

theorem returns_cons : Returns reportDiagnostic before (diagnostic :: diagnostics) ↔
    reportDiagnostic before diagnostic = .returned ∧ Returns reportDiagnostic (before ++ [diagnostic]) diagnostics := by
  constructor
  · intro h
    refine ⟨by simpa using h [] diagnostic diagnostics rfl, ?_⟩
    rintro done other more rfl
    rw [List.append_assoc]
    exact h (diagnostic :: done) other more rfl
  · rintro ⟨hfirst, hmore⟩ done other more heq
    cases done with
    | nil =>
      cases heq
      rwa [List.append_nil]
    | cons first done =>
      cases heq
      have hother := hmore done other more rfl
      rwa [List.append_assoc] at hother

theorem reportOne_returned (h : reportDiagnostic before diagnostic = .returned) :
    reportOne reportDiagnostic diagnostic before = .ok () (before ++ [diagnostic]) := by
  rw [reportOne, bind_run_ok _ (get_run _), bind_run_ok _ (modify_run _ _), h]
  rfl

theorem reportOne_thrown (h : reportDiagnostic before diagnostic ≠ .returned) :
    ∃ e t, reportOne reportDiagnostic diagnostic before = .error e t := by
  rw [reportOne, bind_run_ok _ (get_run _), bind_run_ok _ (modify_run _ _)]
  cases hreported : reportDiagnostic before diagnostic with
  | returned => exact absurd hreported h
  | exception => exact ⟨_, _, rfl⟩
  | unknown => exact ⟨_, _, rfl⟩

theorem forM_returns (h : Returns reportDiagnostic before diagnostics) :
    forM diagnostics (reportOne reportDiagnostic) before = .ok () (before ++ diagnostics) := by
  induction diagnostics generalizing before with
  | nil =>
    rw [List.append_nil]
    rfl
  | cons diagnostic diagnostics ih =>
    obtain ⟨hfirst, hmore⟩ := returns_cons.mp h
    rw [List.forM_cons, bind_run_ok _ (reportOne_returned hfirst), ih hmore, List.append_assoc]
    rfl

theorem forM_throws (h : ¬ Returns reportDiagnostic before diagnostics) :
    ∃ e t, forM diagnostics (reportOne reportDiagnostic) before = .error e t := by
  induction diagnostics generalizing before with
  | nil =>
    refine absurd (fun done diagnostic more heq => ?_) h
    simp at heq
  | cons diagnostic diagnostics ih =>
    rw [List.forM_cons]
    by_cases hfirst : reportDiagnostic before diagnostic = .returned
    · rw [bind_run_ok _ (reportOne_returned hfirst)]
      exact ih fun hmore => h (returns_cons.mpr ⟨hfirst, hmore⟩)
    · obtain ⟨e, t, hrun⟩ := reportOne_thrown hfirst
      exact ⟨e, t, bind_run_error _ hrun⟩

theorem reportEvidence_eq (location : CreditRootLocation) : reportEvidence reportDiagnostic root location =
    forM (evidenceOf root location) (reportOne reportDiagnostic) := by
  rw [reportEvidence, evidenceOf]
  cases root.result with
  | ok evidence => simp [List.forM_append, List.forM_map]
  | error e => simp [List.forM_map]

theorem reportAllEvidence_eq : reportAllEvidence reportDiagnostic mainRoot dropInRoot =
    forM (allEvidence mainRoot dropInRoot) (reportOne reportDiagnostic) := by
  rw [reportAllEvidence, reportEvidence_eq, reportEvidence_eq, allEvidence, List.forM_append]

end Evidence

section Evaluation

variable {mainRoot dropInRoot : PasswordCreditAssessment} {main dropIn evidence : PasswordCreditRoot}
  {selected : List PasswordCreditItem}

theorem combine_hasSelected (combined : CompletedItemEvidence) :
    (selected.foldl (fun combined item => combined.addSelected (.ok (itemState item))) combined).hasSelected =
      (combined.hasSelected || !selected.isEmpty) := by
  induction selected generalizing combined with
  | nil => simp
  | cons item selected ih =>
    rw [List.foldl_cons, ih]
    simp [CompletedItemEvidence.addSelected]

theorem itemState_eq (item : PasswordCreditItem) : itemState item = .satisfied ∨ itemState item = .notSatisfied := by
  rw [itemState]
  cases item.value with
  | none => exact .inr rfl
  | some value =>
    dsimp only
    split_ifs
    · exact .inl rfl
    · exact .inr rfl

theorem itemState_satisfied (item : PasswordCreditItem) :
    itemState item = .satisfied ↔ ∃ value, item.value = some value ∧ value < 0 := by
  rw [itemState]
  cases item.value with
  | none => simp
  | some value => simp [compareTyped]

theorem combine_allSatisfied : (combine selected).allSatisfied =
    .ok (if ∀ item ∈ selected, itemState item = .satisfied then .satisfied else .notSatisfied) := by
  have hcalls : combine selected = completed (selected.map fun item => .addSelected (.ok (itemState item))) := by
    rw [combine, completed, List.foldl_map]
    rfl
  have hnone : firstError ((selected.map fun item => StateCall.addSelected (.ok (itemState item))).map StateCall.input) =
      none := by
    rw [firstError_eq_none]
    simp only [List.mem_map, exists_exists_and_eq_and]
    rintro _ ⟨item, -, rfl⟩
    rw [StateCall.input]
    rcases itemState_eq item with h | h <;> exact ⟨_, by rw [h]; rfl⟩
  have hall := completed_of_none hnone
  rw [CompletedItemEvidence.allSelectedStatesSatisfied, ← hcalls] at hall
  rw [hall]
  refine congrArg Except.ok ?_
  by_cases h : ∀ item ∈ selected, itemState item = .satisfied
  · rw [if_pos h, if_neg]
    intro hmem
    obtain ⟨item, hitem, heq⟩ := List.mem_map.mp hmem
    rw [h item hitem] at heq
    cases heq
  · rw [if_neg h, if_pos]
    simp only [not_forall] at h
    obtain ⟨item, hitem, hstate⟩ := h
    have hnot := (itemState_eq item).resolve_left hstate
    exact List.mem_map.mpr ⟨item, hitem, by rw [hnot]⟩

variable (evidence) in
theorem validateRoot_eq (name : Bytes) : validateRoot evidence name = .ok .compliant ∨
    ∃ e, validateRoot evidence name = .error e := by
  rw [validateRoot]
  split_ifs <;> first | exact .inl rfl | exact .inr ⟨_, rfl⟩

theorem validateRoot_ok (name : Bytes) : validateRoot evidence name = .ok .compliant ↔ evidence.stopReason = [] ∧
    (evidence.outcome = .complete ∨ evidence.outcome = .absent ∧ evidence.selected = [] ∧ evidence.exclusions = []) := by
  rw [validateRoot]
  split_ifs with hstopped hreason hother habsent hstop
  · simp [hstopped]
  · simp [hstopped]
  · simp [not_or.mp (not_or.mpr hother)]
  · simp only [false_iff]
    rintro ⟨-, hcomplete | ⟨-, hselected, hexclusions⟩⟩
    · rw [hcomplete] at habsent
      cases habsent.1
    · exact habsent.2.elim (absurd hselected) (absurd hexclusions)
  · simp only [false_iff]
    exact fun h => hstop.1 h.1
  · simp only [true_iff]
    have hreason : evidence.stopReason = [] := by
      by_contra hne
      exact hstop ⟨hne, hstopped⟩
    refine ⟨hreason, ?_⟩
    by_cases hcomplete : evidence.outcome = .complete
    · exact .inl hcomplete
    · have houtcome : evidence.outcome = .absent := by
        by_contra hne
        exact hother ⟨hcomplete, hne⟩
      simp only [not_and, not_or, not_not] at habsent
      exact .inr ⟨houtcome, habsent houtcome⟩

theorem sufficient_iff {root : PasswordCreditAssessment} (name : Bytes) (h : root.result = .ok evidence) :
    Sufficient root evidence ↔ validateRoot evidence name = .ok .compliant := by
  rw [validateRoot_ok, Sufficient, and_iff_right h]

/-- The verdict on the items of both roots. -/
theorem evaluation_of_sufficient (hmain : Sufficient mainRoot main) (hdropIn : Sufficient dropInRoot dropIn) :
    evaluation mainRoot dropInRoot = .ok (if main.selected ++ dropIn.selected ≠ [] ∧
      ∀ item ∈ main.selected ++ dropIn.selected, itemState item = .satisfied then .compliant else .nonCompliant) := by
  have hselected : (combine (main.selected ++ dropIn.selected)).hasSelectedItems =
      !(main.selected ++ dropIn.selected).isEmpty := combine_hasSelected {}
  rw [evaluation, hmain.1, hdropIn.1]
  dsimp only
  rw [(sufficient_iff _ hmain.1).mp hmain, (sufficient_iff _ hdropIn.1).mp hdropIn]
  simp only [bind, Except.bind, CompletedItemEvidence.allSelectedStatesSatisfied, combine_allSatisfied, hselected]
  refine congrArg Except.ok (if_congr ?_ rfl rfl)
  refine and_congr (by simp) ?_
  split_ifs with hall
  · exact iff_of_true rfl hall
  · exact iff_of_false (nomatch ·) hall

theorem evaluation_compliant : evaluation mainRoot dropInRoot = .ok .compliant ↔
    ∃ main dropIn, Sufficient mainRoot main ∧ Sufficient dropInRoot dropIn ∧ main.selected ++ dropIn.selected ≠ [] ∧
      ∀ item ∈ main.selected ++ dropIn.selected, ∃ value, item.value = some value ∧ value < 0 := by
  constructor
  · intro h
    cases hmain : mainRoot.result with
    | error e =>
      rw [evaluation, hmain] at h
      cases h
    | ok main =>
      cases hdropIn : dropInRoot.result with
      | error e =>
        rw [evaluation, hmain, hdropIn] at h
        cases h
      | ok dropIn =>
        have hboth := h
        rw [evaluation, hmain, hdropIn] at h
        dsimp only at h
        rcases validateRoot_eq main (utf8 "main") with hok | ⟨e, he⟩
        · rw [hok] at h
          rcases validateRoot_eq dropIn (utf8 "drop-in") with hok' | ⟨e, he⟩
          · have hsufficient := (sufficient_iff _ hmain).mpr hok
            have hsufficient' := (sufficient_iff _ hdropIn).mpr hok'
            rw [evaluation_of_sufficient hsufficient hsufficient', Except.ok.injEq] at hboth
            split_ifs at hboth with hall
            exact ⟨main, dropIn, hsufficient, hsufficient', hall.1, fun item hitem =>
              (itemState_satisfied item).mp (hall.2 item hitem)⟩
          · rw [he] at h
            cases h
        · rw [he] at h
          cases h
  · rintro ⟨main, dropIn, hmain, hdropIn, hsome, hall⟩
    rw [evaluation_of_sufficient hmain hdropIn,
      if_pos ⟨hsome, fun item hitem => (itemState_satisfied item).mpr (hall item hitem)⟩]

end Evaluation

section Union

variable (mainRoot dropInRoot : PasswordCreditAssessment)

theorem evaluate_of_returns {reportDiagnostic : CreditDiagnosticReporter}
    (h : Returns reportDiagnostic [] (allEvidence mainRoot dropInRoot)) :
    evaluatePasswordCreditUnion mainRoot dropInRoot (some reportDiagnostic) [] =
      match evaluation mainRoot dropInRoot with
      | .ok status => .ok status (allEvidence mainRoot dropInRoot)
      | .error e => .error e (allEvidence mainRoot dropInRoot) := by
  rw [evaluatePasswordCreditUnion, reportAllEvidence_eq]
  dsimp only
  rw [forM_returns h, List.nil_append]
  cases evaluation mainRoot dropInRoot <;> rfl

theorem evaluate_of_throws {reportDiagnostic : CreditDiagnosticReporter}
    (h : ¬ Returns reportDiagnostic [] (allEvidence mainRoot dropInRoot)) :
    ∃ e t, evaluatePasswordCreditUnion mainRoot dropInRoot (some reportDiagnostic) [] = .error e t ∧
      ∀ e', evaluation mainRoot dropInRoot = .error e' → e = e' := by
  obtain ⟨e, t, hrun⟩ := forM_throws h
  rw [evaluatePasswordCreditUnion, reportAllEvidence_eq]
  dsimp only
  rw [hrun]
  cases hevaluation : evaluation mainRoot dropInRoot with
  | ok status => exact ⟨e, t, rfl, fun e' he => nomatch he⟩
  | error e' => exact ⟨e', t, rfl, fun e'' he => Except.error.inj he⟩

/-- The verdict is that on the items of both roots together, an error of it comes before one of the reporter, and all
evidence is reported whatever the verdict. -/
theorem evaluatePasswordCreditUnion_spec (reporter : Option CreditDiagnosticReporter) :
    ((∃ t, evaluatePasswordCreditUnion mainRoot dropInRoot reporter [] = .ok .compliant t) ↔
      ∃ reportDiagnostic main dropIn, reporter = some reportDiagnostic ∧ Sufficient mainRoot main ∧
        Sufficient dropInRoot dropIn ∧ main.selected ++ dropIn.selected ≠ [] ∧
        (∀ item ∈ main.selected ++ dropIn.selected, ∃ value, item.value = some value ∧ value < 0) ∧
        Returns reportDiagnostic [] (allEvidence mainRoot dropInRoot)) ∧
    ∀ reportDiagnostic, reporter = some reportDiagnostic →
      (∀ e, evaluation mainRoot dropInRoot = .error e →
        ∃ t, evaluatePasswordCreditUnion mainRoot dropInRoot reporter [] = .error e t) ∧
      (Returns reportDiagnostic [] (allEvidence mainRoot dropInRoot) →
        leaves (evaluatePasswordCreditUnion mainRoot dropInRoot reporter) [] = allEvidence mainRoot dropInRoot) := by
  cases reporter with
  | none =>
    refine ⟨iff_of_false ?_ ?_, fun _ h => nomatch h⟩
    · rintro ⟨t, h⟩
      cases h
    · rintro ⟨_, _, _, h, -⟩
      cases h
  | some reportDiagnostic =>
    by_cases hreturns : Returns reportDiagnostic [] (allEvidence mainRoot dropInRoot)
    · have hrun := evaluate_of_returns mainRoot dropInRoot hreturns
      have hcompliant : (∃ t, evaluatePasswordCreditUnion mainRoot dropInRoot (some reportDiagnostic) [] =
          .ok .compliant t) ↔ evaluation mainRoot dropInRoot = .ok .compliant := by
        rw [hrun]
        cases evaluation mainRoot dropInRoot with
        | error e => simp
        | ok status => simp
      refine ⟨?_, fun reporter h => ?_⟩
      · rw [hcompliant, evaluation_compliant]
        constructor
        · rintro ⟨main, dropIn, hmain, hdropIn, hsome, hall⟩
          exact ⟨reportDiagnostic, main, dropIn, rfl, hmain, hdropIn, hsome, hall, hreturns⟩
        · rintro ⟨_, main, dropIn, -, hmain, hdropIn, hsome, hall, -⟩
          exact ⟨main, dropIn, hmain, hdropIn, hsome, hall⟩
      · cases h
        refine ⟨fun e he => ⟨_, by rw [hrun, he]⟩, fun _ => ?_⟩
        rw [leaves, hrun]
        cases evaluation mainRoot dropInRoot <;> rfl
    · obtain ⟨e, t, hrun, herror⟩ := evaluate_of_throws mainRoot dropInRoot hreturns
      refine ⟨iff_of_false ?_ ?_, fun reporter h => ?_⟩
      · rintro ⟨t', h⟩
        rw [hrun] at h
        cases h
      · rintro ⟨_, _, _, h, -, -, -, -, hno⟩
        cases h
        exact hreturns hno
      · cases h
        refine ⟨fun e' he => ⟨t, by rw [hrun, herror e' he]⟩, fun h => absurd h hreturns⟩

end Union

end Kompli.PasswordCreditUnion
