import Kompli.Procedures.NumericVerdicts

/-! The audit of a field over all entries of the shadow file. -/
namespace Kompli.ShadowField
open StringTools

/-- An entry with its user's name. -/
structure ShadowEntry extends Spwd where
  namp : Bytes

/-- The comparison of user names is always there. -/
structure ShadowFieldParams where
  username : Option Bytes := none
  usernameOperation : ComparisonOperation := .equal
  field : Field := .lastChange
  value : Bytes := []
  operation : ComparisonOperation := .equal

section Audit

variable (regexSearch : Bytes → Bytes → Except Bytes Bool) (params : ShadowFieldParams)

/-- Whether the entry is one of a user that is asked for. -/
def matchesUser (entry : ShadowEntry) : Except Error Bool :=
  match params.username with
  | none => .ok true
  | some username => stringComparison regexSearch username (cString entry.namp) params.usernameOperation

/-- Users without a password, or with one that is locked, are asked for their passwords alone. -/
def isLocked (entry : ShadowEntry) : Except Error Bool :=
  if params.field ≠ .password ∧ params.field ≠ .encryptionMethod then
    (parseEncryptionMethod entry.toSpwd).map (· = .none)
  else .ok false

/-- One turn of the loop: nothing where the entry is passed over, and no result where an exception ends it. -/
def evaluateEntry (entry : ShadowEntry) : Option (Except Error (Option Bool)) :=
  match matchesUser regexSearch params entry with
  | .error e => some (.error e)
  | .ok false => some (.ok none)
  | .ok true =>
    match isLocked params entry with
    | .error e => some (.error e)
    | .ok true => some (.ok none)
    | .ok false => (compareUserEntry regexSearch entry.toSpwd params.field params.value params.operation).map (·.map some)

def auditEntries : List ShadowEntry → List Indicator → Option (Except Error Status × List Indicator)
  | [], indicators =>
    let message := params.field.prettyName ++ utf8 " matches expected value for all tested users"
    some (.ok .compliant, indicators ++ [{ message, status := .compliant }])
  | entry :: entries, indicators =>
    match evaluateEntry regexSearch params entry with
    | none => none
    | some (.error e) => some (.error e, indicators)
    | some (.ok none) => auditEntries entries indicators
    | some (.ok (some false)) =>
      let message := params.field.prettyName ++ utf8 " does not match expected value for user '" ++ cString entry.namp ++ utf8 "'"
      some (.ok .nonCompliant, indicators ++ [{ message, status := .nonCompliant }])
    | some (.ok (some true)) =>
      let message := params.field.prettyName ++ utf8 " matches expected value for user '" ++ cString entry.namp ++ utf8 "'"
      auditEntries entries (if params.username.isSome then indicators ++ [{ message, status := .compliant }] else indicators)

def auditShadowField : Except Error (List ShadowEntry) → Option (Except Error Status × List Indicator)
  | .error e => some (.error e, [])
  | .ok entries => auditEntries regexSearch params entries []

end Audit

section Meaning

/-- The comparison of two texts, or of two values of any other kind. -/
def Relates {α : Type} [LT α] [LE α] (operation : TypedComparisonOperation) (lhs rhs : α) : Prop :=
  match operation with
  | .equal => lhs = rhs
  | .notEqual => lhs ≠ rhs
  | .lessThan => lhs < rhs
  | .lessOrEqual => lhs ≤ rhs
  | .greaterThan => rhs < lhs
  | .greaterOrEqual => rhs ≤ lhs

variable (regexSearch : Bytes → Bytes → Except Bytes Bool) (params : ShadowFieldParams)

/-- A text matches, or is related to the other one. -/
def TextSatisfies (operation : ComparisonOperation) (value text : Bytes) : Prop :=
  if operation = .patternMatch then regexSearch value text = .ok true
  else ∃ mapped, mapComparison operation = .ok mapped ∧ Relates mapped value text

/-- A password starts with a mark where it is locked or was never set. -/
def Locked (entry : Spwd) : Prop :=
  ∃ pwdp, entry.pwdp = some pwdp ∧ (pwdp.head? = some 0x21 ∨ pwdp.head? = some 0x2A)

/-- The entry is one that the audit is about. -/
structure Selected (entry : ShadowEntry) : Prop where
  user : ∀ username, params.username = some username → TextSatisfies regexSearch params.usernameOperation username (cString entry.namp)
  unlocked : params.field = .password ∨ params.field = .encryptionMethod ∨ ¬ Locked entry.toSpwd

/-- The field compares to the value: a number stands to its left, a password to its right. -/
def Satisfies (entry : ShadowEntry) : Prop :=
  match params.field with
  | .password => ∃ pwdp, entry.pwdp = some pwdp ∧ TextSatisfies regexSearch params.operation params.value (cString pwdp)
  | .encryptionMethod => ∃ supplied method, parseMethodName params.value = .ok supplied ∧
      parseEncryptionMethod entry.toSpwd = .ok method ∧
      ((params.operation = .equal ∧ method = supplied) ∨ (params.operation = .notEqual ∧ method ≠ supplied))
  | field => ∃ number intValue mapped, entry.number field = some number ∧ tryStringToInt params.value = .ok intValue ∧
      mapComparison params.operation = .ok mapped ∧ mapped.Holds number.toInt intValue

end Meaning

section Verdicts

variable {regexSearch : Bytes → Bytes → Except Bytes Bool} {params : ShadowFieldParams}

theorem compareTyped_eq_true {α : Type} [DecidableEq α] [LT α] [DecidableLT α] [LE α] [DecidableLE α] (lhs rhs : α)
    (operation : TypedComparisonOperation) : compareTyped lhs rhs operation = true ↔ Relates operation lhs rhs := by
  cases operation <;> exact decide_eq_true_iff

theorem stringComparison_ok {value text : Bytes} {operation : ComparisonOperation} {verdict : Bool}
    (h : stringComparison regexSearch value text operation = .ok verdict) :
    verdict = true ↔ TextSatisfies regexSearch operation value text := by
  rw [stringComparison] at h
  rw [TextSatisfies]
  split_ifs at h ⊢ with hpattern
  · cases hsearch : regexSearch value text with
    | error what =>
      rw [hsearch] at h
      cases h
    | ok found =>
      rw [hsearch] at h
      cases h
      rw [Except.ok.injEq]
  · cases hmapped : mapComparison operation with
    | error e =>
      rw [hmapped] at h
      cases h
    | ok mapped =>
      rw [hmapped] at h
      cases h
      rw [compareTyped_eq_true]
      constructor
      · exact fun hrelates => ⟨mapped, rfl, hrelates⟩
      · rintro ⟨_, ⟨⟩, hrelates⟩
        exact hrelates

theorem matchesUser_ok {entry : ShadowEntry} {verdict : Bool} (h : matchesUser regexSearch params entry = .ok verdict) :
    verdict = true ↔ ∀ username, params.username = some username →
      TextSatisfies regexSearch params.usernameOperation username (cString entry.namp) := by
  rw [matchesUser] at h
  cases husername : params.username with
  | none =>
    rw [husername] at h
    cases h
    exact iff_of_true rfl nofun
  | some username =>
    rw [husername] at h
    rw [stringComparison_ok h]
    constructor
    · rintro hsatisfies _ ⟨⟩
      exact hsatisfies
    · exact fun hall => hall username rfl

theorem lookup_encryptionMethodMap {name : Bytes} {method : PasswordEncryptionMethod}
    (h : encryptionMethodMap.lookup name = some method) : method ≠ .none := by
  obtain ⟨before, after, heq, -⟩ := List.lookup_eq_some_iff.mp h
  have hmem : (name, method) ∈ encryptionMethodMap := by
    rw [heq]
    exact List.mem_append_right _ List.mem_cons_self
  have hnone : ∀ entry ∈ encryptionMethodMap, entry.2 ≠ .none := by decide
  exact hnone _ hmem

/-- Only a mark at the start of the password is no method. -/
theorem parseEncryptionMethod_none {entry : Spwd} : parseEncryptionMethod entry = .ok .none ↔ Locked entry := by
  rw [parseEncryptionMethod, Locked]
  cases hpwdp : entry.pwdp with
  | none =>
    refine iff_of_false nofun ?_
    rintro ⟨_, hsome, -⟩
    cases hsome
  | some pwdp =>
    have hlocked : (∃ other, some pwdp = some other ∧ (other.head? = some 0x21 ∨ other.head? = some 0x2A)) ↔
        pwdp.head? = some 0x21 ∨ pwdp.head? = some 0x2A := by simp
    rw [hlocked, Option.map_some]
    cases pwdp with
    | nil => exact iff_of_false nofun (by simp)
    | cons first rest =>
      rw [List.head?_cons, Option.some.injEq, Option.some.injEq]
      by_cases hzero : first = 0
      · subst hzero
        exact iff_of_false nofun (by decide)
      rw [cString, List.takeWhile_cons_of_pos (by simpa using hzero)]
      dsimp only
      by_cases hmark : first = 0x21 ∨ first = 0x2A
      · have hunder : first ≠ 0x5F := by rcases hmark with rfl | rfl <;> decide
        rw [if_neg hunder, if_pos hmark]
        exact iff_of_true rfl hmark
      · rw [if_neg hmark]
        refine iff_of_false (fun heq => ?_) hmark
        split_ifs at heq
        · cases heq
        · cases heq
        · cases hlookup : encryptionMethodMap.lookup ((rest.takeWhile (· != 0)).takeWhile (· ≠ dollar)) with
          | none =>
            rw [hlookup] at heq
            cases heq
          | some method =>
            rw [hlookup] at heq
            cases heq
            exact lookup_encryptionMethodMap hlookup rfl

theorem isLocked_ok {entry : ShadowEntry} {verdict : Bool} (h : isLocked params entry = .ok verdict) :
    verdict = false ↔ params.field = .password ∨ params.field = .encryptionMethod ∨ ¬ Locked entry.toSpwd := by
  rw [isLocked] at h
  rw [← parseEncryptionMethod_none]
  split_ifs at h with hfield
  · cases hmethod : parseEncryptionMethod entry.toSpwd with
    | error e =>
      rw [hmethod] at h
      cases h
    | ok method =>
      rw [hmethod] at h
      cases h
      simp [hfield.1, hfield.2]
  · cases h
    rw [not_and_or, not_not, not_not] at hfield
    exact iff_of_true rfl (hfield.elim .inl fun h => .inr (.inl h))

theorem compareNumber_ok {entry : Spwd} {field : Field} {value : Bytes} {operation : ComparisonOperation} {verdict : Bool}
    (hfits : ∀ number, entry.number field = some number → TypedComparisonOperation.Fits number.toInt)
    (h : compareNumber entry field value operation = .ok verdict) :
    verdict = true ↔ ∃ number intValue mapped, entry.number field = some number ∧ tryStringToInt value = .ok intValue ∧
      mapComparison operation = .ok mapped ∧ mapped.Holds number.toInt intValue := by
  rw [compareNumber] at h
  cases hvalue : tryStringToInt value with
  | error e =>
    rw [hvalue] at h
    cases h
  | ok intValue =>
    rw [hvalue] at h
    cases hnumber : entry.number field with
    | none =>
      rw [hnumber] at h
      cases h
    | some number =>
      rw [hnumber] at h
      dsimp only at h
      rw [integerComparison] at h
      cases hmapped : mapComparison operation with
      | error e =>
        rw [hmapped] at h
        cases h
      | ok mapped =>
        rw [hmapped] at h
        cases h
        rw [TypedComparisonOperation.compareTyped_iff, TypedComparisonOperation.toInt_of_fits (hfits number hnumber),
          (toInt_intValue hvalue).2]
        constructor
        · exact fun hholds => ⟨number, intValue, mapped, rfl, rfl, rfl, hholds⟩
        · rintro ⟨_, _, _, ⟨⟩, ⟨⟩, ⟨⟩, hholds⟩
          exact hholds

theorem compareMethod_ok {entry : Spwd} {value : Bytes} {operation : ComparisonOperation} {verdict : Bool}
    (h : compareUserEntry regexSearch entry .encryptionMethod value operation = some (.ok verdict)) :
    verdict = true ↔ ∃ supplied method, parseMethodName value = .ok supplied ∧ parseEncryptionMethod entry = .ok method ∧
      ((operation = .equal ∧ method = supplied) ∨ (operation = .notEqual ∧ method ≠ supplied)) := by
  rw [compareUserEntry] at h
  by_cases hoperation : operation ≠ .equal ∧ operation ≠ .notEqual
  · rw [if_pos hoperation] at h
    cases h
  · rw [if_neg hoperation] at h
    cases hsupplied : parseMethodName value with
    | error e =>
      rw [hsupplied] at h
      cases h
    | ok supplied =>
      cases hmethod : parseEncryptionMethod entry with
      | error e =>
        rw [hsupplied, hmethod] at h
        cases h
      | ok method =>
        rw [hsupplied, hmethod] at h
        have hverdict : verdict = true ↔
            (operation = .equal ∧ method = supplied) ∨ (operation = .notEqual ∧ method ≠ supplied) := by
          cases h
          by_cases hequal : operation = .equal
          · simp [hequal]
          · have hnotEqual : operation = .notEqual := by
              by_contra hnot
              exact hoperation ⟨hequal, hnot⟩
            simp [hnotEqual]
        rw [hverdict]
        constructor
        · exact fun hholds => ⟨supplied, method, rfl, rfl, hholds⟩
        · rintro ⟨_, _, ⟨⟩, ⟨⟩, hholds⟩
          exact hholds

/-- What an entry's comparison says, where a number of it fits. -/
theorem compareUserEntry_ok {entry : ShadowEntry} {verdict : Bool}
    (hfits : ∀ number, entry.number params.field = some number → TypedComparisonOperation.Fits number.toInt)
    (h : compareUserEntry regexSearch entry.toSpwd params.field params.value params.operation = some (.ok verdict)) :
    verdict = true ↔ Satisfies regexSearch params entry := by
  rw [Satisfies]
  split
  · rename_i hfield
    rw [hfield, compareUserEntry] at h
    obtain ⟨pwdp, hpwdp, hcompare⟩ := Option.map_eq_some_iff.mp h
    rw [stringComparison_ok hcompare]
    constructor
    · exact fun hsatisfies => ⟨pwdp, hpwdp, hsatisfies⟩
    · rintro ⟨other, hother, hsatisfies⟩
      rw [hpwdp] at hother
      cases hother
      exact hsatisfies
  · rename_i hfield
    rw [hfield] at h
    exact compareMethod_ok h
  · rename_i hpassword hmethod
    by_cases husername : params.field = .username
    · rw [husername, compareUserEntry] at h
      cases h
    · rw [compareUserEntry] at h
      · exact compareNumber_ok hfits (Option.some.inj h)
      all_goals assumption

theorem evaluateEntry_ok {entry : ShadowEntry} {verdict : Option Bool}
    (hfits : ∀ number, entry.number params.field = some number → TypedComparisonOperation.Fits number.toInt)
    (h : evaluateEntry regexSearch params entry = some (.ok verdict)) :
    verdict ≠ some false ↔ (Selected regexSearch params entry → Satisfies regexSearch params entry) := by
  rw [evaluateEntry] at h
  cases huser : matchesUser regexSearch params entry with
  | error e =>
    rw [huser] at h
    cases h
  | ok user =>
    rw [huser] at h
    cases user with
    | false =>
      cases h
      exact iff_of_true nofun fun hselected => absurd ((matchesUser_ok huser).mpr hselected.user) nofun
    | true =>
      cases hlocked : isLocked params entry with
      | error e =>
        rw [hlocked] at h
        cases h
      | ok locked =>
        rw [hlocked] at h
        cases locked with
        | true =>
          cases h
          exact iff_of_true nofun fun hselected => absurd ((isLocked_ok hlocked).mpr hselected.unlocked) nofun
        | false =>
          obtain ⟨compared, hcompared, hverdict⟩ := Option.map_eq_some_iff.mp h
          cases compared with
          | error e => cases hverdict
          | ok compares =>
            cases hverdict
            have hselected : Selected regexSearch params entry := ⟨(matchesUser_ok huser).mp rfl, (isLocked_ok hlocked).mp rfl⟩
            rw [forall_prop_of_true hselected, ← compareUserEntry_ok hfits hcompared]
            cases compares <;> simp

/-- The loop ends with the first entry that does not compare, or after the last one. -/
theorem auditEntries_ok {entries : List ShadowEntry} (h : ∀ entry ∈ entries, ∃ verdict,
    evaluateEntry regexSearch params entry = some (.ok verdict)) (before : List Indicator) : ∃ status indicators,
      auditEntries regexSearch params entries before = some (.ok status, indicators) ∧
        (status = .compliant ∧ (∀ entry ∈ entries, evaluateEntry regexSearch params entry ≠ some (.ok (some false))) ∨
          status = .nonCompliant ∧ ∃ entry ∈ entries, evaluateEntry regexSearch params entry = some (.ok (some false))) := by
  induction entries generalizing before with
  | nil => exact ⟨_, _, rfl, .inl ⟨rfl, nofun⟩⟩
  | cons entry entries ih =>
    obtain ⟨⟨verdict, hverdict⟩, hentries⟩ := List.forall_mem_cons.mp h
    have hrest (indicators : List Indicator) (hne : verdict ≠ some false) : ∃ status after,
        auditEntries regexSearch params entries indicators = some (.ok status, after) ∧
          (status = .compliant ∧ (∀ other ∈ entry :: entries, evaluateEntry regexSearch params other ≠ some (.ok (some false))) ∨
            status = .nonCompliant ∧
              ∃ other ∈ entry :: entries, evaluateEntry regexSearch params other = some (.ok (some false))) := by
      have hentry : evaluateEntry regexSearch params entry ≠ some (.ok (some false)) := by
        rw [hverdict]
        simpa using hne
      obtain ⟨status, after, hrun, ⟨hstatus, hall⟩ | ⟨hstatus, hsome⟩⟩ := ih hentries indicators
      · exact ⟨status, after, hrun, .inl ⟨hstatus, List.forall_mem_cons.mpr ⟨hentry, hall⟩⟩⟩
      · obtain ⟨other, hmem, hother⟩ := hsome
        exact ⟨status, after, hrun, .inr ⟨hstatus, other, List.mem_cons_of_mem entry hmem, hother⟩⟩
    rw [auditEntries, hverdict]
    match verdict with
    | none => exact hrest before nofun
    | some true => exact hrest _ nofun
    | some false => exact ⟨_, _, rfl, .inr ⟨rfl, entry, List.mem_cons_self, hverdict⟩⟩

/-- The audit compares every entry that it is about, each for itself and in any order. -/
theorem auditShadowField_compares {entries : List ShadowEntry}
    (hok : ∀ entry ∈ entries, ∃ verdict, evaluateEntry regexSearch params entry = some (.ok verdict))
    (hfits : ∀ entry ∈ entries, ∀ number, entry.number params.field = some number → TypedComparisonOperation.Fits number.toInt) :
    ∃ status, (status = Status.compliant ↔
        ∀ entry ∈ entries, Selected regexSearch params entry → Satisfies regexSearch params entry) ∧
      (status = .nonCompliant ↔
        ∃ entry ∈ entries, Selected regexSearch params entry ∧ ¬ Satisfies regexSearch params entry) ∧
      ∀ other, entries.Perm other → ∃ indicators,
        auditShadowField regexSearch params (.ok other) = some (.ok status, indicators) := by
  have hmeans : ∀ entry ∈ entries, evaluateEntry regexSearch params entry ≠ some (.ok (some false)) ↔
      (Selected regexSearch params entry → Satisfies regexSearch params entry) := by
    intro entry hentry
    obtain ⟨verdict, hverdict⟩ := hok entry hentry
    rw [← evaluateEntry_ok (hfits entry hentry) hverdict, hverdict]
    simp
  by_cases hall : ∀ entry ∈ entries, Selected regexSearch params entry → Satisfies regexSearch params entry
  · refine ⟨.compliant, iff_of_true rfl hall, iff_of_false nofun ?_, fun other hperm => ?_⟩
    · rintro ⟨entry, hentry, hselected, hnot⟩
      exact hnot (hall entry hentry hselected)
    · obtain ⟨status, indicators, hrun, ⟨rfl, -⟩ | ⟨-, entry, hentry, hfalse⟩⟩ :=
        auditEntries_ok (fun entry hentry => hok entry (hperm.mem_iff.mpr hentry)) []
      · exact ⟨indicators, hrun⟩
      · have hmem := hperm.mem_iff.mpr hentry
        exact absurd hfalse ((hmeans entry hmem).mpr (hall entry hmem))
  · have hsome : ∃ entry ∈ entries, Selected regexSearch params entry ∧ ¬ Satisfies regexSearch params entry := by
      simpa only [not_forall, exists_prop] using hall
    refine ⟨.nonCompliant, iff_of_false nofun hall, iff_of_true rfl hsome, fun other hperm => ?_⟩
    obtain ⟨status, indicators, hrun, ⟨-, hnone⟩ | ⟨rfl, -⟩⟩ :=
      auditEntries_ok (fun entry hentry => hok entry (hperm.mem_iff.mpr hentry)) []
    · refine absurd (fun entry hentry => ?_) hall
      exact (hmeans entry hentry).mp (hnone entry (hperm.mem_iff.mp hentry))
    · exact ⟨indicators, hrun⟩

/-- A password that is not before the given text is compliant where it has to be before it. -/
theorem password_compared_backwards :
    let entry : ShadowEntry :=
      { namp := utf8 "user", pwdp := some (utf8 "abc"), lstchg := 0, min := 0, max := 0, warn := 0, inact := 0, expire := 0 }
    let params : ShadowFieldParams := { field := .password, value := utf8 "abb", operation := .lessThan }
    (∃ indicators, auditShadowField (fun _ _ => .ok false) params (.ok [entry]) = some (.ok .compliant, indicators)) ∧
      Selected (fun _ _ => .ok false) params entry ∧ ¬ Relates .lessThan (utf8 "abc") (utf8 "abb") :=
  ⟨⟨_, rfl⟩, ⟨nofun, .inl rfl⟩, mt (compareTyped_eq_true _ _ _).mpr (by decide)⟩

/-- A password that was changed on the fifth day was changed before the sixth; one that is locked is not asked, and
neither is that of a user who is left out. -/
theorem auditShadowField_compares_lastChange :
    let user : ShadowEntry :=
      { namp := utf8 "user", pwdp := some (utf8 "$y$"), lstchg := 5, min := 0, max := 0, warn := 0, inact := 0, expire := 0 }
    let locked : ShadowEntry := { user with namp := utf8 "mail", pwdp := some (utf8 "!$y$"), lstchg := 9 }
    let root : ShadowEntry := { user with namp := utf8 "root", lstchg := 9 }
    let params : ShadowFieldParams :=
      { username := some (utf8 "root"), usernameOperation := .notEqual, field := .lastChange, value := utf8 "6"
        operation := .lessThan }
    Selected (fun _ _ => .ok false) params user ∧ Locked locked.toSpwd ∧ ¬ Selected (fun _ _ => .ok false) params root ∧
      ∀ entries, [user, locked, root].Perm entries → ∃ indicators,
        auditShadowField (fun _ _ => .ok false) params (.ok entries) = some (.ok .compliant, indicators) := by
  intro user locked root params
  have hlocked : Locked locked.toSpwd := ⟨_, rfl, .inl rfl⟩
  have hroot : ¬ Selected (fun _ _ => .ok false) params root := by
    intro h
    obtain ⟨mapped, hmapped, hrelates⟩ := h.user _ rfl
    cases hmapped
    exact hrelates rfl
  have huser : Selected (fun _ _ => .ok false) params user := by
    refine ⟨?_, .inr (.inr ?_)⟩
    · rintro _ ⟨⟩
      exact ⟨.notEqual, rfl, (compareTyped_eq_true _ _ .notEqual).mp (by decide)⟩
    · rintro ⟨_, ⟨⟩, hmark⟩
      exact absurd hmark (by decide)
  have hok : ∀ entry ∈ [user, locked, root],
      ∃ verdict, evaluateEntry (fun _ _ => .ok false) params entry = some (.ok verdict) := by
    simp only [List.forall_mem_cons]
    exact ⟨⟨some true, rfl⟩, ⟨none, rfl⟩, ⟨none, rfl⟩, nofun⟩
  have hfits : ∀ entry ∈ [user, locked, root], ∀ number, entry.number params.field = some number →
      TypedComparisonOperation.Fits number.toInt := by
    simp only [List.forall_mem_cons]
    refine ⟨?_, ?_, ?_, nofun⟩ <;>
    · rintro _ ⟨⟩
      decide
  obtain ⟨status, hcompliant, -, horders⟩ := auditShadowField_compares hok hfits
  have hall : ∀ entry ∈ [user, locked, root], Selected (fun _ _ => .ok false) params entry →
      Satisfies (fun _ _ => .ok false) params entry := by
    simp only [List.forall_mem_cons]
    refine ⟨fun _ => ⟨5, 6, .lessThan, rfl, rfl, rfl, by decide⟩, fun h => ?_, fun h => absurd h hroot, nofun⟩
    rcases h.unlocked with h | h | h
    · cases h
    · cases h
    · exact absurd hlocked h
  obtain rfl := hcompliant.mpr hall
  exact ⟨huser, hlocked, hroot, horders⟩

end Verdicts
end Kompli.ShadowField
