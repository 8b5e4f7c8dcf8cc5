import Kompli.Foundation.ExceptRule
import Kompli.Procedures.ConfigRewrite
import Kompli.Procedures.SysctlValue

/-! The remediation of a kernel parameter at run time, and when one that does not succeed restores the value. -/
namespace Kompli.SysctlValue
open Foundation
open ConfigRewrite (ENOTSUP textRead)

def EINTR : Int := 4
def EIO : Int := 5

section Remediation

/-- How the calls of one `WriteRuntimeSysctl` go: the errors they fail with, and for each `write` that or how much it
takes. Writes beyond the list take all that is left. -/
structure WriteCalls where
  opened : Option Int := none
  inspected : Option Int := none
  regular : Bool := true
  writes : List (Except Int Nat) := []
  closed : Option Int := none

/-- How the calls of a remediation go. A read is as much as there is before its end, or an error. -/
structure Outcomes where
  firstAudit : Except Error Nat
  read : Except Error Nat
  write : WriteCalls
  lastAudit : Except Error Nat
  rollback : WriteCalls
  specialFilePath : Bytes → Bytes
  executeCommand : Bytes → Except Error Bytes
  strerror : Int → Bytes

inductive Event where
  | audited (result : Except Error Status)
  /-- The file is opened for writing, and is empty then. -/
  | wrote
  | rollbackFailed
  deriving DecidableEq

/-- `contents` are those of the file of the parameter, `closes` is how often each descriptor was closed. -/
structure Run where
  contents : Bytes
  closes : List Nat := []
  events : List Event := []

abbrev RemediateM := EStateM Error Run

def getLiteralRemediationValue (value : Pattern) : Except Error Bytes :=
  let literal :=
    if 2 ≤ value.text.length ∧ value.text.head? = some 0x5E ∧ value.text.getLast? = some 0x24 then
      (value.text.drop 1).take (value.text.length - 2)
    else value.text
  if literal = [] ∨ (∃ c ∈ literal, c ∈ utf8 "\\.^$|()[]\x7b\x7d*+?") ∨ (0 : UInt8) ∈ literal ∨ ∃ c ∈ literal, c ∈ utf8 "\r\n" then
    .error { message := utf8 "Sysctl remediation requires an exact literal value", code := ENOTSUP }
  else .ok literal

variable (outcomes : Outcomes)

def record (event : Event) : RemediateM Unit := modify fun s => { s with events := s.events ++ [event] }

/-- A descriptor is gone even when `close` reports an error. -/
def close (fd : Nat) : RemediateM Unit := modify fun s => { s with closes := s.closes.modify fd (· + 1) }

def fileError (operation : String) (path : Bytes) (status : Int) : Error where
  message := utf8 operation ++ utf8 " runtime sysctl '" ++ path ++ utf8 "': " ++ outcomes.strerror status
  code := status

/-- The loop over the writes, with what is left to be written. -/
def writeLoop (path : Bytes) (fd : Nat) : List (Except Int Nat) → Bytes → RemediateM (Option Error)
  | [], rest => do
    modify fun s => { s with contents := s.contents ++ rest }
    pure none
  | call :: calls, rest =>
    if rest = [] then pure none
    else
      match call with
      | .error status =>
        if status = EINTR then writeLoop path fd calls rest
        else do
          close fd
          pure (some (fileError outcomes "Failed to write" path status))
      | .ok count =>
        if count = 0 then do
          close fd
          pure (some { message := utf8 "Failed to write runtime sysctl '" ++ path ++ utf8 "'", code := EIO })
        else do
          modify fun s => { s with contents := s.contents ++ rest.take count }
          writeLoop path fd calls (rest.drop count)

def writeRuntimeSysctl (calls : WriteCalls) (path value : Bytes) : RemediateM (Option Error) := do
  match calls.opened with
  | some status => pure (some (fileError outcomes "Failed to open" path status))
  | none => do
    let s ← get
    let fd := s.closes.length
    modify fun s => { s with contents := [], closes := s.closes ++ [0], events := s.events ++ [.wrote] }
    match calls.inspected with
    | some status => do
      close fd
      pure (some (fileError outcomes "Failed to inspect" path status))
    | none =>
      if calls.regular = false then do
        close fd
        pure (some { message := utf8 "Runtime sysctl is not a regular file: " ++ path, code := EINVAL })
      else do
        match ← writeLoop outcomes path fd calls.writes value with
        | some e => pure (some e)
        | none => do
          close fd
          pure (calls.closed.map (fileError outcomes "Failed to close" path))

/-- What the audit is told when the file holds this. -/
def contextOf (read : Except Error Nat) (contents : Bytes) : Context where
  specialFilePath := outcomes.specialFilePath
  getFileContents := fun _ => read.map (textRead · contents)
  executeCommand := outcomes.executeCommand

def audit (params : Params) (read : Except Error Nat) : RemediateM (Except Error Status) := do
  let s ← get
  let result := (auditSysctlValue (contextOf outcomes read s.contents) params).result
  record (.audited result)
  pure result

def getFileContents (read : Except Error Nat) : RemediateM Bytes := fun s =>
  match read with
  | .error e => .error e s
  | .ok count => .ok (textRead count s.contents) s

def ofExcept {α : Type} : Except Error α → RemediateM α
  | .ok a => pure a
  | .error e => throw e

def rollbackFailed (postAudit : Except Error Status) (e : Error) : Error :=
  let reason := match postAudit with
    | .ok _ => utf8 "Runtime sysctl remained noncompliant"
    | .error audit => audit.message
  { message := reason ++ utf8 "; rollback failed: " ++ e.message, code := e.code }

/-- `RemediateSysctlValue` once the value is known to be another one. -/
def changeSysctlValue (params : Params) (desired : Bytes) : RemediateM Status := do
  let path := outcomes.specialFilePath (utf8 "/proc/sys/" ++ sysctlPath params.sysctlName)
  let original ← getFileContents outcomes.read
  match ← writeRuntimeSysctl outcomes outcomes.write path desired with
  | some e => throw e
  | none => do
    let postAudit ← audit outcomes params outcomes.lastAudit
    if postAudit.toOption = some .compliant then ofExcept postAudit
    else do
      match ← writeRuntimeSysctl outcomes outcomes.rollback path original with
      | some e => do
        record .rollbackFailed
        throw (rollbackFailed postAudit e)
      | none => ofExcept postAudit

def remediateSysctlValue (params : Params) : RemediateM Status := do
  if params.runtimeOnly ≠ some true then
    throw { message := utf8 "Sysctl remediation currently supports runtime-only policies", code := ENOTSUP }
  else if isValidSysctlName params.sysctlName = false then
    throw { message := utf8 "Invalid sysctl name: " ++ params.sysctlName, code := EINVAL }
  else do
    let desired ← ofExcept (getLiteralRemediationValue params.value)
    let result ← audit outcomes params outcomes.firstAudit
    if result.toOption = some .nonCompliant then changeSysctlValue outcomes params desired else ofExcept result

end Remediation

section Writing

variable {outcomes : Outcomes}

/-- What the writes put into the file, and whether it is all there is to write. -/
def taken : List (Except Int Nat) → Bytes → Bytes × Bool
  | [], rest => (rest, true)
  | call :: calls, rest =>
    if rest = [] then ([], true)
    else
      match call with
      | .error status => if status = EINTR then taken calls rest else ([], false)
      | .ok count => if count = 0 then ([], false) else (rest.take count ++ (taken calls (rest.drop count)).1, (taken calls (rest.drop count)).2)

/-- What a file that was opened for writing holds then, and whether the writing succeeds. -/
def WriteCalls.leaves (calls : WriteCalls) (value : Bytes) : Bytes × Bool :=
  if calls.inspected.isSome ∨ calls.regular = false then ([], false)
  else ((taken calls.writes value).1, (taken calls.writes value).2 && calls.closed.isNone)

/-- The run after a loop, whose failure closes the descriptor. -/
def Run.after (s : Run) (fd : Nat) (written : Bytes × Bool) : Run :=
  { s with contents := s.contents ++ written.1, closes := if written.2 then s.closes else s.closes.modify fd (· + 1) }

theorem writeLoop_run (path : Bytes) (fd : Nat) (calls : List (Except Int Nat)) (rest : Bytes) (s : Run) :
    ∃ e, writeLoop outcomes path fd calls rest s = .ok e (s.after fd (taken calls rest)) ∧
      (e = none ↔ (taken calls rest).2 = true) := by
  induction calls generalizing rest s with
  | nil => exact ⟨none, rfl, by simp [taken]⟩
  | cons call calls ih =>
    unfold writeLoop taken
    by_cases hrest : rest = []
    · rw [if_pos hrest, if_pos hrest]
      refine ⟨none, ?_, by simp⟩
      rw [Run.after, List.append_nil]
      rfl
    rw [if_neg hrest, if_neg hrest]
    have hstopped : s.after fd ([], false) = { s with closes := s.closes.modify fd (· + 1) } := by
      rw [Run.after, List.append_nil]
      rfl
    cases call with
    | error status =>
      dsimp only
      by_cases hinterrupted : status = EINTR
      · rw [if_pos hinterrupted, if_pos hinterrupted]
        exact ih rest s
      · rw [if_neg hinterrupted, if_neg hinterrupted, hstopped]
        exact ⟨_, rfl, by simp⟩
    | ok count =>
      dsimp only
      by_cases hnone : count = 0
      · rw [if_pos hnone, if_pos hnone, hstopped]
        exact ⟨_, rfl, by simp⟩
      · rw [if_neg hnone, if_neg hnone]
        obtain ⟨e, hrun, he⟩ := ih (rest.drop count) { s with contents := s.contents ++ rest.take count }
        refine ⟨e, ?_, he⟩
        rw [bind_run_ok _ (modify_run _ s), hrun, Run.after, Run.after, List.append_assoc]

private theorem modify_concat (closes : List Nat) : (closes ++ [0]).modify closes.length (· + 1) = closes ++ [1] := by
  induction closes with
  | nil => rfl
  | cons n closes ih => exact congrArg (n :: ·) ih

/-- A file that cannot be opened is as before; else it holds what is left, and its descriptor is closed. -/
theorem writeRuntimeSysctl_run (calls : WriteCalls) (path value : Bytes) (s : Run) :
    (∃ e, calls.opened.isSome ∧ writeRuntimeSysctl outcomes calls path value s = .ok (some e) s) ∨
      calls.opened = none ∧ ∃ e, writeRuntimeSysctl outcomes calls path value s =
          .ok e { contents := (calls.leaves value).1, closes := s.closes ++ [1], events := s.events ++ [.wrote] } ∧
        (e = none ↔ (calls.leaves value).2 = true) := by
  unfold writeRuntimeSysctl
  cases hopened : calls.opened with
  | some status => exact .inl ⟨_, rfl, rfl⟩
  | none =>
    refine .inr ⟨rfl, ?_⟩
    unfold WriteCalls.leaves
    have hclosed := modify_concat s.closes
    cases hinspected : calls.inspected with
    | some status =>
      refine ⟨some (fileError outcomes "Failed to inspect" path status), ?_, by simp⟩
      simp only [Option.isSome_some, true_or, if_true]
      rw [← hclosed]
      rfl
    | none =>
      cases hregular : calls.regular with
      | false =>
        refine ⟨some { message := utf8 "Runtime sysctl is not a regular file: " ++ path, code := EINVAL }, ?_, by simp⟩
        simp only [or_true, if_true]
        rw [← hclosed]
        rfl
      | true =>
        simp only [Option.isSome_none, Bool.false_eq_true, Bool.true_eq_false, or_self, if_false]
        let opened : Run := { contents := [], closes := s.closes ++ [0], events := s.events ++ [.wrote] }
        obtain ⟨e, hrun, he⟩ := @writeLoop_run outcomes path s.closes.length calls.writes value opened
        rw [bind_run_ok _ (get_run s), bind_run_ok _ (modify_run _ s), bind_run_ok _ hrun]
        cases e with
        | some e =>
          have hdone : (taken calls.writes value).2 = false := by simpa using he
          refine ⟨some e, ?_, by simp [hdone]⟩
          rw [Run.after, hdone, if_neg Bool.false_ne_true, hclosed]
          rfl
        | none =>
          have hdone : (taken calls.writes value).2 = true := he.mp rfl
          refine ⟨calls.closed.map (fileError outcomes "Failed to close" path), ?_, ?_⟩
          · rw [Run.after, hdone, if_pos rfl, ← hclosed]
            rfl
          · cases calls.closed <;> simp [hdone]

theorem taken_all {calls : List (Except Int Nat)} {rest : Bytes} (h : (taken calls rest).2 = true) : (taken calls rest).1 = rest := by
  induction calls generalizing rest with
  | nil => rfl
  | cons call calls ih =>
    unfold taken at h ⊢
    by_cases hrest : rest = []
    · rw [if_pos hrest, hrest]
    rw [if_neg hrest] at h ⊢
    cases call with
    | error status =>
      dsimp only at h ⊢
      split_ifs at h ⊢ with hinterrupted
      exact ih h
    | ok count =>
      dsimp only at h ⊢
      split_ifs at h ⊢ with hnone
      rw [ih h, List.take_append_drop]

/-- Writing that succeeds leaves what was to be written. -/
theorem WriteCalls.leaves_all {calls : WriteCalls} {value : Bytes} (h : (calls.leaves value).2 = true) :
    (calls.leaves value).1 = value := by
  unfold WriteCalls.leaves at h ⊢
  split_ifs at h ⊢ with hfails
  exact taken_all (Bool.and_eq_true_iff.mp h).1

end Writing

section Law

variable {outcomes : Outcomes} {params : Params} {original : Bytes}

def final (r : EStateM.Result Error Run Status) : Run :=
  match r with
  | .ok _ s => s
  | .error _ s => s

/-- What a remediation of a file with these contents leaves behind, for what it returns. -/
structure Restores (original : Bytes) (r : EStateM.Result Error Run Status) : Prop where
  /-- The last audit was after the last write, and Compliant. -/
  compliant : ∀ s, r = .ok .compliant s → s.events.getLast? = some (.audited (.ok .compliant))
  restored : (∀ s, r ≠ .ok .compliant s) → .rollbackFailed ∉ (final r).events → (final r).contents = original
  closed : ∀ n ∈ (final r).closes, n = 1

/-- The audit finds another value, which is to be changed to `desired`. -/
structure Changes (outcomes : Outcomes) (params : Params) (original desired : Bytes) : Prop where
  runtimeOnly : params.runtimeOnly = some true
  valid : isValidSysctlName params.sysctlName = true
  literal : getLiteralRemediationValue params.value = .ok desired
  audit : (auditSysctlValue (contextOf outcomes outcomes.firstAudit original) params).result = .ok .nonCompliant

/-- What is written back where the last audit is not Compliant is all that was there. -/
def WritesAllBack (outcomes : Outcomes) (params : Params) (original desired : Bytes) (count : Nat) : Prop :=
  (auditSysctlValue (contextOf outcomes outcomes.lastAudit desired) params).result ≠ .ok .compliant →
    outcomes.rollback.opened = none → (outcomes.rollback.leaves (textRead count original)).2 = true →
      original.length ≤ count ∧ NulFree original

/-- A change can be undone: a write that fails once the file is open leaves what was there. -/
def Undoable (outcomes : Outcomes) (params : Params) (original desired : Bytes) : Prop :=
  ∀ count, outcomes.read = .ok count → outcomes.write.opened = none →
    if (outcomes.write.leaves desired).2 then WritesAllBack outcomes params original desired count
    else (outcomes.write.leaves desired).1 = original

theorem undoable_iff {desired : Bytes} {count : Nat} (hread : outcomes.read = .ok count) (hopened : outcomes.write.opened = none) :
    Undoable outcomes params original desired ↔
      if (outcomes.write.leaves desired).2 then WritesAllBack outcomes params original desired count
      else (outcomes.write.leaves desired).1 = original := by
  constructor
  · intro h
    exact h count hread hopened
  · intro h count' hread' _
    rw [hread] at hread'
    cases hread'
    exact h

/-- What does not succeed has to leave the contents. -/
theorem restores_iff {r : EStateM.Result Error Run Status} (hfails : ∀ s, r ≠ .ok .compliant s)
    (hclosed : ∀ n ∈ (final r).closes, n = 1) :
    Restores original r ↔ (.rollbackFailed ∉ (final r).events → (final r).contents = original) := by
  constructor
  · intro h
    exact h.restored hfails
  · intro h
    exact ⟨fun s hs => absurd hs (hfails s), fun _ => h, hclosed⟩

theorem error_restores_iff {e : Error} {s : Run} (hclosed : ∀ n ∈ s.closes, n = 1) :
    Restores original (.error e s) ↔ (.rollbackFailed ∉ s.events → s.contents = original) :=
  restores_iff (fun _ hs => nomatch hs) hclosed

theorem audit_run (params : Params) (read : Except Error Nat) (s : Run) :
    audit outcomes params read s = .ok (auditSysctlValue (contextOf outcomes read s.contents) params).result
      { s with events := s.events ++ [.audited (auditSysctlValue (contextOf outcomes read s.contents) params).result] } := rfl

theorem final_ofExcept (result : Except Error Status) (s : Run) : final (ofExcept result s) = s := by
  cases result <;> rfl

theorem ofExcept_ne {result : Except Error Status} (h : result ≠ .ok .compliant) (s t : Run) :
    ofExcept result s ≠ .ok .compliant t := by
  cases result with
  | error e => simp [ofExcept]
  | ok status =>
    intro heq
    cases heq
    exact h rfl

/-- Once the value is written the last audit decides whether it stays. -/
theorem rollBack_restores_iff {path text : Bytes} {postAudit : Except Error Status} {s : Run}
    (hpost : postAudit ≠ .ok .compliant) (hevents : .rollbackFailed ∉ s.events) (hcloses : ∀ n ∈ s.closes, n = 1) :
    Restores original ((do
      match ← writeRuntimeSysctl outcomes outcomes.rollback path text with
      | some e => do
        record .rollbackFailed
        throw (rollbackFailed postAudit e)
      | none => ofExcept postAudit : RemediateM Status) s) ↔
      (outcomes.rollback.opened = none → (outcomes.rollback.leaves text).2 = true → text = original) := by
  have failed {t : Run} {e : Error} (hcloses : ∀ n ∈ t.closes, n = 1)
      (hrun : writeRuntimeSysctl outcomes outcomes.rollback path text s = .ok (some e) t) :
      Restores original ((do
        match ← writeRuntimeSysctl outcomes outcomes.rollback path text with
        | some e => do
          record .rollbackFailed
          throw (rollbackFailed postAudit e)
        | none => ofExcept postAudit : RemediateM Status) s) := by
    have hthrown : (do
        record .rollbackFailed
        throw (rollbackFailed postAudit e) : RemediateM Status) t =
          .error (rollbackFailed postAudit e) { t with events := t.events ++ [.rollbackFailed] } := rfl
    rw [bind_run_ok _ hrun]
    dsimp only
    rw [hthrown]
    refine (error_restores_iff (s := { t with events := t.events ++ [.rollbackFailed] }) hcloses).mpr
      fun hnot => absurd ?_ hnot
    exact List.mem_append_right _ (List.mem_singleton_self _)
  have hone : ∀ n ∈ s.closes ++ [1], n = 1 := by
    intro n hn
    rcases List.mem_append.mp hn with hn | hn
    · exact hcloses n hn
    · exact List.mem_singleton.mp hn
  rcases @writeRuntimeSysctl_run outcomes outcomes.rollback path text s with
    ⟨e, hopened, hrun⟩ | ⟨hopened, e, hrun, he⟩
  · refine iff_of_true (failed hcloses hrun) fun hnone => ?_
    rw [hnone] at hopened
    cases hopened
  · cases e with
    | some e =>
      exact iff_of_true (failed hone hrun) fun _ hdone => nomatch he.mpr hdone
    | none =>
      have hdone := he.mp rfl
      rw [bind_run_ok _ hrun]
      dsimp only
      rw [restores_iff (ofExcept_ne hpost _) (by rw [final_ofExcept]; exact hone), final_ofExcept]
      dsimp only
      rw [WriteCalls.leaves_all hdone]
      constructor
      · intro h _ _
        exact h (by simpa using hevents)
      · intro h _
        exact h hopened hdone

theorem changeSysctlValue_restores_iff {desired : Bytes} {s : Run} (hcontents : s.contents = original)
    (hevents : .rollbackFailed ∉ s.events) (hcloses : s.closes = []) :
    Restores original (changeSysctlValue outcomes params desired s) ↔ Undoable outcomes params original desired := by
  have stays {e : Error} (hrun : changeSysctlValue outcomes params desired s = .error e s) :
      Restores original (changeSysctlValue outcomes params desired s) := by
    rw [hrun]
    exact (error_restores_iff (by simp [hcloses])).mpr fun _ => hcontents
  cases hread : outcomes.read with
  | error e =>
    refine iff_of_true (stays (e := e) ?_) fun count hcount => ?_
    · have hget : getFileContents (.error e) s = .error e s := rfl
      rw [changeSysctlValue, hread, bind_run_error _ hget]
    · rw [hread] at hcount
      cases hcount
  | ok count =>
    have hget : getFileContents (.ok count) s = .ok (textRead count original) s := by
      rw [← hcontents]
      rfl
    rcases @writeRuntimeSysctl_run outcomes outcomes.write
      (outcomes.specialFilePath (utf8 "/proc/sys/" ++ sysctlPath params.sysctlName)) desired s with
      ⟨e, hopened, hrun⟩ | ⟨hopened, e, hrun, he⟩
    · refine iff_of_true (stays (e := e) ?_) fun _ _ hnone => ?_
      · rw [changeSysctlValue, hread, bind_run_ok _ hget, bind_run_ok _ hrun]
        rfl
      · rw [hnone] at hopened
        cases hopened
    rw [changeSysctlValue, undoable_iff hread hopened, hread, bind_run_ok _ hget, bind_run_ok _ hrun]
    have hone : ∀ n ∈ s.closes ++ [1], n = 1 := by simp [hcloses]
    cases e with
    | some e =>
      have hfails : (outcomes.write.leaves desired).2 ≠ true := fun h => nomatch he.mpr h
      have hthrown (t : Run) : (throw e : RemediateM Status) t = .error e t := rfl
      dsimp only
      rw [hthrown, error_restores_iff hone, if_neg hfails]
      constructor
      · intro h
        exact h (by simpa using hevents)
      · intro h _
        exact h
    | none =>
      have hdone := he.mp rfl
      dsimp only
      rw [if_pos hdone, WriteCalls.leaves_all hdone, bind_run_ok _ (audit_run _ _ _)]
      unfold WritesAllBack
      dsimp only
      by_cases hpost : (auditSysctlValue (contextOf outcomes outcomes.lastAudit desired) params).result = .ok .compliant
      · rw [if_pos (except_toOption_iff.mpr hpost), hpost]
        refine iff_of_true ⟨?_, fun hnot => absurd rfl (hnot _), hone⟩ fun h => absurd rfl h
        intro t ht
        cases ht
        exact List.getLast?_concat
      · rw [if_neg fun h => hpost (except_toOption_iff.mp h), rollBack_restores_iff hpost (by simpa using hevents) hone]
        rw [ConfigRewrite.textRead_eq_iff]
        constructor
        · intro h _
          exact h
        · intro h
          exact h hpost

/-- A remediation that does not succeed restores the contents exactly when each change it makes can be undone. -/
theorem remediateSysctlValue_restores_iff (outcomes : Outcomes) (params : Params) (original : Bytes) :
    Restores original (remediateSysctlValue outcomes params { contents := original }) ↔
      ∀ desired, Changes outcomes params original desired → Undoable outcomes params original desired := by
  let start : Run := { contents := original }
  have stays {e : Error} (hnone : ∀ desired, ¬ Changes outcomes params original desired)
      (hrun : remediateSysctlValue outcomes params start = .error e start) :
      Restores original (remediateSysctlValue outcomes params start) ↔
        ∀ desired, Changes outcomes params original desired → Undoable outcomes params original desired := by
    rw [hrun]
    exact iff_of_true ((error_restores_iff (by simp [start])).mpr fun _ => rfl) fun desired h => absurd h (hnone desired)
  by_cases hruntime : params.runtimeOnly = some true
  case neg =>
    refine stays (e := ⟨utf8 "Sysctl remediation currently supports runtime-only policies", ENOTSUP⟩)
      (fun desired h => hruntime h.runtimeOnly) ?_
    rw [remediateSysctlValue, if_pos hruntime]
    rfl
  cases hvalid : isValidSysctlName params.sysctlName with
  | false =>
    refine stays (e := ⟨utf8 "Invalid sysctl name: " ++ params.sysctlName, EINVAL⟩) (fun desired h => ?_) ?_
    · exact absurd (hvalid.symm.trans h.valid) Bool.false_ne_true
    · rw [remediateSysctlValue, if_neg (not_not_intro hruntime), if_pos hvalid]
      rfl
  | true =>
    cases hliteral : getLiteralRemediationValue params.value with
    | error e =>
      refine stays (e := e) (fun desired h => ?_) ?_
      · exact nomatch hliteral.symm.trans h.literal
      · rw [remediateSysctlValue, if_neg (not_not_intro hruntime), if_neg (by simp [hvalid]), hliteral]
        rfl
    | ok desired =>
      set result := (auditSysctlValue (contextOf outcomes outcomes.firstAudit original) params).result with hresult
      let audited : Run := { start with events := [.audited result] }
      have hrun : remediateSysctlValue outcomes params start =
          (if result.toOption = some .nonCompliant then changeSysctlValue outcomes params desired else ofExcept result) audited := by
        have hdesired : ofExcept (.ok desired) start = .ok desired start := rfl
        rw [remediateSysctlValue, if_neg (not_not_intro hruntime), if_neg (by simp [hvalid]), hliteral,
          bind_run_ok _ hdesired, bind_run_ok _ (audit_run _ _ _)]
        rfl
      rw [hrun]
      by_cases hchanges : result = .ok .nonCompliant
      · have honly : (∀ desired', Changes outcomes params original desired' → Undoable outcomes params original desired') ↔
            Undoable outcomes params original desired := by
          constructor
          · intro h
            exact h desired ⟨hruntime, hvalid, hliteral, hresult.symm.trans hchanges⟩
          · intro h desired' hother
            have heq := hliteral.symm.trans hother.literal
            cases heq
            exact h
        rw [if_pos (except_toOption_iff.mpr hchanges), honly]
        exact changeSysctlValue_restores_iff rfl (by simp [audited]) rfl
      · rw [if_neg fun h => hchanges (except_toOption_iff.mp h)]
        refine iff_of_true ⟨?_, ?_, ?_⟩ fun desired h => absurd (hresult.trans h.audit) hchanges
        · intro s hs
          cases hcase : result with
          | error e =>
            rw [hcase] at hs
            cases hs
          | ok status =>
            rw [hcase] at hs
            cases hs
            simp [audited, hcase]
        · intro _ _
          rw [final_ofExcept]
        · rw [final_ofExcept]
          simp [audited, start]

/-- Forwarding at run time that is to be switched off. -/
def forwarding : Params := { ipForward with runtimeOnly := some true }

/-- The file is opened for writing, and the first write to it fails. -/
def firstWriteFails : Outcomes where
  firstAudit := .ok 2
  read := .ok 2
  write := { writes := [.error EIO] }
  lastAudit := .ok 2
  rollback := {}
  specialFilePath := id
  executeCommand := fun _ => .ok []
  strerror := fun _ => []

/-- The file is left empty, and its value is not written back. -/
theorem firstWriteFails_loses :
    ¬ Restores (utf8 "1\n") (remediateSysctlValue firstWriteFails forwarding { contents := utf8 "1\n" }) := by
  have hnone : (remediateSysctlValue firstWriteFails forwarding).run' { contents := utf8 "1\n" } = none := by
    decide +kernel
  have hevents : .rollbackFailed ∉
      (final (remediateSysctlValue firstWriteFails forwarding { contents := utf8 "1\n" })).events := by
    decide +kernel
  intro h
  refine absurd (h.restored (fun s hs => ?_) hevents) (by decide +kernel)
  delta EStateM.run' EStateM.run at hnone
  rw [hs] at hnone
  cases hnone

end Law

end Kompli.SysctlValue
