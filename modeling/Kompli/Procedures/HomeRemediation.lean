import Kompli.Procedures.UserHomeDirectoryPermissions

/-! What the remediation of home directories makes of the outcome for each user. -/
namespace Kompli.UserHomeDirectoryPermissions
open Foundation
open ProcedureM (call_run read_run)

variable {W : Type}

/-- What becomes of a user with a valid shell: a call before the permissions fails, or they are remediated with a result. -/
inductive UserOutcome where
  | failed
  | remediated (result : Except Error Status)
  deriving DecidableEq

section Outcomes

variable (system : System W)

/-- The parameters for a home directory that is there: its group and both patterns. -/
def grouped (pwd : Passwd) (w : W) : Option FilePermissionsParams × W :=
  let (known, w) := system.getgrgid pwd.gid w
  if known then
    match system.makePattern pwd.name, system.makePattern (system.groupName w) with
    | .ok _, .ok _ =>
      (some { path := pwd.dir, mask := some 0o027, owner := some [pwd.name], group := some [system.groupName w] }, w)
    | _, _ => (none, w)
  else (none, w)

/-- A home directory that is missing is made. -/
def prepared (pwd : Passwd) (w : W) : Option FilePermissionsParams × W :=
  let (found, w) := system.stat pwd.dir w
  if found then grouped system pwd w
  else if system.errno w = ENOENT then
    let (made, w) := system.mkdir pwd.dir 0o750 w
    if made then grouped system pwd w else (none, w)
  else (none, w)

/-- The outcomes for the users with a valid shell, up to the first that is an error. -/
def outcomes (validShells : List Bytes) : List Passwd → W → List UserOutcome
  | [], _ => []
  | pwd :: users, w =>
    if pwd.shell ∉ validShells then outcomes validShells users w
    else
      match prepared system pwd w with
      | (none, _) => [.failed]
      | (some params, w) =>
        let outcome := system.remediateFilePermissions params w
        match outcome.result with
        | .error e => [.remediated (.error e)]
        | .ok status => .remediated (.ok status) :: outcomes validShells users outcome.context

/-- Both lists that are looked up first are there. -/
def Listed (validShells : List Bytes) (users : List Passwd) (w : W) : Prop :=
  (system.listValidShells w).1 = .ok validShells ∧ (system.users none (system.listValidShells w).2).1 = .ok users

/-- What is left of the system after both lists are looked up. -/
def afterLists (w : W) : W := (system.users none (system.listValidShells w).2).2

/-- No call failed and every user with a valid shell was remediated. -/
def EveryoneRemediated (w : W) : Prop :=
  ∃ validShells users, Listed system validShells users w ∧
    ∀ outcome ∈ outcomes system validShells users (afterLists system w), outcome = .remediated (.ok .compliant)

/-- The value of a result that is an error is asked for. -/
def ReadsFailedValue (result : Except Failure Status) : Prop := ∃ what, result = .error (.exception what)

/-- The remediation reads no value of a failed result, and succeeds where everyone was remediated. -/
def ReportsTruly (w : W) : Prop :=
  ¬ ReadsFailedValue ((remediateUserHomeDirectoryPermissions system).result w) ∧
    ((remediateUserHomeDirectoryPermissions system).result w = .ok .compliant ↔ EveryoneRemediated system w)

/-- No remediation of permissions fails, and where one is not compliant a call for a later user fails. -/
def NoneHidden (w : W) : Prop :=
  ∀ validShells users, Listed system validShells users w →
    (∀ e, .remediated (.error e) ∉ outcomes system validShells users (afterLists system w)) ∧
      (.failed ∈ outcomes system validShells users (afterLists system w) ∨
        ∀ outcome ∈ outcomes system validShells users (afterLists system w), outcome = .remediated (.ok .compliant))

end Outcomes

section Runs

variable {system : System W} {s : ProcedureRun W} {pwd : Passwd}

/-- A computation that ends with an error. -/
def Fails {α : Type} (m : ProcedureM W α) (s : ProcedureRun W) : Prop := ∃ e t, m s = .error (.error e) t

theorem Fails.bind {α β : Type} {m : ProcedureM W α} {f : α → ProcedureM W β} {a : α} {t : ProcedureRun W}
    (hm : m s = .ok a t) (h : Fails (f a) t) : Fails (m >>= f) s := by
  obtain ⟨e, u, hrun⟩ := h
  exact ⟨e, u, by rw [bind_run_ok f hm, hrun]⟩

theorem ofExcept_error {α : Type} (e : Error) : ProcedureM.ofExcept (.error e : Except Error α) s = .error (.error e) s := rfl

theorem ofExcept_ok {α : Type} (a : α) : ProcedureM.ofExcept (.ok a) s = .ok a s := rfl

variable (system) in
theorem homeParams_run (pwd : Passwd) (s : ProcedureRun W) :
    match grouped system pwd s.context with
    | (some params, w) => homeParams system pwd s = .ok params { s with context := w }
    | (none, _) => Fails (homeParams system pwd) s := by
  rw [grouped, homeParams]
  cases hknown : (system.getgrgid pwd.gid s.context).1 with
  | false =>
    simp only [hknown, Bool.false_eq_true, if_false]
    refine Fails.bind (call_run _ _) ?_
    rw [hknown]
    exact ⟨_, _, rfl⟩
  | true =>
    simp only [hknown, if_true]
    cases hname : system.makePattern pwd.name with
    | error e =>
      refine Fails.bind (call_run _ _) ?_
      rw [hknown]
      exact ⟨e, _, bind_run_error _ (ofExcept_error e)⟩
    | ok _ =>
      cases hgroup : system.makePattern (system.groupName (system.getgrgid pwd.gid s.context).2) with
      | error e =>
        refine Fails.bind (call_run _ _) ?_
        rw [hknown]
        refine Fails.bind (ofExcept_ok _) (Fails.bind (read_run _ _) ?_)
        dsimp only
        rw [hgroup]
        exact ⟨e, _, bind_run_error _ (ofExcept_error e)⟩
      | ok _ =>
        rw [bind_run_ok _ (call_run _ _), hknown]
        dsimp only
        rw [bind_run_ok _ (ofExcept_ok _), bind_run_ok _ (read_run _ _)]
        dsimp only
        rw [hgroup, bind_run_ok _ (ofExcept_ok _)]
        rfl

/-- What follows the preparation of a home directory: an error, or the remediation of its permissions, which leaves the
status as it is unless it asks for the value of an error. -/
def Follows (system : System W) (result : Status) (preparation : Option FilePermissionsParams × W) (m : ProcedureM W Status)
    (s : ProcedureRun W) : Prop :=
  match preparation with
  | (none, _) => Fails m s
  | (some params, w) =>
    match (system.remediateFilePermissions params w).result with
    | .error _ => ∃ what t, m s = .error (.exception what) t
    | .ok _ => ∃ t, m s = .ok result t ∧ t.context = (system.remediateFilePermissions params w).context

theorem Follows.bind {α : Type} {result : Status} {preparation : Option FilePermissionsParams × W} {m : ProcedureM W α}
    {f : α → ProcedureM W Status} {a : α} {t : ProcedureRun W} (hm : m s = .ok a t)
    (h : Follows system result preparation (f a) t) : Follows system result preparation (m >>= f) s := by
  unfold Follows Fails at *
  rwa [bind_run_ok f hm]

theorem Follows.fails {result : Status} {m : ProcedureM W Status} {w : W} (h : Fails m s) :
    Follows system result (none, w) m s := h

theorem checkInside_run (name : Bytes) (nested : W → CheckOutcome W) (s : ProcedureRun W) :
    ∃ t, ProcedureM.checkInside name nested s = .ok (nested s.context).result t ∧
      t.context = (nested s.context).context := by
  have hcheck : ProcedureM.check nested { s with ops := s.ops ++ [.push name] } = .ok (nested s.context).result
      { context := (nested s.context).context
        ops := s.ops ++ [.push name] ++ (nested s.context).indicators.map fun i => .addIndicator i.message i.status
        checks := s.checks ++ [(nested s.context).result] } := rfl
  have hpush : ProcedureM.perform (.push name) s = .ok () { s with ops := s.ops ++ [.push name] } := rfl
  rw [ProcedureM.checkInside, bind_run_ok _ hpush, bind_run_ok _ hcheck]
  cases (nested s.context).result with
  | error e => exact ⟨_, rfl, rfl⟩
  | ok status => exact ⟨_, rfl, rfl⟩

theorem remediateHome_run (result : Status) (pwd : Passwd) (s : ProcedureRun W) :
    Follows system result (grouped system pwd s.context) (remediateHome system result pwd) s := by
  have hparams := homeParams_run system pwd s
  rw [remediateHome]
  cases hgrouped : grouped system pwd s.context with
  | mk found w =>
    rw [hgrouped] at hparams
    cases found with
    | none =>
      obtain ⟨e, t, hrun⟩ := hparams
      exact ⟨e, t, bind_run_error _ hrun⟩
    | some params =>
      obtain ⟨t, hcheck, hcontext⟩ := checkInside_run (utf8 "EnsureFilePermissions")
        (system.remediateFilePermissions params) { s with context := w }
      refine Follows.bind hparams (Follows.bind hcheck ?_)
      dsimp only [Follows]
      cases (system.remediateFilePermissions params w).result with
      | error e => exact ⟨_, _, rfl⟩
      | ok status => exact ⟨t, rfl, hcontext⟩

variable (system) in
/-- One user with a valid shell. -/
theorem remediateUser_run {validShells : List Bytes} (result : Status) (h : pwd.shell ∈ validShells) (s : ProcedureRun W) :
    Follows system result (prepared system pwd s.context) (remediateUser system validShells result pwd) s := by
  rw [prepared, remediateUser, if_neg (not_not_intro h)]
  refine Follows.bind (call_run _ _) ?_
  cases hfound : (system.stat pwd.dir s.context).1 with
  | true =>
    simp only [hfound, if_true]
    exact remediateHome_run result pwd { s with context := (system.stat pwd.dir s.context).2 }
  | false =>
    simp only [hfound, Bool.false_eq_true, if_false]
    refine Follows.bind (read_run _ _) ?_
    dsimp only
    by_cases hmissing : system.errno (system.stat pwd.dir s.context).2 = ENOENT
    · rw [if_pos hmissing, if_pos hmissing]
      refine Follows.bind (call_run _ _) ?_
      cases hmade : (system.mkdir pwd.dir 0o750 (system.stat pwd.dir s.context).2).1 with
      | true =>
        simp only [if_true]
        exact remediateHome_run result pwd
          { s with context := (system.mkdir pwd.dir 0o750 (system.stat pwd.dir s.context).2).2 }
      | false =>
        simp only [Bool.false_eq_true, if_false]
        exact ⟨_, _, rfl⟩
    · rw [if_neg hmissing, if_neg hmissing]
      exact ⟨_, _, rfl⟩

variable (system) in
/-- How the loop over the users ends: with the status as it was, or as the last outcome makes it. -/
theorem foldlM_run (validShells : List Bytes) (users : List Passwd) (result : Status) (s : ProcedureRun W) :
    (.failed ∈ outcomes system validShells users s.context ∧
        (∀ e, .remediated (.error e) ∉ outcomes system validShells users s.context) ∧
        Fails (users.foldlM (remediateUser system validShells) result) s) ∨
      ((∃ e, .remediated (.error e) ∈ outcomes system validShells users s.context) ∧
        .failed ∉ outcomes system validShells users s.context ∧
        ∃ what t, users.foldlM (remediateUser system validShells) result s = .error (.exception what) t) ∨
      ((∀ outcome ∈ outcomes system validShells users s.context, ∃ status, outcome = .remediated (.ok status)) ∧
        ∃ t, users.foldlM (remediateUser system validShells) result s = .ok result t) := by
  induction users generalizing s with
  | nil => exact .inr (.inr ⟨List.forall_mem_nil _, s, rfl⟩)
  | cons pwd users ih =>
    rw [List.foldlM_cons, outcomes]
    by_cases hshell : pwd.shell ∈ validShells
    · have hrun := remediateUser_run system result hshell s
      rw [if_neg (not_not_intro hshell)]
      cases hprepared : prepared system pwd s.context with
      | mk found w =>
        rw [hprepared] at hrun
        cases found with
        | none =>
          obtain ⟨e, t, hfails⟩ := hrun
          exact .inl ⟨List.mem_singleton_self _, fun e h => (nomatch List.mem_singleton.mp h), e, t, bind_run_error _ hfails⟩
        | some params =>
          dsimp only [Follows] at hrun ⊢
          cases hresult : (system.remediateFilePermissions params w).result with
          | error e =>
            rw [hresult] at hrun
            obtain ⟨what, t, hthrows⟩ := hrun
            exact .inr (.inl ⟨⟨e, List.mem_singleton_self _⟩, fun h => (nomatch List.mem_singleton.mp h), what, t,
              bind_run_error _ hthrows⟩)
          | ok status =>
            rw [hresult] at hrun
            obtain ⟨t, hreturns, hcontext⟩ := hrun
            have hmore := ih t
            rw [hcontext] at hmore
            dsimp only
            rw [bind_run_ok _ hreturns]
            rcases hmore with ⟨hfailed, herror, hfails⟩ | ⟨⟨e, he⟩, hfailed, hthrows⟩ | ⟨hall, hok⟩
            · refine .inl ⟨List.mem_cons_of_mem _ hfailed, fun e he => ?_, Fails.bind hreturns hfails⟩
              exact (List.mem_cons.mp he).elim (nomatch ·) (herror e)
            · refine .inr (.inl ⟨⟨e, List.mem_cons_of_mem _ he⟩, fun h => ?_, hthrows⟩)
              exact (List.mem_cons.mp h).elim (nomatch ·) hfailed
            · exact .inr (.inr ⟨List.forall_mem_cons.mpr ⟨⟨status, rfl⟩, hall⟩, hok⟩)
    · rw [if_pos hshell]
      have hskip : remediateUser system validShells result pwd s = .ok result s := by
        rw [remediateUser, if_pos hshell]
        rfl
      rw [bind_run_ok _ hskip, Fails, bind_run_ok _ hskip]
      exact ih s

end Runs

section AllUsers

variable (system : System W) (w : W)

theorem remediate_eq {validShells : List Bytes} {users : List Passwd} (h : Listed system validShells users w) :
    remediateUserHomeDirectoryPermissions system { context := w } =
      users.foldlM (remediateUser system validShells) .compliant { context := afterLists system w } := by
  rw [remediateUserHomeDirectoryPermissions, forEachUser, bind_run_ok _ (call_run _ _)]
  dsimp only
  rw [h.1, bind_run_ok _ (ofExcept_ok _), bind_run_ok _ (call_run _ _)]
  dsimp only
  rw [h.2, bind_run_ok _ (ofExcept_ok _)]
  rfl

theorem remediate_unlisted (h : ∀ validShells users, ¬ Listed system validShells users w) :
    ∃ e, (remediateUserHomeDirectoryPermissions system).result w = .error (.error e) := by
  rw [ProcedureM.result, remediateUserHomeDirectoryPermissions, forEachUser, bind_run_ok _ (call_run _ _)]
  dsimp only
  cases hshells : (system.listValidShells w).1 with
  | error e => exact ⟨e, by rw [bind_run_error _ (ofExcept_error e)]⟩
  | ok validShells =>
    rw [bind_run_ok _ (ofExcept_ok _), bind_run_ok _ (call_run _ _)]
    dsimp only
    cases husers : (system.users none (system.listValidShells w).2).1 with
    | error e => exact ⟨e, by rw [bind_run_error _ (ofExcept_error e)]⟩
    | ok users => exact absurd ⟨hshells, husers⟩ (h validShells users)

theorem result_of_ok {α : Type} {m : ProcedureM W α} {a : α} (h : ∃ t, m { context := w } = .ok a t) :
    m.result w = .ok a := by
  obtain ⟨t, hrun⟩ := h
  rw [ProcedureM.result, hrun]

theorem result_of_error {α : Type} {m : ProcedureM W α} {failure : Failure}
    (h : ∃ t, m { context := w } = .error failure t) : m.result w = .error failure := by
  obtain ⟨t, hrun⟩ := h
  rw [ProcedureM.result, hrun]

theorem everyoneRemediated_iff {validShells : List Bytes} {users : List Passwd} (h : Listed system validShells users w) :
    EveryoneRemediated system w ↔
      ∀ outcome ∈ outcomes system validShells users (afterLists system w), outcome = .remediated (.ok .compliant) := by
  constructor
  · rintro ⟨validShells', users', hlisted, hall⟩
    cases h.1.symm.trans hlisted.1
    cases h.2.symm.trans hlisted.2
    exact hall
  · exact fun hall => ⟨validShells, users, h, hall⟩

theorem noneHidden_iff {validShells : List Bytes} {users : List Passwd} (h : Listed system validShells users w) :
    NoneHidden system w ↔
      (∀ e, .remediated (.error e) ∉ outcomes system validShells users (afterLists system w)) ∧
        (.failed ∈ outcomes system validShells users (afterLists system w) ∨
          ∀ outcome ∈ outcomes system validShells users (afterLists system w), outcome = .remediated (.ok .compliant)) := by
  constructor
  · exact fun hnone => hnone validShells users h
  · intro hnone validShells' users' hlisted
    cases h.1.symm.trans hlisted.1
    cases h.2.symm.trans hlisted.2
    exact hnone

/-- The remediation reports truly exactly where no remediation of permissions fails, and one that is not compliant is
followed by a failure. -/
theorem reportsTruly_iff : ReportsTruly system w ↔ NoneHidden system w := by
  by_cases hlists : ∃ validShells users, Listed system validShells users w
  · obtain ⟨validShells, users, hlisted⟩ := hlists
    have hrun := remediate_eq system w hlisted
    rw [ReportsTruly, everyoneRemediated_iff system w hlisted, noneHidden_iff system w hlisted]
    rcases foldlM_run system validShells users .compliant { context := afterLists system w } with
      ⟨hfailed, herror, e, t, hfails⟩ | ⟨⟨e, he⟩, hfailed, what, t, hthrows⟩ | ⟨hall, t, hok⟩
    · rw [result_of_error w ⟨t, hrun.trans hfails⟩]
      refine iff_of_true ⟨?_, iff_of_false (nomatch ·) fun hall => ?_⟩ ⟨herror, .inl hfailed⟩
      · rintro ⟨what, h⟩
        cases h
      · cases hall _ hfailed
    · rw [result_of_error w ⟨t, hrun.trans hthrows⟩]
      exact iff_of_false (fun h => h.1 ⟨what, rfl⟩) fun h => h.1 e he
    · rw [result_of_ok w ⟨t, hrun.trans hok⟩]
      have herror : ∀ e, UserOutcome.remediated (.error e) ∉ outcomes system validShells users (afterLists system w) := by
        intro e he
        obtain ⟨status, h⟩ := hall _ he
        cases h
      have hfailed : UserOutcome.failed ∉ outcomes system validShells users (afterLists system w) := by
        intro h
        obtain ⟨status, h⟩ := hall _ h
        cases h
      have hreads : ¬ ReadsFailedValue (.ok .compliant) := by
        rintro ⟨what, h⟩
        cases h
      rw [and_iff_right hreads, iff_true_left rfl, and_iff_right herror, or_iff_right hfailed]
  · have hnone : ∀ validShells users, ¬ Listed system validShells users w :=
      fun validShells users h => hlists ⟨validShells, users, h⟩
    obtain ⟨e, hresult⟩ := remediate_unlisted system w hnone
    rw [ReportsTruly, hresult]
    refine iff_of_true ⟨?_, iff_of_false (nomatch ·) ?_⟩ fun validShells users h => absurd h (hnone _ _)
    · rintro ⟨what, h⟩
      cases h
    · rintro ⟨validShells, users, h, -⟩
      exact hnone _ _ h

/-- A user whose home directory is a symbolic link, which the remediation of its permissions refuses. -/
def linkedHome : System Unit where
  listValidShells _ := (.ok [utf8 "/bin/sh"], ())
  users _ _ := (.ok [{ name := utf8 "ann", uid := 1000, gid := 1000, dir := utf8 "/home/ann", shell := utf8 "/bin/sh" }], ())
  specialFilePath path _ := (path, ())
  getgrgid _ _ := (true, ())
  groupName _ := utf8 "ann"
  stat _ _ := (true, ())
  mkdir _ _ _ := (true, ())
  opendir _ _ := (none, ())
  lstat _ _ := (none, ())
  errno _ := 0
  strerror _ := []
  makePattern _ := .ok ()
  fnmatchCaseFold _ _ := false
  auditFilePermissions _ _ := { result := .ok .nonCompliant, context := () }
  remediateFilePermissions _ _ := { result := .ok .nonCompliant, context := () }

theorem linkedHome_hidden : ¬ ReportsTruly linkedHome () := by
  intro h
  have hcompliant : (remediateUserHomeDirectoryPermissions linkedHome).result () = .ok .compliant := rfl
  obtain ⟨validShells, users, ⟨hshells, husers⟩, hall⟩ := h.2.mp hcompliant
  cases hshells
  cases husers
  have hone := hall (.remediated (.ok .nonCompliant)) (List.mem_singleton_self _)
  cases hone

end AllUsers

end Kompli.UserHomeDirectoryPermissions
