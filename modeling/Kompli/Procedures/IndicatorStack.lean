import Kompli.Procedures.LogFilePermissions
import Kompli.Procedures.UserDotFilePermissions
import Kompli.Procedures.UserHomeDirectoryPermissions

/-! When the procedures that do nested checks leave the open nodes as they were. -/
namespace Kompli
open Foundation

variable {W : Type}

inductive NestingProcedure where
  | auditUserDotFilePermissions
  | auditLogFilePermissions (path : Bytes)
  | auditUserHomeDirectoryPermissions
  | remediateUserHomeDirectoryPermissions
  deriving DecidableEq, Repr

namespace NestingProcedure

def body (system : System W) : NestingProcedure → ProcedureM W Status
  | auditUserDotFilePermissions => UserDotFilePermissions.auditUserDotFilePermissions system
  | auditLogFilePermissions path => LogFilePermissions.auditLogFilePermissions system path
  | auditUserHomeDirectoryPermissions =>
    UserHomeDirectoryPermissions.auditUserHomeDirectoryPermissions system
  | remediateUserHomeDirectoryPermissions =>
    UserHomeDirectoryPermissions.remediateUserHomeDirectoryPermissions system

theorem body_accounts (system : System W) (procedure : NestingProcedure) :
    Evolves Accounts (procedure.body system) := by
  cases procedure with
  | auditUserDotFilePermissions =>
    exact UserDotFilePermissions.auditUserDotFilePermissions_accounts system
  | auditLogFilePermissions path =>
    exact LogFilePermissions.walkLogFiles_accounts system path _ _ _
  | auditUserHomeDirectoryPermissions =>
    exact UserHomeDirectoryPermissions.auditUserHomeDirectoryPermissions_accounts system
  | remediateUserHomeDirectoryPermissions =>
    exact UserHomeDirectoryPermissions.remediateUserHomeDirectoryPermissions_accounts system

/-- The nested checks of a run all return a status. -/
def ChecksReturn (procedure : NestingProcedure) (system : System W) (context : W) : Prop :=
  ∀ check ∈ ((procedure.body system).run context).checks, ∃ status, check = .ok status

/-- A call, as the evaluator sees it. An exception reaches a script as an error. -/
def outcome (procedure : NestingProcedure) (system : System W) (context : W) : ActionOutcome W where
  result :=
    match (procedure.body system).result context with
    | .ok status => .ok status
    | .error (.error e) => .error e
    | .error (.exception what) => .error { message := what }
  ops := ((procedure.body system).run context).ops
  context := ((procedure.body system).run context).context
  closesOwn := by
    rw [(Accounts.run_leaves (body_accounts system procedure) context).depthAfter_eq 0]
    rfl

/-- However a call ends, the stack of open nodes is what it was, and a caller that pushed a
node closes that node, exactly when no nested check failed. -/
theorem keeps_stack_iff (procedure : NestingProcedure) (system : System W) (context : W) :
    (TreeOp.KeepsStack (procedure.outcome system context).ops ↔ procedure.ChecksReturn system context) ∧
    (TreeOp.ClosesOwnNode (procedure.outcome system context).ops ↔ procedure.ChecksReturn system context) := by
  have hleaves := Accounts.run_leaves (body_accounts system procedure) context
  have hzero := failures_eq_zero_iff ((procedure.body system).run context).checks
  exact ⟨hleaves.keepsStack_iff.trans hzero, hleaves.closesOwnNode_iff.trans hzero⟩

/-- One user with one file in its home, that cannot be looked at when its turn comes. -/
private def unreadableProfile : System Unit where
  listValidShells _ := (.ok [utf8 "/bin/sh"], ())
  users _ _ := (.ok [⟨utf8 "user", 1000, 1000, utf8 "/home/user", utf8 "/bin/sh"⟩], ())
  specialFilePath path _ := (path, ())
  getgrgid _ _ := (true, ())
  groupName _ := utf8 "user"
  stat _ _ := (true, ())
  mkdir _ _ _ := (true, ())
  opendir _ _ := (some ⟨[⟨utf8 ".profile", false⟩], 0⟩, ())
  lstat _ _ := (some ⟨0o100644, 1000⟩, ())
  errno _ := 0
  strerror _ := utf8 "Success"
  makePattern _ := .ok ()
  fnmatchCaseFold _ _ := false
  auditFilePermissions _ _ := ⟨.error ⟨utf8 "Stat error 'Permission denied'", 13⟩, [], ()⟩
  remediateFilePermissions _ _ := ⟨.error ⟨utf8 "Open error 'Permission denied'", 13⟩, [], ()⟩

/-- The audit of dot files returns a status and leaves the node of the failed check open. -/
theorem userDotFiles_leaves_open :
    (auditUserDotFilePermissions.outcome unreadableProfile ()).result = .ok .nonCompliant ∧
    ¬ TreeOp.KeepsStack (auditUserDotFilePermissions.outcome unreadableProfile ()).ops ∧
    ¬ TreeOp.ClosesOwnNode (auditUserDotFilePermissions.outcome unreadableProfile ()).ops := by
  have hrun : (auditUserDotFilePermissions.outcome unreadableProfile ()).ops =
      [.push (utf8 "AuditFilePermissions")] := rfl
  have hleaves : TreeOp.Leaves [.push (utf8 "AuditFilePermissions")] 1 := .left .nil
  refine ⟨rfl, ?_, ?_⟩
  · rw [hrun, hleaves.keepsStack_iff]
    exact Nat.one_ne_zero
  · rw [hrun, hleaves.closesOwnNode_iff]
    exact Nat.one_ne_zero

end NestingProcedure
end Kompli
