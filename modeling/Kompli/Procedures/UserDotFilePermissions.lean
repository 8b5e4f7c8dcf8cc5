import Kompli.Procedures.FileTreeWalk

/-! The audit of the dot files in users' home directories. -/
namespace Kompli.UserDotFilePermissions
open Foundation

variable {W : Type} (system : System W)

/-- The name of the group is read anew: a nested check overwrites the record it is in. -/
def checkFile (pwd : Passwd) (path : Bytes) (mask : Nat) (result : Status) : ProcedureM W Status := do
  let groupName ← ProcedureM.read system.groupName
  ProcedureM.ofExcept (system.makePattern groupName)
  ProcedureM.ofExcept (system.makePattern pwd.name)
  let params := { path, owner := some [pwd.name], group := some [groupName], mask := some mask }
  match ← ProcedureM.checkInside (utf8 "AuditFilePermissions") (system.auditFilePermissions params) with
  | .error e => ProcedureM.fail e
  | .ok .nonCompliant => pure .nonCompliant
  | .ok _ => pure result

def ftwCallback (pwd : Passwd) : FileTreeWalk.FtwCallback W := fun directory filename st =>
  if ! st.isRegular then pure .compliant
  else if filename.head? ≠ some 0x2E then pure .compliant
  else if filename = utf8 ".forward" ∨ filename = utf8 ".rhosts" then
    ProcedureM.addIndicator (utf8 "'" ++ filename ++ utf8 "' exists in home directory '" ++ pwd.dir ++ utf8 "'")
      .nonCompliant
  else do
    let path := directory ++ utf8 "/" ++ filename
    let result ← (if filename = utf8 ".netrc" then checkFile system pwd path 0o177 .compliant
      else pure .compliant)
    let result ← (if filename = utf8 ".bash_history" then checkFile system pwd path 0o177 result
      else pure result)
    checkFile system pwd path 0o133 result

def auditUser (validShells : List Bytes) (status : Status) (pwd : Passwd) : ProcedureM W Status := do
  if pwd.shell ∉ validShells then pure status
  else do
    match ← ProcedureM.call (system.getgrgid pwd.gid) with
    | false => do
      let errno ← ProcedureM.read system.errno
      ProcedureM.fail
        { message := utf8 "Failed to get group for user: " ++ system.strerror errno, code := errno }
    | true => do
      let walked ← (fileTreeWalk system pwd.dir (ftwCallback system pwd) true).attempt
      match walked with
      | .error _ => pure .nonCompliant
      | .ok .nonCompliant => pure .nonCompliant
      | .ok _ => pure status

def auditUserDotFilePermissions : ProcedureM W Status := do
  let validShells ← ProcedureM.ofExcept (← ProcedureM.call system.listValidShells)
  let users ← ProcedureM.ofExcept (← ProcedureM.call (system.users none))
  users.foldlM (auditUser system validShells) .compliant

private theorem checkFile_accounts (pwd : Passwd) (path : Bytes) (mask : Nat) (result : Status) :
    Evolves Accounts (checkFile system pwd path mask result) := by
  unfold checkFile
  refine Accounts.bind (Accounts.read _) fun groupName => ?_
  refine Accounts.bind (Accounts.ofExcept _) fun _ => ?_
  refine Accounts.bind (Accounts.ofExcept _) fun _ => ?_
  refine Accounts.bind (Accounts.checkInside _ _) fun subResult => ?_
  split
  · exact Accounts.fail _
  · exact Accounts.pure _
  · exact Accounts.pure _

private theorem ftwCallback_accounts (pwd : Passwd) (directory filename : Bytes) (st : FileStat) :
    Evolves Accounts (ftwCallback system pwd directory filename st) := by
  unfold ftwCallback
  split
  · exact Accounts.pure _
  split
  · exact Accounts.pure _
  split
  · exact Accounts.addIndicator _ _
  refine Accounts.bind ?_ fun result => Accounts.bind ?_ fun result => checkFile_accounts system _ _ _ _
  · split
    · exact checkFile_accounts system _ _ _ _
    · exact Accounts.pure _
  · split
    · exact checkFile_accounts system _ _ _ _
    · exact Accounts.pure _

theorem auditUserDotFilePermissions_accounts :
    Evolves Accounts (auditUserDotFilePermissions system) := by
  unfold auditUserDotFilePermissions
  refine Accounts.bind (Accounts.call _) fun validShells => ?_
  refine Accounts.bind (Accounts.ofExcept _) fun validShells => ?_
  refine Accounts.bind (Accounts.call _) fun users => ?_
  refine Accounts.bind (Accounts.ofExcept _) fun users => Accounts.foldlM (fun status pwd => ?_) users _
  unfold auditUser
  split
  · exact Accounts.pure _
  refine Accounts.bind (Accounts.call _) fun found => ?_
  cases found with
  | false => exact Accounts.bind (Accounts.read _) fun _ => Accounts.fail _
  | true =>
    have hwalk := FileTreeWalk.fileTreeWalk_accounts system true
      (ftwCallback_accounts system pwd) pwd.dir
    refine Accounts.bind (Accounts.attempt hwalk) fun walked => ?_
    split <;> exact Accounts.pure _

end Kompli.UserDotFilePermissions
