import Kompli.Procedures.ProcedureRun

/-! The permissions of users' home directories. -/
namespace Kompli.UserHomeDirectoryPermissions
open Foundation

variable {W : Type} (system : System W)

/-- What a call on the home directory of a user that exists does first. -/
def homeParams (pwd : Passwd) : ProcedureM W FilePermissionsParams := do
  match ← ProcedureM.call (system.getgrgid pwd.gid) with
  | false => do
    let errno ← ProcedureM.read system.errno
    ProcedureM.fail
      { message := utf8 "Failed to get group for user: " ++ system.strerror errno, code := errno }
  | true => do
    ProcedureM.ofExcept (system.makePattern pwd.name)
    let groupName ← ProcedureM.read system.groupName
    ProcedureM.ofExcept (system.makePattern groupName)
    pure { path := pwd.dir, mask := some 0o027, owner := some [pwd.name], group := some [groupName] }

def failedToStat (status : Int) : Error :=
  { message := utf8 "Failed to stat home directory: " ++ system.strerror status, code := status }

def auditHome (result : Status) (pwd : Passwd) : ProcedureM W Status := do
  let params ← homeParams system pwd
  let nested := system.auditFilePermissions params
  match ← ProcedureM.checkInside (utf8 "EnsureFilePermissions") nested with
  | .error e => ProcedureM.fail e
  | .ok .nonCompliant =>
    ProcedureM.addIndicator (utf8 "User's '" ++ pwd.name ++ utf8 "' home directory '" ++ pwd.dir ++
      utf8 "' has incorrect permissions") .nonCompliant
  | .ok _ => pure result

def auditUser (validShells : List Bytes) (result : Status) (pwd : Passwd) : ProcedureM W Status := do
  if pwd.shell ∉ validShells then pure result
  else do
    match ← ProcedureM.call (system.stat pwd.dir) with
    | true => auditHome system result pwd
    | false => do
      let status ← ProcedureM.read system.errno
      if status = ENOENT then
        ProcedureM.addIndicator (utf8 "User's '" ++ pwd.name ++ utf8 "' home directory '" ++ pwd.dir ++
          utf8 "' does not exist") .nonCompliant
      else ProcedureM.fail (failedToStat system status)

def remediateHome (result : Status) (pwd : Passwd) : ProcedureM W Status := do
  let params ← homeParams system pwd
  let nested := system.remediateFilePermissions params
  match ← ProcedureM.checkInside (utf8 "EnsureFilePermissions") nested with
  -- the error is recorded in the result, and then its value is asked for
  | .error _ => throw (.exception (utf8 "Result: unchecked access to Value"))
  | .ok _ => pure result

def remediateUser (validShells : List Bytes) (result : Status) (pwd : Passwd) :
    ProcedureM W Status := do
  if pwd.shell ∉ validShells then pure result
  else do
    match ← ProcedureM.call (system.stat pwd.dir) with
    | true => remediateHome system result pwd
    | false => do
      let status ← ProcedureM.read system.errno
      if status = ENOENT then do
        match ← ProcedureM.call (system.mkdir pwd.dir 0o750) with
        | true => remediateHome system result pwd
        | false => do
          let status ← ProcedureM.read system.errno
          let message := utf8 "Failed to create home directory: " ++ system.strerror status
          ProcedureM.fail { message, code := status }
      else ProcedureM.fail (failedToStat system status)

/-- The audit and the remediation, which differ in what they do for a user. -/
def forEachUser (user : List Bytes → Status → Passwd → ProcedureM W Status) : ProcedureM W Status := do
  let validShells ← ProcedureM.ofExcept (← ProcedureM.call system.listValidShells)
  let users ← ProcedureM.ofExcept (← ProcedureM.call (system.users none))
  users.foldlM (user validShells) .compliant

def auditUserHomeDirectoryPermissions : ProcedureM W Status :=
  forEachUser system (auditUser system)

def remediateUserHomeDirectoryPermissions : ProcedureM W Status :=
  forEachUser system (remediateUser system)

private theorem homeParams_accounts (pwd : Passwd) : Evolves Accounts (homeParams system pwd) := by
  unfold homeParams
  refine Accounts.bind (Accounts.call _) fun found => ?_
  cases found with
  | false => exact Accounts.bind (Accounts.read _) fun _ => Accounts.fail _
  | true =>
    refine Accounts.bind (Accounts.ofExcept _) fun _ => Accounts.bind (Accounts.read _) fun _ => ?_
    exact Accounts.bind (Accounts.ofExcept _) fun _ => Accounts.pure _

private theorem auditUser_accounts (validShells : List Bytes) (result : Status) (pwd : Passwd) :
    Evolves Accounts (auditUser system validShells result pwd) := by
  unfold auditUser
  split
  · exact Accounts.pure _
  refine Accounts.bind (Accounts.call _) fun found => ?_
  cases found with
  | false =>
    refine Accounts.bind (Accounts.read _) fun status => ?_
    split
    · exact Accounts.addIndicator _ _
    · exact Accounts.fail _
  | true =>
    refine Accounts.bind (homeParams_accounts system pwd) fun params => ?_
    refine Accounts.bind (Accounts.checkInside _ _) fun subResult => ?_
    split
    · exact Accounts.fail _
    · exact Accounts.addIndicator _ _
    · exact Accounts.pure _

private theorem remediateHome_accounts (result : Status) (pwd : Passwd) :
    Evolves Accounts (remediateHome system result pwd) := by
  unfold remediateHome
  refine Accounts.bind (homeParams_accounts system pwd) fun params => ?_
  refine Accounts.bind (Accounts.checkInside _ _) fun subResult => ?_
  cases subResult with
  | error e => exact Accounts.throw _
  | ok status => exact Accounts.pure _

private theorem remediateUser_accounts (validShells : List Bytes) (result : Status) (pwd : Passwd) :
    Evolves Accounts (remediateUser system validShells result pwd) := by
  unfold remediateUser
  split
  · exact Accounts.pure _
  refine Accounts.bind (Accounts.call _) fun found => ?_
  cases found with
  | true => exact remediateHome_accounts system result pwd
  | false =>
    refine Accounts.bind (Accounts.read _) fun status => ?_
    split
    · refine Accounts.bind (Accounts.call _) fun made => ?_
      cases made with
      | true => exact remediateHome_accounts system result pwd
      | false => exact Accounts.bind (Accounts.read _) fun _ => Accounts.fail _
    · exact Accounts.fail _

private theorem forEachUser_accounts {user : List Bytes → Status → Passwd → ProcedureM W Status}
    (h : ∀ validShells result pwd, Evolves Accounts (user validShells result pwd)) :
    Evolves Accounts (forEachUser system user) := by
  unfold forEachUser
  refine Accounts.bind (Accounts.call _) fun _ => Accounts.bind (Accounts.ofExcept _) fun validShells => ?_
  refine Accounts.bind (Accounts.call _) fun _ => Accounts.bind (Accounts.ofExcept _) fun users => ?_
  exact Accounts.foldlM (h validShells) users _

theorem auditUserHomeDirectoryPermissions_accounts :
    Evolves Accounts (auditUserHomeDirectoryPermissions system) :=
  forEachUser_accounts system (auditUser_accounts system)

theorem remediateUserHomeDirectoryPermissions_accounts :
    Evolves Accounts (remediateUserHomeDirectoryPermissions system) :=
  forEachUser_accounts system (remediateUser_accounts system)

end Kompli.UserHomeDirectoryPermissions
