import Kompli.Procedures.FileTreeWalk

/-! The permissions of log files. -/
namespace Kompli.LogFilePermissions
open Foundation

variable {W : Type}

structure PermissionArgs where
  owner : Option (List Bytes) := none
  group : Option (List Bytes) := none
  mask : Nat

def rootArgs : PermissionArgs :=
  { owner := some [utf8 "root"], group := some [utf8 "root", utf8 "utmp"], mask := 0o113 }

def cloudArgs : PermissionArgs :=
  { owner := some [utf8 "root", utf8 "syslog"], group := some [utf8 "root", utf8 "adm"], mask := 0o133 }

def defaultLogfileArgs : PermissionArgs :=
  { owner := some [utf8 "root", utf8 "syslog"], group := some [utf8 "root", utf8 "adm"], mask := 0o137 }

def sssdArgs : PermissionArgs :=
  { owner := some [utf8 "root", utf8 "SSSD"], group := some [utf8 "root", utf8 "SSSD"], mask := 0o117 }

def gdmArgs : PermissionArgs :=
  { owner := some [utf8 "root"], group := some [utf8 "root", utf8 "gdm", utf8 "gdm3"], mask := 0o117 }

def journalArgs : PermissionArgs :=
  { owner := some [utf8 "root"], group := some [utf8 "root", utf8 "systemd-journal"], mask := 0o137 }

/-- A map: the patterns are tried in the order of their bytes. -/
def logfilePatterns : ByteMap PermissionArgs := .ofList
  [(utf8 "lastlog", rootArgs), (utf8 "lastlog.*", rootArgs), (utf8 "wtmp", rootArgs),
    (utf8 "wtmp.*", rootArgs), (utf8 "wtmp-*", rootArgs), (utf8 "btmp", rootArgs),
    (utf8 "btmp.*", rootArgs), (utf8 "btmp-*", rootArgs), (utf8 "README", rootArgs),
    (utf8 "cloud-init.log*", cloudArgs), (utf8 "localmessages*", cloudArgs),
    (utf8 "waagent.log*", cloudArgs), (utf8 "secure\x7b,*.*,.*,-*\x7d", defaultLogfileArgs),
    (utf8 "auth.log", defaultLogfileArgs), (utf8 "syslog", defaultLogfileArgs),
    (utf8 "messages", defaultLogfileArgs), (utf8 "sssd", sssdArgs), (utf8 "SSSD", sssdArgs),
    (utf8 "gdm", gdmArgs), (utf8 "gdm3", gdmArgs), (utf8 "*.journal", journalArgs),
    (utf8 "*.journal~", journalArgs)]

def getFilePermissionsParams (filename : Bytes) (args : PermissionArgs) : FilePermissionsParams :=
  { path := filename, owner := args.owner, group := args.group, mask := some args.mask }

section
variable (system : System W)

/-- The uids of root and of the accounts without a valid shell. -/
def buildDaemonUidSet : ProcedureM W (List Nat) := do
  let validShells ← ProcedureM.ofExcept (← ProcedureM.call system.listValidShells)
  let passwd ← ProcedureM.call (system.specialFilePath (utf8 "/etc/passwd"))
  let users ← ProcedureM.ofExcept (← ProcedureM.call (system.users (some passwd)))
  pure ((users.filter fun user => user.name = utf8 "root" ∨ user.shell ∉ validShells).map (·.uid))

def getDefaultFilePermissionArgs (fullPath : Bytes) (statInfo : FileStat) (daemonUids : List Nat)
    (remediate : Bool) : FilePermissionsParams :=
  if ¬ remediate ∧ statInfo.uid ∈ daemonUids then getFilePermissionsParams fullPath { mask := 0o137 }
  else getFilePermissionsParams fullPath defaultLogfileArgs

def getFilePermissionArgs (filename fullPath : Bytes) (statInfo : FileStat) (daemonUids : List Nat)
    (remediate : Bool) : FilePermissionsParams :=
  if utf8 "/apt/" ++ filename <:+ fullPath then
    getFilePermissionsParams fullPath
      { owner := some [utf8 "root"], group := some [utf8 "root", utf8 "adm"], mask := 0o133 }
  else
    match logfilePatterns.toList.find? fun pattern => system.fnmatchCaseFold pattern.1 filename with
    | some pattern => getFilePermissionsParams fullPath pattern.2
    | none => getDefaultFilePermissionArgs fullPath statInfo daemonUids remediate

def processLogfile (path filename : Bytes) (statInfo : FileStat) (daemonUids : List Nat)
    (remediate : Bool) : ProcedureM W Status :=
  if statInfo.isDirectory then pure .compliant
  else if statInfo.isLink then pure .compliant
  else if ! statInfo.isRegular then pure .compliant
  else do
    let fullPath := path ++ utf8 "/" ++ filename
    let params := getFilePermissionArgs system filename fullPath statInfo daemonUids remediate
    let nested := if remediate then system.remediateFilePermissions params
      else system.auditFilePermissions params
    match ← ProcedureM.checkInside (utf8 "FilePermissionsCheck for " ++ fullPath) nested with
    | .error e => ProcedureM.fail e
    | .ok status => if status ≠ .compliant then pure .nonCompliant else pure status

/-- The audit and the remediation, which differ in the nested check and in what they report. -/
def walkLogFiles (path : Bytes) (remediate : Bool) (compliant nonCompliant : Bytes) :
    ProcedureM W Status := do
  let daemonUids ← buildDaemonUidSet system
  let callback := fun dirPath filename statInfo =>
    processLogfile system dirPath filename statInfo daemonUids remediate
  let result ← fileTreeWalk system path callback false
  if result = .compliant then ProcedureM.addIndicator compliant .compliant
  else ProcedureM.addIndicator nonCompliant .nonCompliant

def auditLogFilePermissions (path : Bytes) : ProcedureM W Status :=
  walkLogFiles system path false
    (utf8 "All logfiles in " ++ path ++ utf8 " have correct access permissions")
    (utf8 "One or more logfiles in " ++ path ++ utf8 " have incorrect access permissions")

def remediateLogFilePermissions (path : Bytes) : ProcedureM W Status :=
  walkLogFiles system path true
    (utf8 "Successfully set correct access permissions for all logfiles in " ++ path)
    (utf8 "Failed to set correct access permissions for one or more logfiles in " ++ path)

private theorem processLogfile_accounts (daemonUids : List Nat) (remediate : Bool) (path filename : Bytes)
    (statInfo : FileStat) :
    Evolves Accounts (processLogfile system path filename statInfo daemonUids remediate) := by
  unfold processLogfile
  split
  · exact Accounts.pure _
  split
  · exact Accounts.pure _
  split
  · exact Accounts.pure _
  refine Accounts.bind (Accounts.checkInside _ _) fun result => ?_
  cases result with
  | error e => exact Accounts.fail e
  | ok status =>
    dsimp only
    split <;> exact Accounts.pure _

theorem walkLogFiles_accounts (path : Bytes) (remediate : Bool) (compliant nonCompliant : Bytes) :
    Evolves Accounts (walkLogFiles system path remediate compliant nonCompliant) := by
  unfold walkLogFiles
  refine Accounts.bind ?_ fun daemonUids => ?_
  · unfold buildDaemonUidSet
    refine Accounts.bind (Accounts.call _) fun _ => Accounts.bind (Accounts.ofExcept _) fun _ => ?_
    refine Accounts.bind (Accounts.call _) fun _ => Accounts.bind (Accounts.call _) fun _ => ?_
    exact Accounts.bind (Accounts.ofExcept _) fun _ => Accounts.pure _
  have hwalk := FileTreeWalk.fileTreeWalk_accounts system false
    (processLogfile_accounts system daemonUids remediate) path
  refine Accounts.bind hwalk fun result => ?_
  split <;> exact Accounts.addIndicator _ _

end
end Kompli.LogFilePermissions
