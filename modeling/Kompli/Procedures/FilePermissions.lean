import Kompli.Foundation.Streams
import Kompli.Procedures.ProcedureRun

/-! The owner, the group and the mode of a file: what the audit asks for, and what the remediation sets. -/
namespace Kompli.FilePermissions
open Foundation Foundation.Streams

inductive Behavior where
  | checkIfExists
  | atLeastOneExists
  | allExist
  | anyExist
  | noneExist
  | onlyOneExists
  deriving DecidableEq, Repr

/-- `|` separated lists are split already, and of their patterns only the text is used. -/
structure Params where
  path : Bytes
  owner : Option (List Bytes) := none
  group : Option (List Bytes) := none
  groupId : Option Int32 := none
  permissions : Option UInt32 := none
  mask : Option UInt32 := none
  behavior : Behavior := .atLeastOneExists

/-- An entry of the user database or of the group database. -/
structure Account where
  name : Bytes
  id : UInt32

/-- What an inode holds of a `struct stat`. -/
structure Inode where
  mode : UInt16
  uid : UInt32
  gid : UInt32
  deriving DecidableEq

namespace Inode

def isLink (st : Inode) : Bool := st.mode &&& 0o170000 = 0o120000

/-- The set-user-ID and set-group-ID bits may be cleared. -/
def chown (st : Inode) (uid gid : UInt32) (cleared : UInt16) : Inode :=
  { mode := st.mode &&& ~~~(cleared &&& 0o6000), uid, gid }

/-- The type of a file stays. -/
def chmod (st : Inode) (mode : UInt16) : Inode :=
  { st with mode := (st.mode &&& 0o170000) ||| (mode &&& 0o7777) }

end Inode

/-- The file that the path names, the databases, and how the calls on the open descriptor end. -/
structure Host where
  users : List Account
  groups : List Account
  /-- Without following a link at the end of the path; otherwise the `errno` of looking it up. -/
  file : Except Int Inode
  /-- What `stat` finds where the file is a symbolic link. -/
  target : Except Int Inode
  openFailure : Option Int
  fstatFailure : Option Int
  chownFailure : Option Int
  /-- What a change of the owner clears of the mode. -/
  cleared : UInt16
  chmodFailure : Option Int
  /-- Whether a change of the owner or of the mode has failed. -/
  failed : Bool
  strerror : Int → Bytes

namespace Host

def stat (host : Host) : Except Int Inode :=
  match host.file with
  | .error errno => .error errno
  | .ok st => if st.isLink then host.target else .ok st

/-- `open` with `O_PATH | O_NOFOLLOW`. -/
def openPath (host : Host) : Except Int Inode :=
  match host.openFailure with
  | some errno => .error errno
  | none => host.file

/-- A change of the inode, which may fail with an `errno`. -/
def attempt (host : Host) (failure : Option Int) (change : Inode → Inode) : Option Int × Host :=
  match failure with
  | some errno => (some errno, { host with failed := true })
  | none => (none, { host with file := host.file.map change })

def chown (uid gid : UInt32) (host : Host) : Option Int × Host :=
  host.attempt host.chownFailure (·.chown uid gid host.cleared)

def chmod (mode : UInt16) (host : Host) : Option Int × Host :=
  host.attempt host.chmodFailure (·.chmod mode)

end Host

/-- `getpwuid` and `getgrgid`: the first entry with the id. -/
def nameOf (accounts : List Account) (id : UInt32) : Option Bytes :=
  (accounts.find? (·.id = id)).map (·.name)

/-- `getpwnam` and `getgrnam`. -/
def idOf (accounts : List Account) (name : Bytes) : Option UInt32 :=
  (accounts.find? (·.name = cString name)).map (·.id)

/-- The id goes by a name of the list. -/
def Listed (accounts : List Account) (id : UInt32) (items : List Bytes) : Prop :=
  ∃ name, nameOf accounts id = some name ∧ name ∈ items

instance (accounts : List Account) (id : UInt32) (items : List Bytes) : Decidable (Listed accounts id items) :=
  decidable_of_iff ((nameOf accounts id).any (· ∈ items)) (by simp [Listed, Option.any_eq_true])

def ENOTSUP : Int := 95

/-- `Separated::ToString`: the separator is left out as long as nothing is before it. -/
def separated (items : List Bytes) : Bytes :=
  items.foldl (fun text item => text ++ (if text.length > 0 then utf8 "|" else []) ++ item) []

def octal (n : Nat) : Bytes := utf8 (String.ofList (Nat.toDigits 8 n))

def displayMask : UInt16 := 0xFFF

/-- Bits that are both required and forbidden. -/
def Overlap (params : Params) : Prop :=
  ∃ permissions mask, params.permissions = some permissions ∧ params.mask = some mask ∧ permissions &&& mask ≠ 0

instance (params : Params) : Decidable (Overlap params) :=
  decidable_of_iff (params.permissions.any fun permissions => params.mask.any (permissions &&& · ≠ 0))
    (by simp [Overlap, Option.any_eq_true])

/-- What both functions refuse at once. -/
def InvalidGroupId (params : Params) : Prop :=
  ∃ groupId, params.groupId = some groupId ∧ (params.group.isSome ∨ groupId < 0)

instance (params : Params) : Decidable (InvalidGroupId params) :=
  decidable_of_iff (params.groupId.any fun groupId => params.group.isSome ∨ groupId < 0)
    (by simp [InvalidGroupId, Option.any_eq_true])

def invalidGroupId : Error := { message := utf8 "Invalid numeric group ID parameters", code := EINVAL }

def sameBits : Bytes := utf8 "Invalid permissions and mask - same bits set in both"

section Audit

/-- The next check, where this one has not returned. -/
def unlessReported {W : Type} (check : ProcedureM W (Option Status)) (next : ProcedureM W Status) :
    ProcedureM W Status := do
  match ← check with
  | some status => pure status
  | none => next

variable (params : Params) (st : Inode)

/-- Whether the name of an id is listed. -/
def auditName (accounts : Host → List Account) (what missing : Bytes) (id : UInt32) :
    Option (List Bytes) → ProcedureM Host (Option Status)
  | none => pure none
  | some items => do
    match nameOf (← ProcedureM.read accounts) id with
    | none => some <$> ProcedureM.addIndicator (missing ++ printUnsigned id.toNat) .nonCompliant
    | some name =>
      if name ∈ items then do
        let _ ← ProcedureM.addIndicator (params.path ++ utf8 " " ++ what ++ utf8 " matches expected value '" ++
          separated items ++ utf8 "'") .compliant
        pure none
      else
        some <$> ProcedureM.addIndicator (utf8 "Invalid " ++ what ++ utf8 " on '" ++ params.path ++ utf8 "' - is '" ++
          name ++ utf8 "' should be '" ++ separated items ++ utf8 "'") .nonCompliant

def auditOwner : ProcedureM Host (Option Status) :=
  auditName params (·.users) (utf8 "owner") (utf8 "No user with uid ") st.uid params.owner

def auditGroup : ProcedureM Host (Option Status) :=
  auditName params (·.groups) (utf8 "group") (utf8 "No group with gid ") st.gid params.group

/-- A check of one parameter, with what to say where the file does not meet it, and where it does. -/
def auditValue {α : Type} (value : Option α) (meets : α → Prop) [DecidablePred meets] (wrong right : α → Bytes) :
    ProcedureM Host (Option Status) :=
  match value with
  | none => pure none
  | some v =>
    if meets v then do
      let _ ← ProcedureM.addIndicator (right v) .compliant
      pure none
    else some <$> ProcedureM.addIndicator (wrong v) .nonCompliant

def auditGroupId : ProcedureM Host (Option Status) :=
  auditValue params.groupId (fun groupId => st.gid = groupId.toUInt32)
    (fun groupId => utf8 "Invalid group ID on '" ++ params.path ++ utf8 "' - is " ++ printUnsigned st.gid.toNat ++
      utf8 " should be " ++ printSigned groupId.toInt)
    fun groupId => params.path ++ utf8 " group ID matches expected value " ++ printSigned groupId.toInt

def auditOverlap : ProcedureM Host (Option Status) :=
  if Overlap params then ProcedureM.fail { message := sameBits } else pure none

def auditPermissions : ProcedureM Host (Option Status) :=
  auditValue params.permissions (fun permissions => permissions = st.mode.toUInt32 &&& permissions)
    (fun permissions => utf8 "Invalid permissions on '" ++ params.path ++ utf8 "' - are " ++
      octal (st.mode &&& displayMask).toNat ++ utf8 " should be at least " ++ octal permissions.toNat)
    fun permissions => params.path ++ utf8 " matches expected permissions " ++ octal permissions.toNat

/-- `setw(3) << setfill('0')`. -/
def padded (text : Bytes) : Bytes := .replicate (3 - text.length) 0x30 ++ text

def auditMask : ProcedureM Host (Option Status) :=
  auditValue params.mask (fun mask => st.mode.toUInt32 &&& mask = 0)
    (fun mask => utf8 "Invalid permissions on '" ++ params.path ++ utf8 "' - are " ++
      octal (st.mode &&& displayMask).toNat ++ utf8 " should be set to " ++
      padded (octal (st.mode.toUInt32 &&& ~~~mask &&& displayMask.toUInt32).toNat) ++
      utf8 " or a more restrictive value")
    fun mask => params.path ++ utf8 " mask matches expected mask " ++ octal mask.toNat

/-- The checks of a file that exists. -/
def auditInode : ProcedureM Host Status :=
  unlessReported (auditOwner params st) <|
  unlessReported (auditGroupId params st) <|
  unlessReported (auditGroup params st) <|
  unlessReported (auditOverlap params) <|
  unlessReported (auditPermissions params st) <|
  unlessReported (auditMask params st) <|
  ProcedureM.addIndicator (utf8 "File '" ++ params.path ++
    utf8 "' has correct permissions and ownership as expected") .compliant

def auditFilePermissions : ProcedureM Host Status := do
  if InvalidGroupId params then ProcedureM.fail invalidGroupId
  else
    match ← ProcedureM.read Host.stat with
    | .error errno =>
      if errno = ENOENT then
        if params.behavior = .noneExist ∨ params.behavior = .checkIfExists then
          ProcedureM.addIndicator (utf8 "File '" ++ params.path ++ utf8 "' does not exist as it should") .compliant
        else
          ProcedureM.addIndicator (utf8 "File '" ++ params.path ++ utf8 "' does not exist but it should") .nonCompliant
      else
        ProcedureM.fail { message := utf8 "Stat error '" ++ (← ProcedureM.read (·.strerror)) errno ++ utf8 "'"
                          code := errno }
    | .ok st =>
      if params.behavior = .noneExist then
        ProcedureM.addIndicator (utf8 "File '" ++ params.path ++ utf8 "' exist but it should not") .nonCompliant
      else auditInode params st

end Audit

section Remediation

variable (params : Params) (st : Inode)

/-- The id that a file is to have: its own one, if that goes by a listed name, and otherwise the one of the first
name. Nothing is returned once a status has been reported. -/
def chooseId (accounts : Host → List Account) (empty : Bytes) (unknown : Bytes → Bytes) (id : UInt32) :
    Option (List Bytes) → ProcedureM Host (Option UInt32)
  | none => pure (some id)
  | some [] => ProcedureM.fail { message := empty, code := EINVAL }
  | some (first :: rest) => do
    let accounts ← ProcedureM.read accounts
    if Listed accounts id (first :: rest) then pure (some id)
    else
      match idOf accounts first with
      | some id => pure (some id)
      | none => do
        let _ ← ProcedureM.addIndicator (unknown first) .nonCompliant
        pure none

def chooseOwner : ProcedureM Host (Option UInt32) :=
  chooseId (·.users) (utf8 "Empty list of owners provided") (fun first => utf8 "No user with name " ++ first) st.uid
    params.owner

/-- The message gives the id that the file has. -/
def chooseGroup : ProcedureM Host (Option UInt32) :=
  chooseId (·.groups) (utf8 "Empty list of groups provided")
    (fun _ => utf8 "No group with gid " ++ printUnsigned st.gid.toNat) st.gid params.group

/-- A call that returns an `errno` when it fails. -/
def change (message : Bytes) (f : Host → Option Int × Host) : ProcedureM Host Unit := do
  match ← ProcedureM.call f with
  | none => pure ()
  | some errno =>
    ProcedureM.fail { message := message ++ (← ProcedureM.read (·.strerror)) errno, code := errno }

def changeOwner (uid gid : UInt32) : ProcedureM Host Unit := do
  if uid ≠ st.uid ∨ gid ≠ st.gid then do
    change (utf8 "Chown error: ") (Host.chown uid gid)
    let _ ← ProcedureM.addIndicator (params.path ++ utf8 " owner changed to " ++ printUnsigned uid.toNat ++ utf8 ":" ++
      printUnsigned gid.toNat) .compliant
    pure ()
  else pure ()

/-- An `unsigned short`, computed from the mode before the change of the owner. -/
def newPerms : UInt16 :=
  (st.mode ||| (params.permissions.getD 0).toUInt16) &&& ~~~(params.mask.getD 0).toUInt16

def changeMode : ProcedureM Host Status := do
  if Overlap params then ProcedureM.fail { message := sameBits, code := EINVAL }
  else if newPerms params st ≠ st.mode then do
    change (utf8 "Chmod error: ") (Host.chmod (newPerms params st))
    let _ ← ProcedureM.addIndicator (params.path ++ utf8 " permissions changed to " ++
      printUnsigned (newPerms params st).toNat) .compliant
    pure .compliant
  else pure .compliant

/-- What follows the choice of an id, where there is one. -/
def withChoice (choice : ProcedureM Host (Option UInt32)) (next : UInt32 → ProcedureM Host Status) :
    ProcedureM Host Status := do
  match ← choice with
  | none => pure .nonCompliant
  | some id => next id

def remediateInode : ProcedureM Host Status :=
  withChoice (chooseOwner params st) fun uid =>
  withChoice (chooseGroup params st) fun gid => do
    changeOwner params st uid gid
    changeMode params st

/-- What is done with the open descriptor. -/
def remediateOpened : ProcedureM Host Status := do
  match ← ProcedureM.read (·.fstatFailure) with
  | some errno =>
    ProcedureM.fail { message := utf8 "Stat error '" ++ (← ProcedureM.read (·.strerror)) errno ++ utf8 "'"
                      code := errno }
  | none =>
    if st.isLink then
      ProcedureM.addIndicator (utf8 "Refusing to remediate symbolic link '" ++ params.path ++ utf8 "'") .nonCompliant
    else remediateInode params st

def remediateFilePermissions : ProcedureM Host Status := do
  if InvalidGroupId params then ProcedureM.fail invalidGroupId
  else if params.groupId.isSome then
    ProcedureM.fail { message := utf8 "Numeric group ID remediation is not supported", code := ENOTSUP }
  else
    match ← ProcedureM.read Host.openPath with
    | .error errno =>
      if errno = ENOENT then
        ProcedureM.addIndicator (utf8 "File '" ++ params.path ++ utf8 "' does not exist") .nonCompliant
      else
        ProcedureM.fail { message := utf8 "Open error '" ++ (← ProcedureM.read (·.strerror)) errno ++ utf8 "'"
                          code := errno }
    | .ok st => remediateOpened params st

end Remediation

end Kompli.FilePermissions
