import Kompli.ComplianceEngine.MmiResults

/-! A file system with its descriptors, and the system calls on it. A script says how each
call goes; there is no other writer. -/
namespace Kompli.AtomicFile

def EINTR : Int := 4
def EIO : Int := 5
def EBADF : Int := 9
def EAGAIN : Int := 11
def EEXIST : Int := 17
def ENOTDIR : Int := 20
def EMLINK : Int := 31
def ELOOP : Int := 40
def ENODATA : Int := 61
def ENOTSUP : Int := 95

inductive FileKind where
  | regular
  | directory
  | link
  | other
  deriving DecidableEq, Repr

theorem nulFree_empty : ∀ name ∈ (∅ : ByteMap Bytes), NulFree name := by simp

/-- Names are C strings. -/
structure ExtendedAttributes where
  values : ByteMap Bytes := ∅
  nulFree : ∀ name ∈ values, NulFree name := by first | exact nulFree_empty | simp

namespace ExtendedAttributes

def set (attributes : ExtendedAttributes) (name value : Bytes) : ExtendedAttributes where
  values := attributes.values.insert (cString name) value
  nulFree := by
    intro other h
    rcases Std.ExtTreeMap.mem_insert.mp h with h | h
    · rw [← Std.LawfulEqCmp.eq_of_compare h]
      exact cString_nulFree name
    · exact attributes.nulFree other h

@[simp] theorem set_values (attributes : ExtendedAttributes) (name value : Bytes) :
    (attributes.set name value).values = attributes.values.insert (cString name) value := rfl

/-- What `flistxattr` fills in. -/
def nameList (attributes : ExtendedAttributes) : Bytes := attributes.values.keys.flatMap (· ++ [0])

theorem ext {a b : ExtendedAttributes} (h : a.values = b.values) : a = b := by
  cases a
  cases b
  cases h
  rfl

end ExtendedAttributes

structure Inode where
  kind : FileKind := .regular
  contents : Bytes := []
  uid : Nat
  gid : Nat
  permissions : BitVec 12
  nlink : Nat := 1
  attributes : ExtendedAttributes := {}

/-- `entries` gives the number of the inode that a name in a directory refers to, `inherited` what a new file in a
directory gets from it, such as a default access control list. -/
structure FileSystem where
  root : Nat
  inodes : Nat → Option Inode
  entries : Nat → Bytes → Option Nat
  inherited : Nat → ExtendedAttributes
  next : Nat
  fresh : ∀ i, next ≤ i → inodes i = none

structure Descriptor where
  inode : Nat
  /-- How often it was closed. -/
  closes : Nat := 0

/-- The failures of a call that the code goes on after: a name that stays, a file whose attributes are not listed. -/
inductive Failure where
  | unlinkat (directory : Nat) (name : Bytes)
  | flistxattr (inode : Nat) (errno : Int)

/-- `descriptors` has every descriptor that was opened; numbers are not used again. -/
structure Host where
  fs : FileSystem
  descriptors : List Descriptor := []
  failures : List Failure := []

/-- How a system call goes. Only `write` can be short. -/
inductive Outcome where
  | proceed
  | short (n : Nat)
  | fail (errno : Int)
  deriving DecidableEq, Repr

/-- Calls beyond the end of the script proceed. -/
structure World where
  host : Host
  script : List Outcome := []
  sequence : UInt64 := 0

structure FileStat where
  inode : Nat
  kind : FileKind
  permissions : BitVec 12
  nlink : Nat
  uid : Nat
  gid : Nat

abbrev SysM := EStateM Error World

namespace FileSystem

def modifyInode (fs : FileSystem) (i : Nat) (f : Inode → Inode) : FileSystem :=
  { fs with
    inodes := fun j => if j = i then (fs.inodes j).map f else fs.inodes j
    fresh := by
      intro j hj
      rw [fs.fresh j hj]
      split <;> rfl }

def setEntry (fs : FileSystem) (d : Nat) (name : Bytes) (target : Option Nat) : FileSystem :=
  { fs with entries := fun e n => if e = d ∧ n = name then target else fs.entries e n }

def addInode (fs : FileSystem) (node : Inode) : FileSystem :=
  { fs with
    inodes := fun j => if j = fs.next then some node else fs.inodes j
    next := fs.next + 1
    fresh := by
      intro j hj
      rw [if_neg (by omega)]
      exact fs.fresh j (by omega) }

end FileSystem

namespace Host

/-- The inode an open descriptor stands for. -/
def inode? (h : Host) (fd : Nat) : Option Nat :=
  h.descriptors[fd]?.bind fun d => if d.closes = 0 then some d.inode else none

/-- What a name refers to in the directory a descriptor stands for. -/
def lookup (h : Host) (parent : Nat) (name : Bytes) : Except Int (Nat × Inode) :=
  match h.inode? parent with
  | none => .error EBADF
  | some d =>
    match h.fs.entries d (cString name) with
    | none => .error ENOENT
    | some i =>
      match h.fs.inodes i with
      | none => .error ENOENT
      | some node => .ok (i, node)

def openInode (i : Nat) (h : Host) : Except Int Nat × Host :=
  (.ok h.descriptors.length, { h with descriptors := h.descriptors ++ [{ inode := i }] })

/-- What a descriptor of a file that exists is used for. -/
def withInode {α : Type} (fd : Nat) (use : Nat → Inode → Except Int α × FileSystem) (h : Host) :
    Except Int α × Host :=
  match h.inode? fd with
  | none => (.error EBADF, h)
  | some i =>
    match h.fs.inodes i with
    | none => (.error EBADF, h)
    | some node => ((use i node).1, { h with fs := (use i node).2 })

/-- What a new name in a directory is made of. -/
def withNewName {α : Type} (parent : Nat) (name : Bytes) (make : Nat → Except Int α × Host) (h : Host) :
    Except Int α × Host :=
  match h.inode? parent with
  | none => (.error EBADF, h)
  | some d =>
    if cString name = [] then (.error ENOENT, h)
    else if (h.fs.entries d (cString name)).isSome then (.error EEXIST, h)
    else make d

end Host

def stat (i : Nat) (node : Inode) : FileStat :=
  ⟨i, node.kind, node.permissions, node.nlink, node.uid, node.gid⟩

/-- A system call, which takes one turn of the script. -/
def syscall {α : Type} (effect : Outcome → Host → Except Int α × Host) : SysM (Except Int α) := fun w =>
  match w.script with
  | [] => .ok (effect .proceed w.host).1 { w with host := (effect .proceed w.host).2 }
  | outcome :: script =>
    .ok (effect outcome w.host).1 { w with host := (effect outcome w.host).2, script }

/-- A system call that does nothing when it fails. -/
def attempt {α : Type} (effect : Host → Except Int α × Host) : SysM (Except Int α) :=
  syscall fun outcome h =>
    match outcome with
    | .fail e => (.error e, h)
    | _ => effect h

def openRoot : SysM (Except Int Nat) := attempt fun h => h.openInode h.fs.root

/-- `openat` of a name that is there, with `O_NOFOLLOW` and perhaps `O_DIRECTORY`. -/
def openat (parent : Nat) (name : Bytes) (onlyDirectory : Bool) : SysM (Except Int Nat) := attempt fun h =>
  match h.lookup parent name with
  | .error e => (.error e, h)
  | .ok (i, node) =>
    if node.kind = .link then (.error ELOOP, h)
    else if onlyDirectory ∧ node.kind ≠ .directory then (.error ENOTDIR, h)
    else h.openInode i

/-- `openat` with `O_CREAT | O_EXCL`. -/
def openExclusive (uid gid : Nat) (parent : Nat) (name : Bytes) : SysM (Except Int Nat) := attempt fun h =>
  h.withNewName parent name fun d =>
    let node : Inode := { uid, gid, permissions := 0o600, attributes := h.fs.inherited d }
    let fs := (h.fs.addInode node).setEntry d (cString name) (some h.fs.next)
    { h with fs }.openInode h.fs.next

/-- `fstatat` with `AT_SYMLINK_NOFOLLOW`. -/
def fstatat (parent : Nat) (name : Bytes) : SysM (Except Int FileStat) := attempt fun h =>
  ((h.lookup parent name).map fun found => stat found.1 found.2, h)

def fstat (fd : Nat) : SysM (Except Int FileStat) := attempt fun h =>
  h.withInode fd fun i node => (.ok (stat i node), h.fs)

def write (fd : Nat) (contents : Bytes) : SysM (Except Int Nat) := syscall fun outcome h =>
  let append (written : Bytes) := h.withInode fd fun i _ =>
    (.ok written.length, h.fs.modifyInode i fun node => { node with contents := node.contents ++ written })
  match outcome with
  | .fail e => (.error e, h)
  | .short n => append (contents.take n)
  | .proceed => append contents

/-- A call that changes what an open file's inode says about the file. -/
def changeInode (fd : Nat) (f : Inode → Inode) : SysM (Except Int Unit) := attempt fun h =>
  h.withInode fd fun i _ => (.ok (), h.fs.modifyInode i f)

def fchmod (fd : Nat) (permissions : BitVec 12) : SysM (Except Int Unit) :=
  changeInode fd fun node => { node with permissions }

def fchown (fd uid gid : Nat) : SysM (Except Int Unit) :=
  changeInode fd fun node => { node with uid, gid }

def fsetxattr (fd : Nat) (name value : Bytes) : SysM (Except Int Unit) :=
  changeInode fd fun node => { node with attributes := node.attributes.set name value }

/-- A failure is remembered with its error. -/
def flistxattr (fd : Nat) : SysM (Except Int Bytes) := syscall fun outcome h =>
  match outcome with
  | .fail e => (.error e, { h with failures := h.failures ++ (h.inode? fd).toList.map (.flistxattr · e) })
  | _ => h.withInode fd fun _ node => (.ok node.attributes.nameList, h.fs)

def fgetxattr (fd : Nat) (name : Bytes) : SysM (Except Int Bytes) := attempt fun h =>
  h.withInode fd fun _ node =>
    match node.attributes.values[cString name]? with
    | none => (.error ENODATA, h.fs)
    | some value => (.ok value, h.fs)

def fsync (_fd : Nat) : SysM (Except Int Unit) := attempt fun h => (.ok (), h)

/-- A descriptor is gone even when `close` reports an error. -/
def close (fd : Nat) : SysM (Except Int Unit) := syscall fun outcome h =>
  let closed := { h with descriptors := h.descriptors.modify fd fun d => { d with closes := d.closes + 1 } }
  match outcome with
  | .fail e => (.error e, closed)
  | _ => if (h.inode? fd).isSome then (.ok (), closed) else (.error EBADF, closed)

/-- A failure is remembered with the name that stays. -/
def unlinkat (parent : Nat) (name : Bytes) : SysM (Except Int Unit) := syscall fun outcome h =>
  match h.inode? parent with
  | none => (.error EBADF, h)
  | some d =>
    let failed := { h with failures := h.failures ++ [.unlinkat d (cString name)] }
    match outcome with
    | .fail e => (.error e, failed)
    | _ =>
      match h.fs.entries d (cString name) with
      | none => (.error ENOENT, failed)
      | some i =>
        let fs := h.fs.modifyInode i fun node => { node with nlink := node.nlink - 1 }
        (.ok (), { h with fs := fs.setEntry d (cString name) none })

/-- `linkat` within a directory. -/
def linkat (parent : Nat) (old new : Bytes) : SysM (Except Int Unit) := attempt fun h =>
  match h.lookup parent old with
  | .error e => (.error e, h)
  | .ok (i, _) =>
    h.withNewName parent new fun d =>
      let fs := h.fs.modifyInode i fun node => { node with nlink := node.nlink + 1 }
      (.ok (), { h with fs := fs.setEntry d (cString new) (some i) })

/-- `renameat` of a regular file within a directory, onto what is no directory. -/
def renameat (parent : Nat) (old new : Bytes) : SysM (Except Int Unit) := attempt fun h =>
  match h.inode? parent, h.lookup parent old with
  | some d, .ok (i, _) =>
    if cString new = [] then (.error ENOENT, h)
    else
      let replaced := match h.fs.entries d (cString new) with
        | some j => h.fs.modifyInode j fun node => { node with nlink := node.nlink - 1 }
        | none => h.fs
      let fs := (replaced.setEntry d (cString old) none).setEntry d (cString new) (some i)
      (.ok (), { h with fs })
  | _, .error e => (.error e, h)
  | none, _ => (.error EBADF, h)

end Kompli.AtomicFile
