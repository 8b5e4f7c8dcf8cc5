import Kompli.AtomicFile.System

/-! A directory for temporary files, and its clean-up. The file system is a graph of inodes, a script says how each call
on it goes, and there is no other process. -/
namespace Kompli

/-- `owned` are the descriptors of the parent and of the directory, as long as it has them. -/
structure TemporaryDirectory where
  path : Bytes
  name : Bytes
  owned : Option (Nat × Nat)

namespace TemporaryDirectory
open AtomicFile (FileKind Outcome EBADF ENOTDIR ELOOP)

def EISDIR : Int := 21
def ENOTEMPTY : Int := 39
def EALREADY : Int := 114
def ESTALE : Int := 116

section System

/-- `entries` are the names in a directory and the numbers of their inodes, `target` is where a link points to. -/
structure Inode where
  kind : FileKind
  entries : List (Bytes × Nat) := []
  target : Bytes := []

def IsDots (name : Bytes) : Prop := name = utf8 "." ∨ name = utf8 ".."

instance (name : Bytes) : Decidable (IsDots name) := inferInstanceAs (Decidable (_ ∨ _))

def Inode.Empty (node : Inode) : Prop := ∀ entry ∈ node.entries, IsDots entry.1

instance (node : Inode) : Decidable node.Empty := inferInstanceAs (Decidable (∀ entry ∈ node.entries, IsDots entry.1))

/-- Only a directory has names. -/
structure FileSystem where
  inodes : Nat → Inode
  directories : ∀ d, (inodes d).kind ≠ .directory → (inodes d).entries = []

def FileSystem.remove (fs : FileSystem) (d : Nat) (name : Bytes) : FileSystem where
  inodes := fun i =>
    if i = d then { fs.inodes d with entries := (fs.inodes d).entries.filter (·.1 ≠ name) } else fs.inodes i
  directories := by
    intro i hkind
    by_cases hi : i = d
    · rw [if_pos hi] at hkind ⊢
      dsimp only
      rw [fs.directories d hkind, List.filter_nil]
    · rw [if_neg hi] at hkind ⊢
      exact fs.directories i hkind

/-- `names` are those it was opened by, one after another, from a descriptor that was there before. -/
structure Descriptor where
  inode : Nat
  names : List Bytes := []
  /-- How often it was closed. -/
  closes : Nat := 0

structure FileStat where
  inode : Nat
  kind : FileKind

def stat (i : Nat) (node : Inode) : FileStat := ⟨i, node.kind⟩

/-- A descriptor that a call is about, with its names. -/
structure Place where
  fd : Nat
  names : List Bytes

/-- What was asked of the file system, and what it answered. -/
inductive Call where
  | opened (place : Place) (name : Bytes) (answer : Except Int Nat)
  | listed (place : Place) (answer : Except Int (List Bytes))
  | read (place : Place) (answer : Except Int (Option Bytes))
  | inspected (place : Place) (name : Bytes) (answer : Except Int FileStat)
  | unlinked (place : Place) (name : Bytes) (removeDirectory : Bool) (answer : Except Int Unit)
  | examined (place : Place) (answer : Except Int FileStat)

/-- `descriptors` has every descriptor that was opened, `calls` every call with its answer. Calls beyond the end of the
script proceed. -/
structure World where
  fs : FileSystem
  /-- What a link that is followed leads to. -/
  resolve : Bytes → Option Nat := fun _ => none
  descriptors : List Descriptor := []
  script : List Outcome := []
  calls : List Call := []

abbrev SysM := EStateM Error World

namespace World

/-- The inode an open descriptor stands for. -/
def inode? (w : World) (fd : Nat) : Option Nat :=
  w.descriptors[fd]?.bind fun d => if d.closes = 0 then some d.inode else none

def place (w : World) (fd : Nat) : Place := ⟨fd, w.descriptors[fd]?.elim [] Descriptor.names⟩

/-- A directory that is open, and what a name in it refers to. -/
def lookup (w : World) (parent : Nat) (name : Bytes) : Except Int (Nat × Nat) :=
  match w.inode? parent with
  | none => .error EBADF
  | some d =>
    if (w.fs.inodes d).kind ≠ .directory then .error ENOTDIR
    else if name = utf8 "." then .ok (d, d)
    else
      match (w.fs.inodes d).entries.find? (·.1 = name) with
      | none => .error ENOENT
      | some entry => .ok (d, entry.2)

/-- The world with the next outcome taken. -/
def turn (w : World) : World := { w with script := w.script.tail }

def record (w : World) (call : Call) : World := { w with calls := w.calls ++ [call] }

end World

/-- A system call, which takes one turn of the script. -/
def takeTurn {α : Type} (effect : Outcome → World → Except Int α × World) : SysM (Except Int α) := fun w =>
  .ok (effect (w.script.head?.getD .proceed) w.turn).1 (effect (w.script.head?.getD .proceed) w.turn).2

/-- A system call that does nothing when it fails, and that is recorded with its answer. -/
def attempt {α : Type} (fd : Nat) (call : Place → Except Int α → Call) (effect : World → Except Int α × World) :
    SysM (Except Int α) := takeTurn fun outcome w =>
  let done : Except Int α × World := match outcome with
    | .fail e => (.error e, w)
    | _ => effect w
  (done.1, done.2.record (call (w.place fd) done.1))

def openDirectory (i : Nat) (names : List Bytes) (w : World) : Except Int Nat × World :=
  if (w.fs.inodes i).kind = .directory then
    (.ok w.descriptors.length, { w with descriptors := w.descriptors ++ [{ inode := i, names }] })
  else (.error ENOTDIR, w)

/-- `openat` with `O_DIRECTORY` and perhaps `O_NOFOLLOW`. -/
def openat (parent : Nat) (name : Bytes) (nofollow : Bool) : SysM (Except Int Nat) :=
  attempt parent (.opened · name) fun w =>
    let names := (w.place parent).names ++ if name = utf8 "." then [] else [name]
    match w.lookup parent name with
    | .error e => (.error e, w)
    | .ok (_, i) =>
      if (w.fs.inodes i).kind = .link ∧ ¬ nofollow then
        match w.resolve (w.fs.inodes i).target with
        | none => (.error ENOENT, w)
        | some j => openDirectory j names w
      else openDirectory i names w

/-- `fstatat` with `AT_SYMLINK_NOFOLLOW`. -/
def fstatat (parent : Nat) (name : Bytes) : SysM (Except Int FileStat) := attempt parent (.inspected · name) fun w =>
  ((w.lookup parent name).map fun found => stat found.2 (w.fs.inodes found.2), w)

def fstat (fd : Nat) : SysM (Except Int FileStat) := attempt fd .examined fun w =>
  match w.inode? fd with
  | none => (.error EBADF, w)
  | some i => (.ok (stat i (w.fs.inodes i)), w)

/-- The names that a stream of a directory gives out. -/
def fdopendir (fd : Nat) : SysM (Except Int (List Bytes)) := attempt fd .listed fun w =>
  match w.inode? fd with
  | none => (.error EBADF, w)
  | some d => (.ok ((w.fs.inodes d).entries.map Prod.fst), w)

/-- The next of the names that are left, if there is one. -/
def readdir (fd : Nat) (left : List Bytes) : SysM (Except Int (Option Bytes)) := attempt fd .read fun w =>
  (.ok left.head?, w)

/-- A descriptor is gone even when `close` or `closedir` reports an error. -/
def close (fd : Nat) : SysM (Except Int Unit) := takeTurn fun outcome w =>
  let closed := { w with descriptors := w.descriptors.modify fd fun d => { d with closes := d.closes + 1 } }
  match outcome with
  | .fail e => (.error e, closed)
  | _ => if (w.inode? fd).isSome then (.ok (), closed) else (.error EBADF, closed)

/-- `unlinkat`, perhaps with `AT_REMOVEDIR`. -/
def unlinkat (parent : Nat) (name : Bytes) (removeDirectory : Bool) : SysM (Except Int Unit) :=
  attempt parent (.unlinked · name removeDirectory) fun w =>
    if name = utf8 "." then (.error EINVAL, w)
    else
      match w.lookup parent name with
      | .error e => (.error e, w)
      | .ok (d, i) =>
        if removeDirectory then
          if (w.fs.inodes i).kind ≠ .directory then (.error ENOTDIR, w)
          else if ¬ (w.fs.inodes i).Empty then (.error ENOTEMPTY, w)
          else (.ok (), { w with fs := w.fs.remove d name })
        else if (w.fs.inodes i).kind = .directory then (.error EISDIR, w)
        else (.ok (), { w with fs := w.fs.remove d name })

end System

def maxTemporaryDirectoryDepth : Nat := 64

variable (strerror : Int → Bytes)

/-- The error of a call that failed. -/
def callError (operation : String) (path : Bytes) (status : Int) : Error where
  message := utf8 operation ++ path ++ utf8 ": " ++ strerror status
  code := status

def tooDeep (entryPath : Bytes) : Error where
  message := utf8 "Temporary directory cleanup exceeded maximum depth at " ++ entryPath
  code := ELOOP

section RemoveContents

/-- An error is met; the first is kept. -/
def keepFirst (result : Except Error Unit) (e : Error) : Except Error Unit :=
  match result with
  | .ok _ => .error e
  | .error first => .error first

/-- The end of the loop over the entries, with the `errno` of the last `readdir`. -/
def endEntries (path : Bytes) (result : Except Error Unit) (readError : Int) : Except Error Unit :=
  if readError = 0 then result
  else keepFirst result (callError strerror "Failed to enumerate temporary directory " path readError)

/-- The removal of an entry once a directory's contents are removed: that it is not there is no error. -/
def unlinkEntry (directory : Nat) (name entryPath : Bytes) (removeDirectory : Bool) (result : Except Error Unit) :
    SysM (Except Error Unit) := do
  match ← unlinkat directory name removeDirectory with
  | .ok _ => pure result
  | .error status =>
    if status = ENOENT then pure result
    else pure (keepFirst result (callError strerror "Failed to remove temporary directory entry " entryPath status))

/-- The error of what is nested is kept where there was none before. -/
def keepNested (result childResult : Except Error Unit) : Except Error Unit :=
  match result, childResult with
  | .ok _, .error e => .error e
  | _, _ => result

/-- An entry that was opened is removed, after what is in it. -/
def removeChild (removeContents : Nat → Bytes → SysM (Except Error Unit)) (directory : Nat) (name entryPath : Bytes)
    (result : Except Error Unit) (child : Nat) : SysM (Except Error Unit) := do
  let childResult ← removeContents child entryPath
  let _ ← close child
  unlinkEntry strerror directory name entryPath true (keepNested result childResult)

/-- An entry that is a directory is removed with its contents, unless it is too deep. -/
def removeDirectory (removeContents : Nat → Bytes → SysM (Except Error Unit)) (directory : Nat) (name entryPath : Bytes)
    (depth : Nat) (result : Except Error Unit) : SysM (Except Error Unit) :=
  if maxTemporaryDirectoryDepth ≤ depth then pure (keepFirst result (tooDeep entryPath))
  else do
    match ← openat directory name true with
    | .error status =>
      pure (keepFirst result (callError strerror "Failed to open temporary directory entry " entryPath status))
    | .ok child => removeChild strerror removeContents directory name entryPath result child

/-- One turn of the loop, for an entry other than `.` and `..`. -/
def removeEntry (removeContents : Nat → Bytes → SysM (Except Error Unit)) (directory : Nat) (path : Bytes)
    (depth : Nat) (name : Bytes) (result : Except Error Unit) : SysM (Except Error Unit) := do
  let entryPath := path ++ utf8 "/" ++ name
  match ← fstatat directory name with
  | .error status =>
    if status = ENOENT then pure result
    else pure (keepFirst result (callError strerror "Failed to inspect temporary directory entry " entryPath status))
  | .ok status =>
    if status.kind = .directory then removeDirectory strerror removeContents directory name entryPath depth result
    else unlinkEntry strerror directory name entryPath false result

/-- The loop over the names that are left in a stream. -/
def removeEntries (turn : Bytes → Except Error Unit → SysM (Except Error Unit)) (path : Bytes) (scan : Nat) :
    List Bytes → Except Error Unit → SysM (Except Error Unit)
  | [], result => do
    match ← readdir scan [] with
    | .error status => pure (endEntries strerror path result status)
    | .ok _ => pure (endEntries strerror path result 0)
  | name :: left, result => do
    match ← readdir scan (name :: left) with
    | .error status => pure (endEntries strerror path result status)
    | .ok none => pure (endEntries strerror path result 0)
    | .ok (some name) =>
      if IsDots name then removeEntries turn path scan left result
      else do
        let result ← turn name result
        removeEntries turn path scan left result

/-- The entries of a directory, as a stream gives them out. -/
def scanEntries (turn : Bytes → Except Error Unit → SysM (Except Error Unit)) (path : Bytes) (scan : Nat) :
    SysM (Except Error Unit) := do
  match ← fdopendir scan with
  | .error status => pure (.error (callError strerror "Failed to enumerate temporary directory " path status))
  | .ok names => removeEntries strerror turn path scan names (.ok ())

/-- `fuel` is more than the calls that can be nested. -/
def removeContents : (fuel : Nat) → (directory : Nat) → (path : Bytes) → (depth : Nat) → SysM (Except Error Unit)
  | 0, _, path, _ => pure (.error (tooDeep path))
  | fuel + 1, directory, path, depth => do
    match ← openat directory (utf8 ".") true with
    | .error status =>
      pure (.error (callError strerror "Failed to open temporary directory for cleanup at " path status))
    | .ok scan => do
      let turn := removeEntry strerror (fun child entryPath => removeContents fuel child entryPath (depth + 1))
        directory path depth
      let result ← scanEntries strerror turn path scan
      let _ ← close scan
      pure result

end RemoveContents

section Remove

/-- The loop of `Remove`, with the attempts that are left, and the result so far. -/
def removeAttempts (path name : Bytes) (parent root : Nat) : Nat → Except Error Unit → SysM (Except Error Unit)
  | 0, result => pure result
  | attempts + 1, _ => do
    match ← fstat root with
    | .error status => pure (.error (callError strerror "Failed to inspect temporary directory " path status))
    | .ok rootStatus => do
      match ← fstatat parent (cString name) with
      | .error status => pure (.error (callError strerror "Failed to inspect temporary directory entry " path status))
      | .ok entryStatus =>
        if rootStatus.inode ≠ entryStatus.inode then
          pure (.error { message := utf8 "Temporary directory entry was replaced: " ++ path, code := ESTALE })
        else do
          let contentsRemoved ← removeContents strerror (maxTemporaryDirectoryDepth + 1) root path 0
          match ← unlinkat parent (cString name) true with
          | .ok _ => pure contentsRemoved
          | .error status =>
            let result := match contentsRemoved with
              | .error e => .error e
              | .ok _ => .error (callError strerror "Failed to remove temporary directory " path status)
            if status ≠ ENOTEMPTY then pure result else removeAttempts path name parent root attempts result

def remove (t : TemporaryDirectory) : SysM (Except Error Unit × TemporaryDirectory) :=
  match t.owned with
  | none =>
    pure (.error { message := utf8 "Temporary directory removal already attempted or ownership transferred: " ++ t.path
                   code := EALREADY }, t)
  | some (parent, root) => do
    let result ← removeAttempts strerror t.path t.name parent root 2 (.ok ())
    let _ ← close root
    let _ ← close parent
    pure (result, { t with owned := none })

end Remove

end TemporaryDirectory
end Kompli
