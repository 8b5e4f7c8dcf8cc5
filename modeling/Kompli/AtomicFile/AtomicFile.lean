import Kompli.AtomicFile.System

/-! Replacing and creating a file as a whole, through a temporary file beside it. -/
namespace Kompli.AtomicFile

structure Process where
  pid : Nat
  uid : Nat
  gid : Nat
  strerror : Int → Bytes

section
variable (process : Process)

def fileError (operation path : Bytes) (status : Int) : Error :=
  { message := operation ++ utf8 " '" ++ path ++ utf8 "': " ++ process.strerror status, code := status }

/-- The loop of `WriteContents`. A turn takes one of the script's outcomes, or writes all
that is left, so that `fuel` does not run out when it is more than the length of the script. -/
def writeLoop (fd : Nat) (path : Bytes) : (fuel : Nat) → Bytes → SysM Unit
  | 0, _ => throw (fileError process (utf8 "Failed to write replacement for") path EIO)
  | fuel + 1, rest =>
    if rest = [] then pure ()
    else do
      match ← write fd rest with
      | .error e =>
        if e = EINTR then writeLoop fd path fuel rest
        else throw (fileError process (utf8 "Failed to write replacement for") path e)
      | .ok 0 => throw (fileError process (utf8 "Failed to write replacement for") path EIO)
      | .ok (n + 1) => writeLoop fd path fuel (rest.drop (n + 1))

def writeContents (fd : Nat) (path contents : Bytes) : SysM Unit := do
  let w ← get
  writeLoop process fd path (w.script.length + 2) contents

abbrev slash : UInt8 := 0x2F

/-- The part of a path before its first slash, and the parts after the slashes. -/
def splitPath : Bytes → Bytes × List Bytes
  | [] => ([], [])
  | c :: s =>
    let (first, rest) := splitPath s
    if c = slash then ([], first :: rest) else (c :: first, rest)

/-- The components of a path that are not empty. -/
def components (s : Bytes) : List Bytes :=
  ((splitPath s).1 :: (splitPath s).2).filter (· ≠ [])

/-- What follows the last slash. -/
def lastName (path : Bytes) : Bytes := (path.reverse.takeWhile (· ≠ slash)).reverse

/-- What precedes it. -/
def parentPath (path : Bytes) : Bytes := path.take (path.length - (lastName path).length)

/-- The loop of `ResolveParentNoFollow`. -/
def walkParents (path : Bytes) : (parent : Nat) → List Bytes → SysM Nat
  | parent, [] => pure parent
  | parent, component :: rest =>
    if component = utf8 ".." then do
      let _ ← close parent
      throw { message := utf8 "Refusing parent directory traversal in '" ++ path ++ utf8 "'", code := EINVAL }
    else if component = utf8 "." then walkParents path parent rest
    else do
      match ← openat parent component true with
      | .error status => do
        let _ ← close parent
        throw (fileError process (utf8 "Failed to resolve parent directory for") path status)
      | .ok next => do
        let _ ← close parent
        walkParents path next rest

def resolveParentNoFollow (path : Bytes) : SysM (Nat × Bytes) := do
  if path.head? ≠ some slash then
    throw { message := utf8 "Atomic file operations require an absolute path", code := EINVAL }
  else if lastName path = [] ∨ lastName path = utf8 "." ∨ lastName path = utf8 ".." then
    throw { message := utf8 "Invalid atomic file path '" ++ path ++ utf8 "'", code := EINVAL }
  else do
    match ← openRoot with
    | .error e => throw (fileError process (utf8 "Failed to open parent directory for") path e)
    | .ok root => do
      let parent ← walkParents process path root (components (parentPath path))
      pure (parent, lastName path)

def decimal (n : Nat) : Bytes := utf8 (toString n)

def temporaryName (sequence : UInt64) : Bytes :=
  utf8 ".kompli." ++ decimal process.pid ++ utf8 "." ++ decimal sequence.toNat

def fetchSequence : SysM UInt64 := fun w => .ok w.sequence { w with sequence := w.sequence + 1 }

/-- `CreateTemporaryFile`, with the attempts it has left. -/
def createTemporaryFile (parent : Nat) (path : Bytes) : (attempts : Nat) → SysM (Nat × Bytes)
  | 0 => throw { message := utf8 "Failed to create a unique temporary file for '" ++ path ++ utf8 "'",
                 code := EEXIST }
  | attempts + 1 => do
    let sequence ← fetchSequence
    match ← openExclusive process.uid process.gid parent (temporaryName process sequence) with
    | .ok descriptor => pure (descriptor, temporaryName process sequence)
    | .error e =>
      if e ≠ EEXIST then throw (fileError process (utf8 "Failed to create temporary file for") path e)
      else createTemporaryFile parent path attempts

/-- `do … while (size < 0 && errno == EINTR)`: after `turns` interrupted ones, a last call. -/
def uninterrupted {α : Type} (call : SysM (Except Int α)) : (turns : Nat) → SysM (Except Int α)
  | 0 => call
  | turns + 1 => do
    match ← call with
    | .error e => if e = EINTR then uninterrupted call turns else pure (.error e)
    | .ok a => pure (.ok a)

/-- A script does not interrupt more calls than its length. -/
def retry {α : Type} (call : SysM (Except Int α)) : SysM (Except Int α) := do
  let w ← get
  uninterrupted call w.script.length

/-- The names in a list of attributes, and what follows the last NUL. -/
def attributeNames : Bytes → List Bytes × Bytes
  | [] => ([], [])
  | c :: s =>
    match attributeNames s with
    | (names, tail) =>
      if c = 0 then ([] :: names, tail)
      else
        match names with
        | [] => ([], c :: tail)
        | name :: names => ((c :: name) :: names, tail)

def attributeError (operation name path : Bytes) (status : Int) : Error :=
  fileError process
    (utf8 "Failed to " ++ operation ++ utf8 " extended attribute '" ++ name ++ utf8 "' for") path status

/-- A value that is not empty is read after its size. -/
def readAttribute (source : Nat) (name path : Bytes) (size : Nat) : SysM Bytes := do
  if size = 0 then pure []
  else do
    match ← retry (fgetxattr source name) with
    | .error e => throw (attributeError process (utf8 "read") name path e)
    | .ok value =>
      if value.length ≠ size then
        throw { message := utf8 "Extended attribute '" ++ name ++ utf8 "' changed while replacing '" ++
                  path ++ utf8 "'", code := EAGAIN }
      else pure value

def copyAttribute (source target : Nat) (path name : Bytes) : SysM Unit := do
  match ← retry (fgetxattr source name) with
  | .error e => throw (attributeError process (utf8 "inspect") name path e)
  | .ok sized => do
    let value ← readAttribute process source name path sized.length
    match ← fsetxattr target name value with
    | .error e => throw (attributeError process (utf8 "preserve") name path e)
    | .ok () => pure ()

def copyExtendedAttributes (source target : Nat) (path : Bytes) : SysM Unit := do
  match ← retry (flistxattr source) with
  | .error e =>
    if e = ENOTSUP then pure ()
    else throw (fileError process (utf8 "Failed to list extended attributes for") path e)
  | .ok sized =>
    if sized = [] then pure ()
    else do
      match ← retry (flistxattr source) with
      | .error e => throw (fileError process (utf8 "Failed to read extended attribute names for") path e)
      | .ok names => do
        (attributeNames names).1.forM (copyAttribute process source target path)
        if (attributeNames names).2 ≠ [] then
          throw { message := utf8 "Invalid extended attribute list for '" ++ path ++ utf8 "'", code := EIO }
        else pure ()

def unlinkTemporary (parent : Nat) : Option Bytes → SysM Unit
  | none => pure ()
  | some name => do
    let _ ← unlinkat parent name

/-- The clean-up of a failure: the descriptors to close, the name to remove, the parent. -/
def abandon {α : Type} (descriptors : List Nat) (name : Option Bytes) (parent : Nat) (e : Error) :
    SysM α := do
  descriptors.forM fun descriptor => do
    let _ ← close descriptor
  unlinkTemporary parent name
  let _ ← close parent
  throw e

/-- The clean-up with the error of the call that failed. -/
def fail {α : Type} (path : Bytes) (parent : Nat) (operation : String) (descriptors : List Nat)
    (name : Option Bytes) (status : Int) : SysM α :=
  abandon descriptors name parent (fileError process (utf8 operation) path status)

/-- A call whose failure ends the operation. -/
def orElse {α : Type} (call : SysM (Except Int α)) (failed : Int → SysM α) : SysM α := do
  match ← call with
  | .ok a => pure a
  | .error status => failed status

/-- A function whose failure ends the operation. -/
def orHandle {α : Type} (m : SysM α) (failed : Error → SysM α) : SysM α := fun w =>
  match m w with
  | .ok a w' => .ok a w'
  | .error e w' => failed e w'

/-- `CreateFileContentsAtomic` from the new temporary file to its inspection. -/
def fillNew (path contents : Bytes) (mode parent temporary : Nat) (temporaryName : Bytes) :
    SysM FileStat := do
  let held := [temporary]
  let remove := some temporaryName
  orElse (fchmod temporary (BitVec.ofNat 12 mode))
    (fail process path parent "Failed to set permissions for" held remove)
  orHandle (writeContents process temporary path contents) fun e =>
    fail process path parent "Failed to write replacement for" held remove e.code
  orElse (fsync temporary) (fail process path parent "Failed to flush replacement for" held remove)
  orElse (close temporary) (fail process path parent "Failed to close replacement for" [] remove)
  orElse (fstatat parent temporaryName)
    (fail process path parent "Failed to inspect temporary file for" [] remove)

/-- `CreateFileContentsAtomic` from there on. -/
def installNew (path name : Bytes) (parent : Nat) (temporaryName : Bytes) (created : FileStat) :
    SysM FileStat := do
  let remove := some temporaryName
  match ← fstatat parent name with
  | .ok _ =>
    abandon [] remove parent
      { message := utf8 "File appeared before creation '" ++ path ++ utf8 "'", code := EEXIST }
  | .error status => do
    if status ≠ ENOENT then fail process path parent "Failed to re-inspect" [] remove status
    else do
      orElse (linkat parent temporaryName name)
        (fail process path parent "Failed to create" [] remove)
      let _ ← unlinkat parent temporaryName
      let _ ← close parent
      pure created

def createFileContentsAtomic (path contents : Bytes) (mode : Nat) : SysM FileStat := do
  let (parent, name) ← resolveParentNoFollow process path
  match ← fstatat parent name with
  | .ok _ =>
    abandon [] none parent
      { message := utf8 "Refusing to replace existing file '" ++ path ++ utf8 "'", code := EEXIST }
  | .error status => do
    if status ≠ ENOENT then fail process path parent "Failed to inspect" [] none status
    else do
      let (temporary, temporaryName) ←
        orHandle (createTemporaryFile process parent path 100) (abandon [] none parent)
      let created ← fillNew process path contents mode parent temporary temporaryName
      installNew process path name parent temporaryName created

/-- `ReplaceFileContentsAtomic` from the new temporary file to its flush. -/
def fillReplacement (path contents : Bytes) (parent source temporary : Nat) (temporaryName : Bytes)
    (original : FileStat) : SysM Unit := do
  let held := [temporary, source]
  let remove := some temporaryName
  orHandle (writeContents process temporary path contents) fun e =>
    fail process path parent "Failed to write replacement for" held remove e.code
  orElse (fchown temporary original.uid original.gid)
    (fail process path parent "Failed to preserve ownership for" held remove)
  orElse (fchmod temporary original.permissions)
    (fail process path parent "Failed to preserve permissions for" held remove)
  orHandle (copyExtendedAttributes process source temporary path) (abandon held remove parent)
  orElse (fsync temporary) (fail process path parent "Failed to flush replacement for" held remove)

/-- `ReplaceFileContentsAtomic` from the flush on. -/
def installReplacement (path name : Bytes) (parent source temporary : Nat) (temporaryName : Bytes)
    (original : FileStat) : SysM Unit := do
  let remove := some temporaryName
  orElse (close source) (fail process path parent "Failed to close source for" [temporary] remove)
  orElse (close temporary) (fail process path parent "Failed to close replacement for" [] remove)
  let current ← orElse (fstatat parent name)
    (fail process path parent "Failed to re-inspect" [] remove)
  if current.inode ≠ original.inode then
    abandon [] remove parent
      { message := utf8 "File changed before replacement '" ++ path ++ utf8 "'", code := EAGAIN }
  else do
    orElse (renameat parent temporaryName name)
      (fail process path parent "Failed to replace" [] remove)
    let _ ← close parent

def replaceFileContentsAtomic (path contents : Bytes) : SysM Unit := do
  let (parent, name) ← resolveParentNoFollow process path
  let original ← orElse (fstatat parent name) (fail process path parent "Failed to inspect" [] none)
  if original.kind ≠ .regular then
    abandon [] none parent
      { message := utf8 "Refusing to replace non-regular file '" ++ path ++ utf8 "'", code := EINVAL }
  else if original.nlink ≠ 1 then
    abandon [] none parent
      { message := utf8 "Refusing to replace multiply-linked file '" ++ path ++ utf8 "'",
        code := EMLINK }
  else do
    let source ← orElse (openat parent name false)
      (fail process path parent "Failed to open" [] none)
    let opened ← orElse (fstat source)
      (fail process path parent "Failed to inspect opened file" [source] none)
    if opened.inode ≠ original.inode then
      abandon [source] none parent
        { message := utf8 "File changed while opening '" ++ path ++ utf8 "'", code := EAGAIN }
    else do
      let (temporary, temporaryName) ←
        orHandle (createTemporaryFile process parent path 100) (abandon [source] none parent)
      fillReplacement process path contents parent source temporary temporaryName original
      installReplacement process path name parent source temporary temporaryName original

end
end Kompli.AtomicFile
