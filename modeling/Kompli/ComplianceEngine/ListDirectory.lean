import Kompli.Foundation.Bytes
import Kompli.Foundation.Loop
import Mathlib.Data.List.Range

/-! The iterator of `ce.ListDirectory`: a loop over a stack of open directories that is left for each file. -/
namespace Kompli.ListDirectory
open Foundation Loop

/-- `d_type`, as far as it matters. -/
inductive EntryType where
  | directory
  | unknown
  | other
  deriving DecidableEq

structure Dirent where
  name : Bytes
  type : EntryType

/-- What `readdir` gives of a directory that has been opened, and its `errno` at the end. -/
structure DirectoryStream where
  entries : List Dirent
  endErrno : Int

/-- What the calls do: a directory is opened or not, with the `errno`; of a file it is known whether it is a directory. -/
structure System (W : Type) where
  opendir : Bytes → W → Except Int DirectoryStream × W
  lstat : Bytes → W → Option Bool × W
  fnmatch : (pattern name : Bytes) → Bool
  strerror : Int → Bytes

/-- The streams are numbered in the order in which they are opened. -/
structure Frame where
  dir : Nat
  unread : List Dirent
  endErrno : Int
  relPath : Bytes

/-- The top of the stack is its head. -/
structure ListDirState where
  basePath : Bytes
  pattern : Bytes := []
  recursive : Bool := false
  stack : List Frame := []

/-- What the script holds, and which streams have been opened and closed for it. -/
structure Script (W : Type) where
  world : W
  opened : Nat := 0
  closed : List Nat := []
  holder : Option ListDirState := none

inductive Outcome where
  | yields (path : Bytes)
  | done
  | raises (message : Bytes)

def slash : UInt8 := 0x2F

def isDots (name : Bytes) : Bool := name = utf8 "." || name = utf8 ".."

/-- The path of what is in the directory. -/
def child (relPath name : Bytes) : Bytes := if relPath = [] then name else relPath ++ slash :: name

section Iterator

variable {W : Type} (system : System W)

def closedir (frame : Frame) (s : Script W) : Script W := { s with closed := s.closed ++ [frame.dir] }

def pushDir (state : ListDirState) (relPath : Bytes) (s : Script W) : Except Int Unit × Script W :=
  let full := if relPath = [] then state.basePath else state.basePath ++ slash :: relPath
  match system.opendir full s.world with
  | (.error errno, world) => (.error errno, { s with world })
  | (.ok stream, world) =>
    let frame : Frame := { dir := s.opened, unread := stream.entries, endErrno := stream.endErrno, relPath }
    (.ok (), { s with world, opened := s.opened + 1, holder := some { state with stack := frame :: state.stack } })

def failedToOpen (path : Bytes) (errno : Int) : Bytes :=
  utf8 "ListDirectory failed to open '" ++ path ++ utf8 "': " ++ system.strerror errno

/-- Where `readdir` does not know the type, and `lstat` fails, it is no directory. -/
def entryIsDir (entry : Dirent) (full : Bytes) (s : Script W) : Bool × Script W :=
  match entry.type with
  | .directory => (true, s)
  | .other => (false, s)
  | .unknown =>
    let (isDir, world) := system.lstat full s.world
    (isDir.getD false, { s with world })

def entryTurn (state : ListDirState) (relPath : Bytes) (entry : Dirent) (s : Script W) :
    Turn (Outcome × Script W) (Script W) :=
  if isDots entry.name then .again s
  else
    let relChild := child relPath entry.name
    let full := state.basePath ++ slash :: relChild
    let (isDir, s) := entryIsDir system entry full s
    if isDir then
      if state.recursive then
        match pushDir system state relChild s with
        | (.ok (), s) => .again s
        | (.error errno, s) => .leave (.raises (failedToOpen system full errno), s)
      else .again s
    else if state.pattern = [] || system.fnmatch state.pattern entry.name then .leave (.yields relChild, s)
    else .again s

/-- One turn of the iterator's loop. -/
def iteratorTurn (s : Script W) : Turn (Outcome × Script W) (Script W) :=
  match s.holder with
  | none => .leave (.done, s)
  | some state =>
    match state.stack with
    | [] => .leave (.done, s)
    | frame :: frames =>
      match frame.unread with
      | [] =>
        let s := closedir frame { s with holder := some { state with stack := frames } }
        if frame.endErrno ≠ 0 then
          .leave (.raises (utf8 "ListDirectory iteration error: " ++ system.strerror frame.endErrno), s)
        else .again s
      | entry :: unread =>
        let state := { state with stack := { frame with unread } :: frames }
        entryTurn system state frame.relPath entry { s with holder := some state }

/-- The destructor closes the streams from the bottom of the stack. -/
def listDirectoryGC (s : Script W) : Script W :=
  match s.holder with
  | none => s
  | some state => { s with holder := none, closed := s.closed ++ (state.stack.map Frame.dir).reverse }

def luaListDirectory (path : CString) (pattern : Option CString) (recursive : Option Bool) (s : Script W) :
    Except Bytes Unit × Script W :=
  let state : ListDirState :=
    { basePath := path.val, pattern := pattern.elim [] Subtype.val, recursive := recursive.getD false }
  match pushDir system state [] { s with holder := some state } with
  | (.ok (), s) => (.ok (), s)
  | (.error errno, s) => (.error (failedToOpen system path.val errno), listDirectoryGC s)

end Iterator

section Closing

variable {W : Type} {system : System W} {s t : Script W}

/-- What a script may do with the iterator, whatever the calls return. -/
inductive History (system : System W) (s : Script W) : Script W → Prop
  | start : History system s s
  | call {t u : Script W} {fuel : Nat} {outcome : Outcome} (h : History system s t)
      (hrun : run (iteratorTurn system) fuel t = some (outcome, u)) : History system s u
  | collect {t : Script W} (h : History system s t) : History system s (listDirectoryGC t)

def openStreams (s : Script W) : List Nat := s.holder.elim [] fun state => state.stack.map Frame.dir

/-- Each stream that has been opened is on the stack or has been closed, and that once. -/
def Owned (s : Script W) : Prop := (s.closed ++ openStreams s).Perm (List.range s.opened)

theorem pushDir_owned {state : ListDirState} {relPath : Bytes} (h : Owned s) (hholder : s.holder = some state) :
    Owned (pushDir system state relPath s).2 := by
  rw [pushDir]
  generalize system.opendir _ s.world = opened
  obtain ⟨errno | stream, world⟩ := opened
  · exact h
  · rw [Owned, openStreams, hholder] at h
    show (s.closed ++ s.opened :: state.stack.map Frame.dir).Perm (List.range (s.opened + 1))
    rw [List.range_succ]
    exact List.perm_middle.trans ((h.cons s.opened).trans (List.perm_append_singleton _ _).symm)

theorem gc_owned (h : Owned s) : Owned (listDirectoryGC s) := by
  rw [listDirectoryGC]
  cases hholder : s.holder with
  | none => exact h
  | some state =>
    rw [Owned, openStreams, hholder] at h
    show (s.closed ++ (state.stack.map Frame.dir).reverse ++ []).Perm (List.range s.opened)
    rw [List.append_nil]
    exact ((List.reverse_perm _).append_left _).trans h

/-- Whether an entry is a directory is asked without touching the streams. -/
theorem entryIsDir_keeps (system : System W) (entry : Dirent) (full : Bytes) (s : Script W) :
    ∃ world, (entryIsDir system entry full s).2 = { s with world } := by
  rw [entryIsDir]
  cases entry.type with
  | directory => exact ⟨s.world, rfl⟩
  | unknown => exact ⟨_, rfl⟩
  | other => exact ⟨s.world, rfl⟩

section Entries

variable {state : ListDirState} {relPath : Bytes} {entry : Dirent}

theorem entryTurn_other (hdots : isDots entry.name = false)
    (hdir : entryIsDir system entry (state.basePath ++ slash :: child relPath entry.name) s = (false, t)) :
    entryTurn system state relPath entry s =
      if state.pattern = [] || system.fnmatch state.pattern entry.name then .leave (.yields (child relPath entry.name), t)
      else .again t := by
  rw [entryTurn, if_neg (Bool.eq_false_iff.mp hdots)]
  dsimp only
  rw [hdir]
  rfl

theorem entryTurn_passed (hdots : isDots entry.name = false) (hrecursive : state.recursive = false)
    (hdir : entryIsDir system entry (state.basePath ++ slash :: child relPath entry.name) s = (true, t)) :
    entryTurn system state relPath entry s = .again t := by
  rw [entryTurn, if_neg (Bool.eq_false_iff.mp hdots)]
  dsimp only
  rw [hdir]
  dsimp only
  rw [if_pos rfl, if_neg (Bool.eq_false_iff.mp hrecursive)]

theorem entryTurn_entered {u : Script W} (hdots : isDots entry.name = false) (hrecursive : state.recursive = true)
    (hdir : entryIsDir system entry (state.basePath ++ slash :: child relPath entry.name) s = (true, t))
    (hpush : pushDir system state (child relPath entry.name) t = (.ok (), u)) :
    entryTurn system state relPath entry s = .again u := by
  rw [entryTurn, if_neg (Bool.eq_false_iff.mp hdots)]
  dsimp only
  rw [hdir]
  dsimp only
  rw [if_pos rfl, if_pos hrecursive, hpush]

theorem pushDir_ok {stream : DirectoryStream} {world : W} (hne : relPath ≠ [])
    (h : system.opendir (state.basePath ++ slash :: relPath) s.world = (.ok stream, world)) :
    pushDir system state relPath s = (.ok (), { s with
      world, opened := s.opened + 1
      holder := some { state with stack :=
        { dir := s.opened, unread := stream.entries, endErrno := stream.endErrno, relPath } :: state.stack } }) := by
  rw [pushDir, if_neg hne, h]

end Entries

/-- Of a turn's two results, the state. -/
def after : Turn (Outcome × Script W) (Script W) → Script W
  | .leave result => result.2
  | .again next => next

theorem entryTurn_owned {state : ListDirState} {relPath : Bytes} {entry : Dirent} (h : Owned s)
    (hholder : s.holder = some state) : Owned (after (entryTurn system state relPath entry s)) := by
  rw [entryTurn]
  by_cases hdots : isDots entry.name = true
  · rw [if_pos hdots]
    exact h
  · rw [if_neg hdots]
    obtain ⟨world, hkept⟩ := entryIsDir_keeps system entry (state.basePath ++ slash :: child relPath entry.name) s
    dsimp only
    generalize entryIsDir system entry (state.basePath ++ slash :: child relPath entry.name) s = read at hkept ⊢
    obtain ⟨isDir, u⟩ := read
    obtain rfl : u = { s with world } := hkept
    have howned : Owned { s with world } := h
    cases isDir with
    | false =>
      rw [if_neg Bool.false_ne_true]
      split_ifs
      · exact howned
      · exact howned
    | true =>
      rw [if_pos rfl]
      cases state.recursive with
      | false => exact howned
      | true =>
        rw [if_pos rfl]
        have hpushed : Owned (pushDir system state (child relPath entry.name) { s with world }).2 :=
          pushDir_owned howned hholder
        generalize pushDir system state (child relPath entry.name) { s with world } = pushed at hpushed ⊢
        obtain ⟨errno | ⟨⟩, v⟩ := pushed
        · exact hpushed
        · exact hpushed

theorem iteratorTurn_owned (system : System W) (h : Owned s) : Owned (after (iteratorTurn system s)) := by
  rw [iteratorTurn]
  cases hholder : s.holder with
  | none => exact h
  | some state =>
    rw [Owned, openStreams, hholder] at h
    obtain ⟨basePath, pattern, recursive, stack⟩ := state
    cases stack with
    | nil =>
      rw [Owned, openStreams]
      dsimp only [after]
      rwa [hholder]
    | cons frame frames =>
      obtain ⟨dir, unread, endErrno, frameRelPath⟩ := frame
      cases unread with
      | cons entry unread => exact entryTurn_owned h rfl
      | nil =>
        have hclosed : Owned (closedir { dir, unread := [], endErrno, relPath := frameRelPath }
            { s with holder := some { basePath, pattern, recursive, stack := frames } }) := by
          show (s.closed ++ [dir] ++ frames.map Frame.dir).Perm (List.range s.opened)
          rw [List.append_assoc]
          exact h
        dsimp only
        split_ifs
        · exact hclosed
        · exact hclosed

theorem luaListDirectory_owned {path : CString} {pattern : Option CString} {recursive : Option Bool} (world : W) :
    Owned (luaListDirectory system path pattern recursive { world }).2 := by
  rw [luaListDirectory]
  have hpushed : Owned (pushDir system
      { basePath := path.val, pattern := pattern.elim [] Subtype.val, recursive := recursive.getD false } []
      { world, holder := some { basePath := path.val, pattern := pattern.elim [] Subtype.val,
                                recursive := recursive.getD false } }).2 :=
    pushDir_owned (.refl []) rfl
  dsimp only
  generalize pushDir system _ [] _ = pushed at hpushed ⊢
  obtain ⟨errno | ⟨⟩, s⟩ := pushed
  · exact gc_owned hpushed
  · exact hpushed

theorem History.owned (h : History system s t) (hs : Owned s) : Owned t := by
  induction h with
  | start => exact hs
  | call _ hrun ih =>
    exact run_rule Owned (fun result => Owned result.2)
      (fun state next hstate hturn => by
        have hnext := iteratorTurn_owned system hstate
        rwa [hturn] at hnext)
      (fun state result hstate hturn => by
        have hresult := iteratorTurn_owned system hstate
        rwa [hturn] at hresult)
      ih hrun
  | collect _ ih => exact gc_owned ih

theorem gc_openStreams (s : Script W) : openStreams (listDirectoryGC s) = [] := by
  rw [listDirectoryGC]
  cases hholder : s.holder with
  | none => rw [openStreams, hholder, Option.elim_none]
  | some state => rfl

end Closing

end Kompli.ListDirectory
