import Kompli.Procedures.ProcedureRun

/-! The walk of a directory and its subdirectories, with a callback for each entry. -/
namespace Kompli
open Foundation

variable {W : Type}

namespace FileTreeWalk

def maxDepth : Nat := 32

abbrev FtwCallback (W : Type) :=
  (directory filename : Bytes) → FileStat → ProcedureM W Status

section
variable (system : System W) (callback : FtwCallback W) (breakOnNonCompliant : Bool)

/-- One turn for an entry: the result after it, and whether the loop goes on. -/
def visitEntry (walk : Bytes → ProcedureM W Status) (path : Bytes) (entry : DirectoryEntry)
    (result : Status) : ProcedureM W (Except Error Status × Bool) := do
  let subResult ← (if entry.isDirectory then walk (path ++ utf8 "/" ++ entry.name) else pure .compliant)
  let result := if subResult ≠ .compliant then .nonCompliant else result
  if subResult ≠ .compliant ∧ breakOnNonCompliant then pure (.ok result, false)
  else do
    let directory := path ++ utf8 "/" ++ entry.name
    match ← ProcedureM.call (system.lstat directory) with
    | none => do
      let status ← ProcedureM.read system.errno
      let message := utf8 "Failed to lstat '" ++ directory ++ utf8 "': " ++ system.strerror status
      pure (.error { message, code := status }, false)
    | some sb => do
      let subResult ← callback path entry.name sb
      let result := if subResult ≠ .compliant then .nonCompliant else result
      pure (.ok result, ! (subResult ≠ .compliant ∧ breakOnNonCompliant))

/-- The loop over the entries: the result, and `errno` after it. -/
def walkEntries (walk : Bytes → ProcedureM W Status) (path : Bytes) (endErrno : Int) :
    List DirectoryEntry → Status → ProcedureM W (Except Error Status × Int)
  | [], result => pure (.ok result, endErrno)
  | entry :: entries, result => do
    ProcedureM.call system.resetErrno
    if entry.isDirectory ∧ (entry.name = utf8 "." ∨ entry.name = utf8 "..") then
      walkEntries walk path endErrno entries result
    else do
      match ← visitEntry system callback breakOnNonCompliant walk path entry result with
      | (.ok result, true) => walkEntries walk path endErrno entries result
      | (result, _) => do
        let status ← ProcedureM.read system.errno
        pure (result, status)

/-- `room` counts the depths that are left, this one included. A failure inside the loop returns at once, and leaves the
stream open. -/
def walkDirectory : (room : Nat) → Bytes → ProcedureM W Status
  | 0, _ => ProcedureM.fail { message := utf8 "Maximum recursion depth reached" }
  | room + 1, path => do
    match ← ProcedureM.call (system.opendir path) with
    | none => do
      let status ← ProcedureM.read system.errno
      if status = ENOENT then pure .compliant
      else
        let message := utf8 "Failed to open directory '" ++ path ++ utf8 "': " ++ system.strerror status
        ProcedureM.fail { message, code := status }
    | some dir => do
      let (result, status) ← walkEntries system callback breakOnNonCompliant (walkDirectory room) path
        dir.endErrno dir.entries .compliant
      ProcedureM.call (system.closedir path)
      match result with
      | .error e => ProcedureM.fail e
      | .ok result =>
        if status ≠ 0 then
          let message := utf8 "Failed to iterate directory '" ++ path ++ utf8 "': " ++ system.strerror status
          ProcedureM.fail { message, code := status }
        else pure result

end
end FileTreeWalk

open FileTreeWalk in
def fileTreeWalk (system : System W) (path : Bytes) (callback : FtwCallback W)
    (breakOnNonCompliant : Bool) : ProcedureM W Status :=
  walkDirectory system callback breakOnNonCompliant (maxDepth + 1) path

namespace FileTreeWalk

variable {system : System W} {callback : FtwCallback W} {breakOnNonCompliant : Bool}

private theorem visitEntry_accounts (hcallback : ∀ directory filename st, Evolves Accounts (callback directory filename st))
    {walk : Bytes → ProcedureM W Status} (hwalk : ∀ path, Evolves Accounts (walk path)) (path : Bytes)
    (entry : DirectoryEntry) (result : Status) :
    Evolves Accounts (visitEntry system callback breakOnNonCompliant walk path entry result) := by
  unfold visitEntry
  refine Accounts.bind ?_ fun subResult => ?_
  · split
    · exact hwalk _
    · exact Accounts.pure _
  dsimp only
  split
  · exact Accounts.pure _
  refine Accounts.bind (Accounts.call _) fun sb => ?_
  cases sb with
  | none => exact Accounts.bind (Accounts.read _) fun _ => Accounts.pure _
  | some sb => exact Accounts.bind (hcallback _ _ _) fun _ => Accounts.pure _

private theorem walkEntries_accounts (hcallback : ∀ directory filename st, Evolves Accounts (callback directory filename st))
    {walk : Bytes → ProcedureM W Status} (hwalk : ∀ path, Evolves Accounts (walk path)) (path : Bytes)
    (endErrno : Int) (entries : List DirectoryEntry) (result : Status) :
    Evolves Accounts
      (walkEntries system callback breakOnNonCompliant walk path endErrno entries result) := by
  induction entries generalizing result with
  | nil => exact Accounts.pure _
  | cons entry entries ih =>
    unfold walkEntries
    refine Accounts.bind (Accounts.call _) fun _ => ?_
    split
    · exact ih result
    refine Accounts.bind (visitEntry_accounts hcallback hwalk path entry result) fun visited => ?_
    split
    · exact ih _
    · exact Accounts.bind (Accounts.read _) fun _ => Accounts.pure _

/-- A walk accounts for its nested checks where its callback does. -/
theorem fileTreeWalk_accounts (system : System W) (breakOnNonCompliant : Bool)
    (hcallback : ∀ directory filename st, Evolves Accounts (callback directory filename st))
    (path : Bytes) : Evolves Accounts (fileTreeWalk system path callback breakOnNonCompliant) := by
  unfold fileTreeWalk
  generalize maxDepth + 1 = room
  induction room generalizing path with
  | zero => exact Accounts.fail _
  | succ room ih =>
    unfold walkDirectory
    refine Accounts.bind (Accounts.call _) fun dir => ?_
    cases dir with
    | none =>
      refine Accounts.bind (Accounts.read _) fun status => ?_
      split
      · exact Accounts.pure _
      · exact Accounts.fail _
    | some dir =>
      refine Accounts.bind (walkEntries_accounts hcallback ih path _ _ _) fun walked => ?_
      obtain ⟨result, status⟩ := walked
      refine Accounts.bind (Accounts.call _) fun _ => ?_
      cases result with
      | error e => exact Accounts.fail e
      | ok result =>
        dsimp only
        split
        · exact Accounts.fail _
        · exact Accounts.pure _

section Turns

variable {walk : Bytes → ProcedureM W Status} {path : Bytes} {s t : ProcedureRun W} {entry : DirectoryEntry}
  {entries : List DirectoryEntry} {result : Status} {endErrno : Int}

/-- The state in which an entry is read. -/
def cleared (system : System W) (s : ProcedureRun W) : ProcedureRun W := { s with context := (system.resetErrno s.context).2 }

def IsPassed (entry : DirectoryEntry) : Prop :=
  entry.isDirectory = true ∧ (entry.name = utf8 "." ∨ entry.name = utf8 "..")

theorem walkEntries_passed (h : IsPassed entry) :
    walkEntries system callback breakOnNonCompliant walk path endErrno (entry :: entries) result s =
      walkEntries system callback breakOnNonCompliant walk path endErrno entries result (cleared system s) := by
  rw [walkEntries, bind_run_ok _ (ProcedureM.call_run _ _)]
  exact congrFun (if_pos h) _

theorem walkEntries_raises {failure : Failure} (h : ¬IsPassed entry)
    (hvisit : visitEntry system callback breakOnNonCompliant walk path entry result (cleared system s) = .error failure t) :
    walkEntries system callback breakOnNonCompliant walk path endErrno (entry :: entries) result s = .error failure t := by
  rw [walkEntries, bind_run_ok _ (ProcedureM.call_run _ _)]
  refine (congrFun (if_neg h) _).trans ?_
  exact bind_run_error _ hvisit

theorem walkEntries_goesOn {next : Status} (h : ¬IsPassed entry)
    (hvisit : visitEntry system callback breakOnNonCompliant walk path entry result (cleared system s) = .ok (.ok next, true) t) :
    walkEntries system callback breakOnNonCompliant walk path endErrno (entry :: entries) result s =
      walkEntries system callback breakOnNonCompliant walk path endErrno entries next t := by
  rw [walkEntries, bind_run_ok _ (ProcedureM.call_run _ _)]
  refine (congrFun (if_neg h) _).trans ?_
  exact bind_run_ok _ hvisit

theorem walkEntries_stops {last : Except Error Status} (h : ¬IsPassed entry)
    (hvisit : visitEntry system callback breakOnNonCompliant walk path entry result (cleared system s) = .ok (last, false) t) :
    walkEntries system callback breakOnNonCompliant walk path endErrno (entry :: entries) result s =
      .ok (last, system.errno t.context) t := by
  rw [walkEntries, bind_run_ok _ (ProcedureM.call_run _ _)]
  refine (congrFun (if_neg h) _).trans ((bind_run_ok _ hvisit).trans ?_)
  cases last <;> rfl

end Turns

end FileTreeWalk
end Kompli
