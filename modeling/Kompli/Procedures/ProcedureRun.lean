import Kompli.Foundation.StateRule
import Kompli.Procedures.OpenNodes

/-! Runs of the procedures that do checks of their own inside nodes of their own. -/
namespace Kompli
open Foundation

structure Passwd where
  name : Bytes
  uid : Nat
  gid : Nat
  dir : Bytes
  shell : Bytes
  deriving DecidableEq, Repr

structure FileStat where
  mode : Nat
  uid : Nat
  deriving DecidableEq, Repr

namespace FileStat

def isRegular (st : FileStat) : Bool := st.mode &&& 0o170000 = 0o100000
def isDirectory (st : FileStat) : Bool := st.mode &&& 0o170000 = 0o040000
def isLink (st : FileStat) : Bool := st.mode &&& 0o170000 = 0o120000

end FileStat

structure DirectoryEntry where
  name : Bytes
  isDirectory : Bool
  deriving DecidableEq, Repr

/-- What `readdir` yields, and the `errno` it ends with. -/
structure Directory where
  entries : List DirectoryEntry
  endErrno : Int

/-- `|` separated lists are split already; the fields that no caller here sets are left out. -/
structure FilePermissionsParams where
  path : Bytes
  owner : Option (List Bytes) := none
  group : Option (List Bytes) := none
  mask : Option Nat := none
  deriving DecidableEq, Repr

/-- What `AuditFilePermissions` or `RemediateFilePermissions` does: neither pushes or pops. -/
structure CheckOutcome (W : Type) where
  result : Except Error Status
  indicators : List Indicator := []
  context : W

/-- The system behind the context: every answer depends on all that happened before. -/
structure System (W : Type) where
  listValidShells : W → Except Error (List Bytes) × W
  users : Option Bytes → W → Except Error (List Passwd) × W
  specialFilePath : Bytes → W → Bytes × W
  /-- Whether there is such a group; its name is in a static record that the next call overwrites. -/
  getgrgid : Nat → W → Bool × W
  groupName : W → Bytes
  stat : Bytes → W → Bool × W
  mkdir : Bytes → Nat → W → Bool × W
  opendir : Bytes → W → Option Directory × W
  /-- The stream of the directory is closed. -/
  closedir : Bytes → W → Unit × W := fun _ w => ((), w)
  lstat : Bytes → W → Option FileStat × W
  errno : W → Int
  /-- `errno = 0`. -/
  resetErrno : W → Unit × W := fun w => ((), w)
  strerror : Int → Bytes
  makePattern : Bytes → Except Error Unit
  fnmatchCaseFold : (pattern name : Bytes) → Bool
  auditFilePermissions : FilePermissionsParams → W → CheckOutcome W
  remediateFilePermissions : FilePermissionsParams → W → CheckOutcome W

/-- How a procedure ends when it does not return a status. -/
inductive Failure where
  | error (e : Error)
  | exception (what : Bytes)
  deriving DecidableEq, Repr

/-- What a procedure did so far, and the outcomes of its nested checks. -/
structure ProcedureRun (W : Type) where
  context : W
  ops : List TreeOp := []
  checks : List (Except Error Status) := []

abbrev ProcedureM (W : Type) := EStateM Failure (ProcedureRun W)

namespace ProcedureM

variable {W α β : Type}

def call (f : W → α × W) : ProcedureM W α :=
  fun s => .ok (f s.context).1 { s with context := (f s.context).2 }

def read (f : W → α) : ProcedureM W α := fun s => .ok (f s.context) s

theorem call_run (f : W → α × W) (s : ProcedureRun W) :
    call f s = .ok (f s.context).1 { s with context := (f s.context).2 } := rfl

theorem read_run (f : W → α) (s : ProcedureRun W) : read f s = .ok (f s.context) s := rfl

def fail (e : Error) : ProcedureM W α := throw (.error e)

def ofExcept : Except Error α → ProcedureM W α
  | .ok a => pure a
  | .error e => fail e

/-- The result of a call as a value: what it returns, not what it throws. -/
def attempt (m : ProcedureM W α) : ProcedureM W (Except Error α) := fun s =>
  match m s with
  | .ok a t => .ok (.ok a) t
  | .error (.error e) t => .ok (.error e) t
  | .error (.exception what) t => .error (.exception what) t

def perform (op : TreeOp) : ProcedureM W Unit :=
  modify fun s => { s with ops := s.ops ++ [op] }

/-- `indicators.Compliant(message)` and `indicators.NonCompliant(message)`. -/
def addIndicator (message : Bytes) (status : Status) : ProcedureM W Status := do
  perform (.addIndicator message status)
  pure status

def check (nested : W → CheckOutcome W) : ProcedureM W (Except Error Status) := fun s =>
  let outcome := nested s.context
  .ok outcome.result
    { context := outcome.context
      ops := s.ops ++ outcome.indicators.map fun i => .addIndicator i.message i.status
      checks := s.checks ++ [outcome.result] }

/-- `Push`, a nested check, and only where that returns a status
`Back().status = status; Pop()`. -/
def checkInside (name : Bytes) (nested : W → CheckOutcome W) : ProcedureM W (Except Error Status) := do
  perform (.push name)
  match ← check nested with
  | .error e => pure (.error e)
  | .ok status => do
    perform (.setStatus status)
    perform .pop
    pure (.ok status)

/-- The run of a procedure. -/
def result (m : ProcedureM W α) (context : W) : Except Failure α :=
  match m { context } with
  | .ok a _ => .ok a
  | .error failure _ => .error failure

def run (m : ProcedureM W α) (context : W) : ProcedureRun W := leaves m { context }

end ProcedureM

def failures (checks : List (Except Error Status)) : Nat := checks.countP (! ·.isOk)

theorem failures_eq_zero_iff (checks : List (Except Error Status)) :
    failures checks = 0 ↔ ∀ check ∈ checks, ∃ status, check = .ok status := by
  rw [failures, List.countP_eq_zero]
  refine forall₂_congr fun check _ => ?_
  cases check <;> simp [Except.isOk, Except.toBool]

/-- The later run did more, and left a node open for each nested check that failed. -/
def Accounts {W : Type} (s t : ProcedureRun W) : Prop :=
  ∃ ops checks, t.ops = s.ops ++ ops ∧ t.checks = s.checks ++ checks ∧
    TreeOp.Leaves ops (failures checks)

namespace Accounts

variable {W α β : Type}

theorem refl (s : ProcedureRun W) : Accounts s s :=
  ⟨[], [], by simp, by simp, .nil⟩

theorem trans (s t u : ProcedureRun W) (hst : Accounts s t) (htu : Accounts t u) : Accounts s u := by
  obtain ⟨ops, checks, hops, hchecks, hleaves⟩ := hst
  obtain ⟨ops', checks', hops', hchecks', hleaves'⟩ := htu
  refine ⟨ops ++ ops', checks ++ checks', ?_, ?_, ?_⟩
  · rw [hops', hops, List.append_assoc]
  · rw [hchecks', hchecks, List.append_assoc]
  · rw [failures, List.countP_append]
    exact hleaves.append hleaves'

variable {m : ProcedureM W α} {f : α → ProcedureM W β}

theorem pure (a : α) : Evolves Accounts (Pure.pure a : ProcedureM W α) := refl

theorem throw (failure : Failure) : Evolves Accounts (MonadExcept.throw failure : ProcedureM W α) := refl

theorem fail (e : Error) : Evolves Accounts (ProcedureM.fail e : ProcedureM W α) := throw _

theorem ofExcept (r : Except Error α) : Evolves Accounts (ProcedureM.ofExcept r : ProcedureM W α) := by
  cases r with
  | ok a => exact pure a
  | error e => exact fail e

theorem call (f : W → α × W) : Evolves Accounts (ProcedureM.call f) :=
  fun _ => ⟨[], [], (List.append_nil _).symm, (List.append_nil _).symm, .nil⟩

theorem read (f : W → α) : Evolves Accounts (ProcedureM.read f) := refl

theorem bind (first : Evolves Accounts m) (second : ∀ a, Evolves Accounts (f a)) :
    Evolves Accounts (m >>= f) :=
  Evolves.bind trans first second

theorem foldlM {step : β → α → ProcedureM W β} (h : ∀ b a, Evolves Accounts (step b a)) (as : List α)
    (b : β) : Evolves Accounts (as.foldlM step b) :=
  Evolves.foldlM refl trans h as b

theorem attempt (h : Evolves Accounts m) : Evolves Accounts m.attempt := by
  intro s
  have hrun := h s
  unfold leaves at hrun ⊢
  unfold ProcedureM.attempt
  cases hm : m s with
  | ok a t =>
    rw [hm] at hrun
    exact hrun
  | error failure t =>
    rw [hm] at hrun
    cases failure <;> exact hrun

theorem addIndicator (message : Bytes) (status : Status) :
    Evolves Accounts (ProcedureM.addIndicator message status : ProcedureM W Status) :=
  fun _ => ⟨[.addIndicator message status], [], rfl, (List.append_nil _).symm, .addIndicator .nil⟩

/-- The one place where a node can be left open. -/
theorem checkInside (name : Bytes) (nested : W → CheckOutcome W) :
    Evolves Accounts (ProcedureM.checkInside name nested) := by
  intro s
  let outcome := nested s.context
  let added := outcome.indicators.map fun i => TreeOp.addIndicator i.message i.status
  let pushed : ProcedureRun W := { s with ops := s.ops ++ [.push name] }
  let checked (result : Except Error Status) : ProcedureRun W :=
    ⟨outcome.context, s.ops ++ [.push name] ++ added, s.checks ++ [result]⟩
  have hpush : ProcedureM.perform (.push name) s = .ok () pushed := rfl
  cases hresult : outcome.result with
  | ok status =>
    have hcheck : ProcedureM.check nested pushed = .ok (.ok status) (checked (.ok status)) := by
      rw [← hresult]
      rfl
    refine ⟨.push name :: (added ++ [.setStatus status, .pop]), [.ok status], ?_, ?_, ?_⟩
    · rw [ProcedureM.checkInside, leaves, bind_run_ok _ hpush, bind_run_ok _ hcheck]
      change s.ops ++ [.push name] ++ added ++ [.setStatus status] ++ [.pop] = _
      simp only [List.append_assoc, List.cons_append, List.nil_append]
    · rw [ProcedureM.checkInside, leaves, bind_run_ok _ hpush, bind_run_ok _ hcheck]
      rfl
    · exact .closed (.indicators _) .nil
  | error e =>
    have hcheck : ProcedureM.check nested pushed = .ok (.error e) (checked (.error e)) := by
      rw [← hresult]
      rfl
    refine ⟨.push name :: added, [.error e], ?_, ?_, ?_⟩
    · rw [ProcedureM.checkInside, leaves, bind_run_ok _ hpush, bind_run_ok _ hcheck]
      change s.ops ++ [.push name] ++ added = _
      simp only [List.append_assoc, List.cons_append, List.nil_append]
    · rw [ProcedureM.checkInside, leaves, bind_run_ok _ hpush, bind_run_ok _ hcheck]
      rfl
    · exact .left (.indicators _)

/-- A run leaves open as many nodes as there were nested checks that failed. -/
theorem run_leaves (h : Evolves Accounts m) (context : W) :
    TreeOp.Leaves (m.run context).ops (failures (m.run context).checks) := by
  obtain ⟨ops, checks, hops, hchecks, hleaves⟩ := h { context }
  rw [List.nil_append] at hops hchecks
  rw [ProcedureM.run, hops, hchecks]
  exact hleaves

end Accounts
end Kompli
