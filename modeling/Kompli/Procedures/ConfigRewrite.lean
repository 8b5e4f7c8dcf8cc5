import Kompli.ComplianceEngine.Indicators
import Kompli.Foundation.StateRule

/-! Remediations that rewrite a configuration file: audit, read, rewrite, audit again, and roll back. -/
namespace Kompli.ConfigRewrite
open Foundation

def ENOTSUP : Int := 95
def EAGAIN : Int := 11

/-- Device and inode of a file, and what is in it. -/
structure ConfigFile where
  number : Nat × Nat
  contents : Bytes

inductive Event where
  | audited (result : Except Error Status)
  | reported (indicator : Indicator)
  | wrote
  | rolledBack
  | rollbackFailed

structure Run where
  file : Option ConfigFile
  events : List Event := []

/-- How each call of a run goes: what it returns, or the error it fails with. -/
structure Outcomes where
  audit : Except Error Status
  postAudit : Except Error Status
  /-- How many bytes are read before the end of the file or a read error. -/
  read : Except Error Nat
  replace : Option Error
  rollback : Option Error
  /-- The error of a replacement where there is no file. -/
  noFile : Error
  /-- The number of the inode that is made. -/
  create : Except Error (Nat × Nat)
  /-- The error of a creation where there is a file. -/
  fileExists : Error
  lstat : Option Int
  inspect : Option Int
  unlink : Option Int
  realpath : Option Bytes
  isKernelModuleLoaded : Except Error Bool
  specialFilePath : Bytes → Bytes
  strerror : Int → Bytes

abbrev ConfigM := EStateM Error Run

section Calls

def ofExcept {α : Type} : Except Error α → ConfigM α
  | .ok a => pure a
  | .error e => throw e

def record (event : Event) : ConfigM Unit := modify fun s => { s with events := s.events ++ [event] }

def audit (result : Except Error Status) : ConfigM (Except Error Status) := do
  record (.audited result)
  pure result

def nonCompliant (message : Bytes) : ConfigM Status := do
  record (.reported { message, status := .nonCompliant })
  pure .nonCompliant

/-- `LoadStringFromFile` makes a C string of what it has read when the input ends or fails. -/
def textRead (count : Nat) (contents : Bytes) : Bytes := cString (contents.take count)

def getFileContents (outcomes : Outcomes) (path : Bytes) : ConfigM Bytes := fun s =>
  match outcomes.read, s.file with
  | .error e, _ => .error e s
  | .ok _, none => .error { message := utf8 "File not found: " ++ path, code := ENOENT } s
  | .ok count, some file => .ok (textRead count file.contents) s

/-- An atomic replacement, which leaves the file as it is when it fails. -/
def replaceFileContentsAtomic (outcomes : Outcomes) (failure : Option Error) (contents : Bytes) :
    ConfigM (Option Error) := fun s =>
  match failure, s.file with
  | some e, _ => .ok (some e) s
  | none, none => .ok (some outcomes.noFile) s
  | none, some file => .ok none { s with file := some { file with contents } }

/-- What is created, where there was no file. -/
def createFileContentsAtomic (outcomes : Outcomes) (contents : Bytes) : ConfigM (Except Error (Nat × Nat)) := fun s =>
  match outcomes.create, s.file with
  | .error e, _ => .ok (.error e) s
  | .ok _, some _ => .ok (.error outcomes.fileExists) s
  | .ok number, none => .ok (.ok number) { s with file := some { number, contents } }

def lstat (failure : Option Int) : ConfigM (Except Int (Nat × Nat)) := fun s =>
  match failure, s.file with
  | some errno, _ => .ok (.error errno) s
  | none, none => .ok (.error ENOENT) s
  | none, some file => .ok (.ok file.number) s

def unlink (failure : Option Int) : ConfigM (Option Int) := fun s =>
  match failure, s.file with
  | some errno, _ => .ok (some errno) s
  | none, none => .ok (some ENOENT) s
  | none, some _ => .ok none { s with file := none }

end Calls

section Remediation

variable (outcomes : Outcomes)

/-- Nothing more is done unless the audit finds something to be done. -/
def unlessCompliant (next : ConfigM Status) : ConfigM Status := do
  match ← audit outcomes.audit with
  | .error e => throw e
  | .ok .compliant => pure .compliant
  | .ok _ => next

def rollbackFailed (remained : Bytes) (postAudit : Except Error Status) (e : Error) : Error :=
  let reason := match postAudit with
    | .ok _ => remained
    | .error audit => audit.message
  { message := reason ++ utf8 "; rollback failed: " ++ e.message, code := e.code }

/-- What the last audit has returned is returned once the file is as it was. -/
def rollBack (remained : Bytes) (rollback : ConfigM (Option Error)) (postAudit : Except Error Status) :
    ConfigM Status := do
  match ← rollback with
  | none => do
    record .rolledBack
    ofExcept postAudit
  | some e => do
    record .rollbackFailed
    throw (rollbackFailed remained postAudit e)

def auditOrRollBack (remained : Bytes) (rollback : ConfigM (Option Error)) : ConfigM Status := do
  match ← audit outcomes.postAudit with
  | .ok .compliant => pure .compliant
  | postAudit => rollBack remained rollback postAudit

/-- A file that exists is rewritten: what it is to hold, and what to say where that is what it holds already. -/
def rewriteConfig (path : Bytes) (update : Bytes → Bytes) (noChange remained : Bytes) : ConfigM Status := do
  let original ← getFileContents outcomes path
  if update original = original then throw { message := noChange, code := EINVAL }
  else
    match ← replaceFileContentsAtomic outcomes outcomes.replace (update original) with
    | some e => throw e
    | none => do
      record .wrote
      auditOrRollBack outcomes remained (replaceFileContentsAtomic outcomes outcomes.rollback original)

end Remediation

section Law

def final : EStateM.Result Error Run Status → Run
  | .ok _ s => s
  | .error _ s => s

/-- What a remediation that does not succeed leaves: success means that nothing was written or that the last audit,
which came after, was passed; without it the file holds what it held, unless the rollback has failed. -/
structure Keeps (file : Option ConfigFile) (result : EStateM.Result Error Run Status) : Prop where
  compliant : ∀ t, result = .ok .compliant t →
    .wrote ∉ t.events ∨ ∃ before, t.events = before ++ [.audited (.ok .compliant)]
  restored : (∀ t, result ≠ .ok .compliant t) → .rollbackFailed ∉ (final result).events →
    (final result).file.map (·.contents) = file.map (·.contents)

/-- Nothing was written so far. -/
structure Untouched (file : Option ConfigFile) (s : Run) : Prop where
  file : s.file = file
  wrote : .wrote ∉ s.events
  rollbackFailed : .rollbackFailed ∉ s.events

variable {outcomes : Outcomes} {file : Option ConfigFile}

theorem Untouched.keeps {s : Run} (h : Untouched file s) {result : EStateM.Result Error Run Status}
    (hfinal : final result = s) : Keeps file result := by
  constructor
  · intro t ht
    rw [ht] at hfinal
    cases hfinal
    exact .inl h.wrote
  · intro _ _
    rw [hfinal, h.file]

theorem Untouched.record {s : Run} (h : Untouched file s) {event : Event} (hwrote : .wrote ≠ event)
    (hfailed : .rollbackFailed ≠ event) : Untouched file { s with events := s.events ++ [event] } where
  file := h.file
  wrote := by simpa using ⟨h.wrote, hwrote⟩
  rollbackFailed := by simpa using ⟨h.rollbackFailed, hfailed⟩

/-- The rollback of a file that was written gives it the text back, or fails and says so. -/
structure RollsBack (rollback : ConfigM (Option Error)) (undone : Prop) (text : Option Bytes) (s : Run) : Prop where
  done : undone → ∃ t, rollback s = .ok none t ∧ t.events = s.events ∧ t.file.map (·.contents) = text
  failed : ¬ undone → ∃ e t, rollback s = .ok (some e) t

private theorem rollBack_keeps {remained : Bytes} {rollback : ConfigM (Option Error)}
    {postAudit : Except Error Status} {undone : Prop} {text : Option Bytes} {s : Run}
    (hpost : postAudit ≠ .ok .compliant) (hrollback : RollsBack rollback undone text s)
    (hfailed : .rollbackFailed ∉ s.events) :
    Keeps file (rollBack remained rollback postAudit s) ↔ (undone → text = file.map (·.contents)) := by
  by_cases hundone : undone
  · obtain ⟨t, hrun, hevents, htext⟩ := hrollback.done hundone
    let u : Run := { t with events := t.events ++ [.rolledBack] }
    have hnot : .rollbackFailed ∉ u.events := by simpa [u, hevents] using hfailed
    have hlast : ∀ v, (ofExcept postAudit u) ≠ .ok .compliant v ∧ final (ofExcept postAudit u) = u := by
      intro v
      cases postAudit with
      | error e => exact ⟨by rintro ⟨⟩, rfl⟩
      | ok status =>
        refine ⟨fun heq => ?_, rfl⟩
        cases heq
        exact hpost rfl
    have hrolled : rollBack remained rollback postAudit s = ofExcept postAudit u := by
      rw [rollBack, bind_run_ok _ hrun]
      rfl
    rw [hrolled, ← htext]
    constructor
    · intro hkeeps _
      have hrestored := hkeeps.restored (fun v => (hlast v).1)
      rw [(hlast u).2] at hrestored
      exact hrestored hnot
    · intro h
      refine ⟨fun v hv => absurd hv (hlast v).1, fun _ _ => ?_⟩
      rw [(hlast u).2]
      exact h hundone
  · obtain ⟨e, t, hrun⟩ := hrollback.failed hundone
    let u : Run := { t with events := t.events ++ [.rollbackFailed] }
    have hthrows : rollBack remained rollback postAudit s = .error (rollbackFailed remained postAudit e) u := by
      rw [rollBack, bind_run_ok _ hrun]
      rfl
    rw [hthrows]
    refine iff_of_true ⟨fun v hv => (nomatch hv), fun _ hnot => ?_⟩ fun h => absurd h hundone
    exact absurd (List.mem_append_right _ (List.mem_singleton.mpr rfl)) hnot

/-- The last audit is passed, or the file is as it was once the rollback has written the text. -/
theorem auditOrRollBack_keeps {remained : Bytes} {rollback : ConfigM (Option Error)} {undone : Prop}
    {text : Option Bytes} {s : Run} (hrollback : ∀ t, t.file = s.file → RollsBack rollback undone text t)
    (hfailed : .rollbackFailed ∉ s.events) :
    Keeps file (auditOrRollBack outcomes remained rollback s) ↔
      (outcomes.postAudit ≠ .ok .compliant → undone → text = file.map (·.contents)) := by
  let t : Run := { s with events := s.events ++ [.audited outcomes.postAudit] }
  have haudit : audit outcomes.postAudit s = .ok outcomes.postAudit t := rfl
  by_cases hpost : outcomes.postAudit = .ok .compliant
  · have hok : auditOrRollBack outcomes remained rollback s = .ok .compliant t := by
      rw [auditOrRollBack, bind_run_ok _ haudit, hpost]
      rfl
    rw [hok]
    refine iff_of_true ⟨fun v hv => .inr ⟨s.events, ?_⟩, fun hne => absurd rfl (hne _)⟩ fun h => absurd hpost h
    cases hv
    rw [← hpost]
  · have hback : auditOrRollBack outcomes remained rollback s = rollBack remained rollback outcomes.postAudit t := by
      rw [auditOrRollBack, bind_run_ok _ haudit]
      rcases hcases : outcomes.postAudit with e | status
      · rfl
      · cases status with
        | compliant => exact absurd hcases hpost
        | nonCompliant => rfl
        | notApplicable => rfl
    rw [hback, rollBack_keeps hpost (hrollback t rfl) (by simpa [t] using hfailed)]
    exact ⟨fun h _ => h, fun h => h hpost⟩

/-- The text that was read is written back. -/
theorem replace_rollsBack {contents : Bytes} {s : Run} (hfile : s.file.isSome = true) :
    RollsBack (replaceFileContentsAtomic outcomes outcomes.rollback contents) (outcomes.rollback = none)
      (some contents) s := by
  obtain ⟨file, hsome⟩ := Option.isSome_iff_exists.mp hfile
  constructor
  · intro hrollback
    refine ⟨{ s with file := some { file with contents } }, ?_, rfl, rfl⟩
    simp only [replaceFileContentsAtomic, hrollback, hsome]
  · intro hrollback
    obtain ⟨e, he⟩ := Option.ne_none_iff_exists'.mp hrollback
    exact ⟨e, s, by simp only [replaceFileContentsAtomic, he]⟩

/-- A text that was read is written back where the change does not pass the last audit. -/
structure WrittenBack (outcomes : Outcomes) : Prop where
  replace : outcomes.replace = none
  postAudit : outcomes.postAudit ≠ .ok .compliant
  rollback : outcomes.rollback = none

theorem replace_keeps {updated text remained : Bytes} {s : Run} (h : Untouched file s) (hfile : s.file.isSome = true) :
    Keeps file ((do
      match ← replaceFileContentsAtomic outcomes outcomes.replace updated with
      | some e => throw e
      | none => do
        record .wrote
        auditOrRollBack outcomes remained (replaceFileContentsAtomic outcomes outcomes.rollback text)) s) ↔
      (WrittenBack outcomes → some text = file.map (·.contents)) := by
  obtain ⟨old, hold⟩ := Option.isSome_iff_exists.mp hfile
  cases hreplace : outcomes.replace with
  | some e =>
    have hrun : replaceFileContentsAtomic outcomes (some e) updated s = .ok (some e) s := by
      simp only [replaceFileContentsAtomic]
    rw [bind_run_ok _ hrun]
    exact iff_of_true (h.keeps rfl) fun hback => absurd (hback.replace.symm.trans hreplace) (by simp)
  | none =>
    let written : Run := { s with file := some { old with contents := updated } }
    have hrun : replaceFileContentsAtomic outcomes none updated s = .ok none written := by
      simp only [replaceFileContentsAtomic, hold, written]
    let last : Run := { written with events := written.events ++ [.wrote] }
    have hrecord : record .wrote written = .ok () last := rfl
    have hsome : ∀ t, t.file = last.file →
        RollsBack (replaceFileContentsAtomic outcomes outcomes.rollback text) (outcomes.rollback = none)
          (some text) t := by
      intro t ht
      exact replace_rollsBack (by rw [ht]; rfl)
    rw [bind_run_ok _ hrun]
    simp only
    rw [bind_run_ok _ hrecord]
    refine (auditOrRollBack_keeps hsome (by simpa [last, written] using h.rollbackFailed)).trans ?_
    exact ⟨fun hkeeps hback => hkeeps hback.postAudit hback.rollback,
      fun hkeeps hpost hrollback => hkeeps ⟨hreplace, hpost, hrollback⟩⟩

/-- The text read is all of the file just when the read is not cut short and the file has no NUL. -/
theorem textRead_eq_iff {count : Nat} {contents : Bytes} :
    textRead count contents = contents ↔ contents.length ≤ count ∧ NulFree contents := by
  constructor
  · intro h
    have hle : (cString (contents.take count)).length ≤ (contents.take count).length :=
      (List.takeWhile_prefix _).length_le
    have hlength : contents.length ≤ count := by
      rw [textRead] at h
      rw [h, List.length_take] at hle
      omega
    refine ⟨hlength, ?_⟩
    rw [← h]
    exact cString_nulFree _
  · rintro ⟨hlength, hnul⟩
    rw [textRead, List.take_of_length_le hlength, cString_of_nulFree hnul]

/-- Where a text of the file is read that is to be changed, and is written back, it is all of the file. -/
def ReadsAllToUndo (outcomes : Outcomes) (file : Option ConfigFile) (changes : Bytes → Prop) : Prop :=
  ∀ count original, outcomes.read = .ok count → file = some original → changes (textRead count original.contents) →
    WrittenBack outcomes → original.contents.length ≤ count ∧ NulFree original.contents

/-- What is read is what is written back. -/
theorem read_keeps {path : Bytes} {next : Bytes → ConfigM Status} {changes : Bytes → Prop} {s : Run}
    (h : Untouched file s)
    (hnext : ∀ text, s.file.isSome = true →
      (Keeps file (next text s) ↔ (changes text → WrittenBack outcomes → some text = file.map (·.contents)))) :
    Keeps file ((getFileContents outcomes path >>= next) s) ↔ ReadsAllToUndo outcomes file changes := by
  cases hread : outcomes.read with
  | error e =>
    have hget : getFileContents outcomes path s = .error e s := by simp only [getFileContents, hread]
    rw [bind_run_error _ hget]
    refine iff_of_true (h.keeps rfl) fun count original hok => ?_
    rw [hread] at hok
    cases hok
  | ok count =>
    cases hfile : s.file with
    | none =>
      have hget : getFileContents outcomes path s =
          .error { message := utf8 "File not found: " ++ path, code := ENOENT } s := by
        simp only [getFileContents, hread, hfile]
      rw [bind_run_error _ hget]
      refine iff_of_true (h.keeps rfl) fun _ original _ hsome => ?_
      rw [← h.file, hfile] at hsome
      cases hsome
    | some original =>
      have hget : getFileContents outcomes path s = .ok (textRead count original.contents) s := by
        simp only [getFileContents, hread, hfile]
      have hsome : file = some original := h.file.symm.trans hfile
      rw [bind_run_ok _ hget, hnext _ (by rw [hfile]; rfl), hsome]
      simp only [Option.map_some, Option.some.injEq, textRead_eq_iff]
      constructor
      · intro hkeeps count' original' hread' hsome'
        rw [hread] at hread'
        cases hread'
        cases hsome'
        exact hkeeps
      · intro hall
        exact hall count original hread rfl

theorem rewriteConfig_keeps {path noChange remained : Bytes} {update : Bytes → Bytes} {s : Run} (h : Untouched file s) :
    Keeps file (rewriteConfig outcomes path update noChange remained s) ↔
      ReadsAllToUndo outcomes file fun text => update text ≠ text := by
  rw [rewriteConfig]
  refine read_keeps h fun text hfile => ?_
  by_cases hsame : update text = text
  · rw [if_pos hsame]
    exact iff_of_true (h.keeps rfl) fun hne => absurd hsame hne
  · rw [if_neg hsame, replace_keeps h hfile]
    exact ⟨fun hkeeps _ => hkeeps, fun hkeeps => hkeeps hsame⟩

/-- The first audit finds something to be done. -/
def NeedsChange (outcomes : Outcomes) : Prop := ∃ status, outcomes.audit = .ok status ∧ status ≠ .compliant

/-- Up to the change nothing is done to the file. -/
theorem unlessCompliant_keeps {next : ConfigM Status} {P : Prop}
    (hnext : ∀ t, Untouched file t → (Keeps file (next t) ↔ P)) {s : Run} (h : Untouched file s) :
    Keeps file (unlessCompliant outcomes next s) ↔ (NeedsChange outcomes → P) := by
  let t : Run := { s with events := s.events ++ [.audited outcomes.audit] }
  have haudit : audit outcomes.audit s = .ok outcomes.audit t := rfl
  have ht : Untouched file t := h.record (by simp) (by simp)
  have hchange {status : Status} (hok : outcomes.audit = .ok status) (hne : status ≠ .compliant) :
      Keeps file (next t) ↔ (NeedsChange outcomes → P) := by
    rw [hnext t ht]
    exact ⟨fun hP _ => hP, fun hP => hP ⟨status, hok, hne⟩⟩
  rw [unlessCompliant, bind_run_ok _ haudit]
  rcases hcases : outcomes.audit with e | status
  · refine iff_of_true (ht.keeps rfl) ?_
    rintro ⟨status, hok, -⟩
    rw [hcases] at hok
    cases hok
  · cases status with
    | compliant =>
      refine iff_of_true (ht.keeps rfl) ?_
      rintro ⟨status, hok, hne⟩
      rw [hcases] at hok
      cases hok
      exact absurd rfl hne
    | nonCompliant => exact hchange hcases (by simp)
    | notApplicable => exact hchange hcases (by simp)

theorem ofExcept_keeps {α : Type} {value : Except Error α} {next : α → ConfigM Status} {P : α → Prop} {s : Run}
    (h : Untouched file s) (hnext : ∀ a, Keeps file (next a s) ↔ P a) :
    Keeps file ((ofExcept value >>= next) s) ↔ ∀ a, value = .ok a → P a := by
  cases value with
  | error e => exact iff_of_true (h.keeps rfl) fun a ha => (nomatch ha)
  | ok a =>
    refine (hnext a).trans ⟨fun hP b hb => ?_, fun hP => hP a rfl⟩
    cases hb
    exact hP

theorem untouched_start (file : Option ConfigFile) : Untouched file { file } :=
  ⟨rfl, by simp, by simp⟩

end Law

end Kompli.ConfigRewrite
