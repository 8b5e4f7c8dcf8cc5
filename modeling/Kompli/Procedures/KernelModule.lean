import Kompli.ComplianceEngine.JsonWrapper
import Kompli.Foundation.Streams
import Kompli.Foundation.Substring
import Kompli.Procedures.ConfigRewrite

/-! The remediation that makes a kernel module unavailable. -/
namespace Kompli.KernelModule
open Parson Ascii Foundation Streams ConfigRewrite

def managedConfigPath : Bytes := utf8 "/etc/modprobe.d/60-kompli-disabled-modules.conf"

def isValidModuleName (moduleName : Bytes) : Bool :=
  moduleName ≠ [] && moduleName.all fun c => isAlnum c || c ∈ utf8 "_-"

def managedBlockStart (moduleName : Bytes) : Bytes := utf8 "# BEGIN KOMPLI DISABLE " ++ moduleName

def managedBlockEnd (moduleName : Bytes) : Bytes := utf8 "# END KOMPLI DISABLE " ++ moduleName

def malformed (moduleName : Bytes) : Error :=
  { message := utf8 "Malformed managed modprobe configuration block for '" ++ moduleName ++ utf8 "'", code := EINVAL }

/-- The blocks of the module are taken out, the last of them also where its end has no newline. -/
def removeBlocks (moduleName contents : Bytes) : Except Error Bytes :=
  match _hstart : cutAt (managedBlockStart moduleName ++ [newline]) contents with
  | none => .ok contents
  | some (before, after) =>
    match _hend : cutAt (managedBlockEnd moduleName ++ [newline]) after with
    | some (_, rest) => removeBlocks moduleName (before ++ rest)
    | none =>
      if (managedBlockEnd moduleName).isSuffixOf (managedBlockStart moduleName ++ [newline] ++ after) then
        removeBlocks moduleName before
      else .error (malformed moduleName)
  termination_by contents.length
  decreasing_by
    · have hlength := length_cutAt _hstart
      have hlength' := length_cutAt _hend
      simp only [List.length_append, List.length_singleton] at hlength hlength' ⊢
      omega
    · have hlength := length_cutAt _hstart
      simp only [List.length_append, List.length_singleton] at hlength
      omega

def updateManagedConfig (contents moduleName : Bytes) : Except Error Bytes :=
  match removeBlocks moduleName contents with
  | .error e => .error e
  | .ok contents =>
    .ok (contents ++ (if contents ≠ [] ∧ contents.getLast? ≠ some newline then [newline] else []) ++
      (managedBlockStart moduleName ++ [newline]) ++ (utf8 "blacklist " ++ moduleName ++ [newline]) ++
      (utf8 "install " ++ moduleName ++ utf8 " /bin/false\n") ++ (managedBlockEnd moduleName ++ [newline]))

/-- A file that was created is removed, unless another one has its name now. -/
def removeCreatedConfig (outcomes : Outcomes) (created : Nat × Nat) : ConfigM (Option Error) := do
  match ← lstat outcomes.inspect with
  | .error status =>
    pure (some { message := utf8 "Failed to inspect created modprobe configuration during rollback: " ++
                   outcomes.strerror status
                 code := status })
  | .ok current =>
    if current ≠ created then
      pure (some { message := utf8 "Managed modprobe configuration changed before rollback", code := EAGAIN })
    else
      match ← unlink outcomes.unlink with
      | none => pure none
      | some status =>
        pure (some { message := utf8 "Failed to remove created modprobe configuration during rollback: " ++
                       outcomes.strerror status
                     code := status })

def remained : Bytes := utf8 "Kernel module remained available"

/-- The file is rewritten, also where it would hold what it holds. -/
def rewriteManagedConfig (outcomes : Outcomes) (moduleName : Bytes) : ConfigM Status := do
  let original ← getFileContents outcomes (outcomes.specialFilePath managedConfigPath)
  let updated ← ConfigRewrite.ofExcept (updateManagedConfig original moduleName)
  match ← replaceFileContentsAtomic outcomes outcomes.replace updated with
  | some e => throw e
  | none => do
    record .wrote
    auditOrRollBack outcomes remained (replaceFileContentsAtomic outcomes outcomes.rollback original)

/-- There was no file. -/
def createManagedConfig (outcomes : Outcomes) (moduleName : Bytes) : ConfigM Status := do
  let updated ← ConfigRewrite.ofExcept (updateManagedConfig [] moduleName)
  match ← createFileContentsAtomic outcomes updated with
  | .error e => throw e
  | .ok created => do
    record .wrote
    auditOrRollBack outcomes remained (removeCreatedConfig outcomes created)

def disableModule (outcomes : Outcomes) (moduleName : Bytes) : ConfigM Status := do
  match ← lstat outcomes.lstat with
  | .ok _ => rewriteManagedConfig outcomes moduleName
  | .error status =>
    if status = ENOENT then createManagedConfig outcomes moduleName
    else
      throw { message := utf8 "Failed to inspect managed modprobe configuration: " ++ outcomes.strerror status
              code := status }

def remediateKernelModuleUnavailable (outcomes : Outcomes) (moduleName : Bytes) : ConfigM Status := do
  if isValidModuleName moduleName = false then throw { message := utf8 "Invalid kernel module name", code := EINVAL }
  else
    unlessCompliant outcomes do
      let moduleLoaded ← ConfigRewrite.ofExcept outcomes.isKernelModuleLoaded
      if moduleLoaded then
        throw { message := utf8 "Refusing to unload active kernel module '" ++ moduleName ++ utf8 "'", code := ENOTSUP }
      else disableModule outcomes moduleName

section Law

variable {outcomes : Outcomes} {file : Option ConfigFile}

/-- The file that was created is gone, unless the rollback fails. -/
theorem removeCreatedConfig_rollsBack {created : ConfigFile} {s : Run} (hfile : s.file = some created) :
    RollsBack (removeCreatedConfig outcomes created.number) (outcomes.inspect = none ∧ outcomes.unlink = none) none
      s := by
  rcases hinspect : outcomes.inspect with _ | errno
  · have hlstat : lstat none s = .ok (.ok created.number) s := by simp only [lstat, hfile]
    rcases hunlink : outcomes.unlink with _ | errno
    · have hrun : unlink none s = .ok none { s with file := none } := by simp only [unlink, hfile]
      refine ⟨fun _ => ⟨{ s with file := none }, ?_, rfl, rfl⟩, fun h => absurd ⟨rfl, rfl⟩ h⟩
      rw [removeCreatedConfig, hinspect, bind_run_ok _ hlstat]
      simp only [ne_eq, not_true_eq_false, if_false]
      rw [hunlink, bind_run_ok _ hrun]
      rfl
    · have hrun : unlink (some errno) s = .ok (some errno) s := by simp only [unlink]
      refine ⟨fun h => (nomatch h.2), fun _ => ?_⟩
      rw [removeCreatedConfig, hinspect, bind_run_ok _ hlstat]
      simp only [ne_eq, not_true_eq_false, if_false]
      rw [hunlink, bind_run_ok _ hrun]
      exact ⟨_, s, rfl⟩
  · have hlstat : lstat (some errno) s = .ok (.error errno) s := by simp only [lstat]
    refine ⟨fun h => (nomatch h.1), fun _ => ?_⟩
    rw [removeCreatedConfig, hinspect, bind_run_ok _ hlstat]
    exact ⟨_, s, rfl⟩

theorem rewriteManagedConfig_keeps {moduleName : Bytes} {s : Run} (h : Untouched file s) :
    Keeps file (rewriteManagedConfig outcomes moduleName s) ↔
      ReadsAllToUndo outcomes file fun text => ∃ updated, updateManagedConfig text moduleName = .ok updated := by
  rw [rewriteManagedConfig]
  refine read_keeps h fun text hfile => ?_
  refine (ofExcept_keeps h fun updated => replace_keeps h hfile).trans ?_
  constructor
  · rintro hkeeps ⟨updated, hupdated⟩
    exact hkeeps updated hupdated
  · intro hkeeps updated hupdated
    exact hkeeps ⟨updated, hupdated⟩

/-- A file is created only where there is none, and nothing is what a rollback leaves of it. -/
theorem createManagedConfig_keeps {moduleName : Bytes} {s : Run} (h : Untouched file s) :
    Keeps file (createManagedConfig outcomes moduleName s) := by
  rw [createManagedConfig]
  refine (ofExcept_keeps (P := fun _ => True) h fun updated => iff_true_intro ?_).mpr fun _ _ => trivial
  have hnotCreated (e : Error) (hcreate : createFileContentsAtomic outcomes updated s = .ok (.error e) s) :
      Keeps file ((do
        match ← createFileContentsAtomic outcomes updated with
        | .error e => throw e
        | .ok created => do
          record .wrote
          auditOrRollBack outcomes remained (removeCreatedConfig outcomes created)) s) := by
    rw [bind_run_ok _ hcreate]
    exact h.keeps rfl
  cases houtcome : outcomes.create with
  | error e => exact hnotCreated e (by simp only [createFileContentsAtomic, houtcome])
  | ok number =>
    cases hfile : s.file with
    | some old => exact hnotCreated outcomes.fileExists (by simp only [createFileContentsAtomic, houtcome, hfile])
    | none =>
      let created : ConfigFile := { number, contents := updated }
      let written : Run := { s with file := some created }
      let last : Run := { written with events := written.events ++ [.wrote] }
      have hcreate : createFileContentsAtomic outcomes updated s = .ok (.ok created.number) written := by
        simp only [createFileContentsAtomic, houtcome, hfile, written, created]
      have hrecord : record .wrote written = .ok () last := rfl
      have hrolls : ∀ t, t.file = last.file →
          RollsBack (removeCreatedConfig outcomes created.number)
            (outcomes.inspect = none ∧ outcomes.unlink = none) none t :=
        fun t ht => removeCreatedConfig_rollsBack ht
      rw [bind_run_ok _ hcreate]
      simp only
      rw [bind_run_ok _ hrecord]
      refine (auditOrRollBack_keeps hrolls (by simpa [last, written] using h.rollbackFailed)).mpr fun _ _ => ?_
      rw [← h.file, hfile]
      rfl

theorem lstat_leaves (failure : Option Int) (s : Run) :
    (∃ number, failure = none ∧ lstat failure s = .ok (.ok number) s) ∨
      ∃ errno, (failure = none → s.file = none) ∧ lstat failure s = .ok (.error errno) s := by
  cases failure with
  | some errno => exact .inr ⟨errno, fun h => (nomatch h), by simp only [lstat]⟩
  | none =>
    cases hfile : s.file with
    | none => exact .inr ⟨ENOENT, fun _ => rfl, by simp only [lstat, hfile]⟩
    | some file => exact .inl ⟨file.number, rfl, by simp only [lstat, hfile]⟩

theorem disableModule_keeps {moduleName : Bytes} {s : Run} (h : Untouched file s) :
    Keeps file (disableModule outcomes moduleName s) ↔
      (outcomes.lstat = none →
        ReadsAllToUndo outcomes file fun text => ∃ updated, updateManagedConfig text moduleName = .ok updated) := by
  rw [disableModule]
  obtain ⟨number, hnone, hlstat⟩ | ⟨errno, hfile, hlstat⟩ := lstat_leaves outcomes.lstat s
  · rw [bind_run_ok _ hlstat]
    refine (rewriteManagedConfig_keeps h).trans ⟨fun hkeeps _ => hkeeps, fun hkeeps => hkeeps hnone⟩
  · rw [bind_run_ok _ hlstat]
    refine iff_of_true ?_ fun hnone _ original _ hsome => ?_
    · simp only
      split_ifs
      · exact createManagedConfig_keeps h
      · exact h.keeps rfl
    · rw [← h.file, hfile hnone] at hsome
      cases hsome

theorem remediateKernelModuleUnavailable_keeps (outcomes : Outcomes) (moduleName : Bytes) (file : Option ConfigFile) :
    Keeps file (remediateKernelModuleUnavailable outcomes moduleName { file }) ↔
      (isValidModuleName moduleName = true → NeedsChange outcomes →
        ∀ loaded, outcomes.isKernelModuleLoaded = .ok loaded → loaded = false → outcomes.lstat = none →
          ReadsAllToUndo outcomes file fun text => ∃ updated, updateManagedConfig text moduleName = .ok updated) := by
  rw [remediateKernelModuleUnavailable]
  by_cases hvalid : isValidModuleName moduleName = true
  · rw [if_neg (by simp [hvalid])]
    refine Iff.trans ?_ ⟨fun h _ => h, fun h => h hvalid⟩
    refine unlessCompliant_keeps (fun t ht => ?_) (untouched_start file)
    refine ofExcept_keeps ht fun loaded => ?_
    cases loaded with
    | true => exact iff_of_true (ht.keeps rfl) fun h => (nomatch h)
    | false => exact (disableModule_keeps ht).trans ⟨fun h _ => h, fun h => h rfl⟩
  · rw [if_pos (by simpa using hvalid)]
    exact iff_of_true ((untouched_start file).keeps rfl) fun h => absurd h hvalid

end Law

end Kompli.KernelModule
