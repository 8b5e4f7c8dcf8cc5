import Kompli.Procedures.AideAttributes
import Kompli.Procedures.KernelModule
import Kompli.Procedures.LoginDefsOption
import Kompli.Procedures.SystemdConfig

/-! When a remediation that does not succeed leaves its configuration file as it was. -/
namespace Kompli.ConfigRollback
open Parson Foundation ConfigRewrite

inductive Remediation where
  | loginDefsOption (params : LoginDefsOption.Params)
  | systemdConfigValue (params : SystemdConfig.Params)
  | aideAttributes (params : AideAttributes.Params)
  | kernelModuleUnavailable (moduleName : Bytes)

def Remediation.run (outcomes : Outcomes) : Remediation → ConfigM Status
  | .loginDefsOption params => LoginDefsOption.remediateLoginDefsOption outcomes params
  | .systemdConfigValue params => SystemdConfig.remediateSystemdConfigValue outcomes params
  | .aideAttributes params => AideAttributes.remediateAideAttributes outcomes params
  | .kernelModuleUnavailable moduleName => KernelModule.remediateKernelModuleUnavailable outcomes moduleName

/-- The texts of the file that are changed. -/
def Remediation.Changes (outcomes : Outcomes) : Remediation → Bytes → Prop
  | .loginDefsOption params, text => ∃ value, LoginDefsOption.getRemediationValue params = .ok value ∧
      LoginDefsOption.replaceEffectiveLoginDefsValue text params.option value ≠ text
  | .systemdConfigValue params, text => ∃ desired, SystemdConfig.getSystemdConfigRemediationValue params = .ok desired ∧
      SystemdConfig.replaceSystemdConfigValue text desired.block params.parameter desired.value ≠ text
  | .aideAttributes params, text => (∃ attributes, AideAttributes.parseAttributes params = .ok attributes) ∧
      ∃ canonical, outcomes.realpath = some canonical ∧ (¬ ∃ c ∈ canonical, c ∈ utf8 "\r\n") ∧
        AideAttributes.setManagedRule text canonical params.attributes ≠ text
  | .kernelModuleUnavailable moduleName, text => KernelModule.isValidModuleName moduleName = true ∧
      outcomes.isKernelModuleLoaded = .ok false ∧ outcomes.lstat = none ∧
        ∃ updated, KernelModule.updateManagedConfig text moduleName = .ok updated

/-- A file that is there is as it was unless a change is rolled back that was made to a part of it. -/
theorem keeps_iff (outcomes : Outcomes) (remediation : Remediation) (file : Option ConfigFile) :
    Keeps file (remediation.run outcomes { file }) ↔
      (NeedsChange outcomes → ReadsAllToUndo outcomes file (remediation.Changes outcomes)) := by
  cases remediation with
  | loginDefsOption params =>
    refine (LoginDefsOption.remediateLoginDefsOption_keeps outcomes params file).trans ⟨?_, ?_⟩
    · rintro h hneeds count original hread hfile ⟨value, hvalue, hchange⟩
      exact h value hvalue hneeds count original hread hfile hchange
    · intro h value hvalue hneeds count original hread hfile hchange
      exact h hneeds count original hread hfile ⟨value, hvalue, hchange⟩
  | systemdConfigValue params =>
    refine (SystemdConfig.remediateSystemdConfigValue_keeps outcomes params file).trans ⟨?_, ?_⟩
    · rintro h hneeds count original hread hfile ⟨desired, hdesired, hchange⟩
      exact h desired hdesired hneeds count original hread hfile hchange
    · intro h desired hdesired hneeds count original hread hfile hchange
      exact h hneeds count original hread hfile ⟨desired, hdesired, hchange⟩
  | aideAttributes params =>
    refine (AideAttributes.remediateAideAttributes_keeps outcomes params file).trans ⟨?_, ?_⟩
    · rintro h hneeds count original hread hfile ⟨⟨attributes, hattributes⟩, canonical, hpath, hline, hchange⟩
      exact h attributes hattributes hneeds canonical hpath hline count original hread hfile hchange
    · intro h attributes hattributes hneeds canonical hpath hline count original hread hfile hchange
      exact h hneeds count original hread hfile ⟨⟨attributes, hattributes⟩, canonical, hpath, hline, hchange⟩
  | kernelModuleUnavailable moduleName =>
    refine (KernelModule.remediateKernelModuleUnavailable_keeps outcomes moduleName file).trans ⟨?_, ?_⟩
    · rintro h hneeds count original hread hfile ⟨hvalid, hloaded, hlstat, hchange⟩
      exact h hvalid hneeds false hloaded rfl hlstat count original hread hfile hchange
    · intro h hvalid hneeds loaded hloaded hfalse hlstat count original hread hfile hchange
      rw [hfalse] at hloaded
      exact h hneeds count original hread hfile ⟨hvalid, hloaded, hlstat, hchange⟩

/-- The last audit cannot read the file. -/
def lastAuditFails : Outcomes where
  audit := .ok .nonCompliant
  postAudit := .error { message := utf8 "Failed to load file contents", code := 0 }
  read := .ok 3
  replace := none
  rollback := none
  noFile := { message := [], code := ENOENT }
  create := .ok (1, 2)
  fileExists := { message := [], code := 17 }
  lstat := none
  inspect := none
  unlink := none
  realpath := none
  isKernelModuleLoaded := .ok false
  specialFilePath := id
  strerror := fun _ => []

def afterNul : ConfigFile where
  number := (1, 1)
  contents := [0x23, 0, 0x0A]

def passMaxDays : LoginDefsOption.Params where
  option := utf8 "PASS_MAX_DAYS"
  value := utf8 "365"

/-- What is after a NUL is lost when the file is rolled back. -/
theorem loses_what_follows_nul :
    ¬ Keeps (some afterNul) (Remediation.run lastAuditFails (.loginDefsOption passMaxDays) { file := some afterNul }) := by
  intro h
  have hfinal : final (Remediation.run lastAuditFails (.loginDefsOption passMaxDays) { file := some afterNul }) =
      { file := some { afterNul with contents := [0x23] }
        events := [.audited (.ok .nonCompliant), .wrote, .audited lastAuditFails.postAudit, .rolledBack] } := rfl
  have hrestored := h.restored (fun t ht => by cases ht)
  rw [hfinal] at hrestored
  exact absurd (hrestored (by simp)) (by decide)

end Kompli.ConfigRollback
