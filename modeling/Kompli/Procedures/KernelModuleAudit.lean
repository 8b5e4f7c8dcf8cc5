import Kompli.Procedures.KernelModulePatterns

/-! The audit of a kernel module over the orders its directories are read in, and after its remediation. -/
namespace Kompli.KernelModule
open Foundation Streams ConfigRewrite

/-- `std::regex` matches what ECMAScript does. -/
def FollowsEcmaScript (regex : RegexEngine) : Prop :=
  ∀ pattern r, EcmaScript.compile pattern = some r →
    ∃ search, regex pattern = .ok search ∧ ∀ line, search line = r.search line

section Orders

inductive KernelDir.Reordered : KernelDir → KernelDir → Prop
  | refl (dir) : Reordered dir dir
  | tree {nodes nodes'} (h : DirectoryNode.Reordered nodes nodes') : Reordered (.tree nodes) (.tree nodes')

/-- The same host with the entries of its directories read in another order. -/
structure Host.Reordered (host other : Host) : Prop where
  modulesDir : Option.Rel List.Perm host.modulesDir other.modulesDir
  kernelDir : ∀ name, (host.kernelDir name).Reordered (other.kernelDir name)
  procModules : other.procModules = host.procModules
  runningKernelRelease : other.runningKernelRelease = host.runningKernelRelease
  showConfig : other.showConfig = host.showConfig

/-- The files of every kernel, in the order of the search. -/
def Host.files (host : Host) : List Bytes :=
  (host.modulesDir.getD []).flatMap fun entry => if entry.isDirectory then (host.kernelDir entry.name).files else []

def Host.HasModule (host : Host) (moduleName : Bytes) : Prop :=
  ∃ fileName ∈ host.files, isModuleFile moduleName fileName = true

def Host.HasOverlay (host : Host) (moduleName : Bytes) : Prop :=
  ∃ fileName ∈ host.files, isModuleFile moduleName fileName = false ∧ isOverlayFile moduleName fileName = true

/-- The first file of the module that the search meets is an overlay. -/
def Host.MeetsOverlayFirst (host : Host) (moduleName : Bytes) : Prop :=
  ∃ fileName ∈ host.files.find? fun fileName => isModuleFile moduleName fileName || isOverlayFile moduleName fileName,
    isModuleFile moduleName fileName = false

theorem Host.Reordered.refl (host : Host) : host.Reordered host where
  modulesDir := by
    cases host.modulesDir with
    | none => exact .none
    | some entries => exact .some (.refl entries)
  kernelDir _ := .refl _
  procModules := rfl
  runningKernelRelease := rfl
  showConfig := rfl

private theorem rel_cases {α : Type} {r : α → α → Prop} {o o' : Option α} (h : Option.Rel r o o') :
    (o = none ∧ o' = none) ∨ ∃ a a', o = some a ∧ o' = some a' ∧ r a a' := by
  cases h with
  | none => exact .inl ⟨rfl, rfl⟩
  | some h => exact .inr ⟨_, _, rfl, rfl, h⟩

variable {host other : Host} {moduleName : Bytes}

theorem KernelDir.Reordered.files_perm {dir dir' : KernelDir} (h : dir.Reordered dir') : dir.files.Perm dir'.files := by
  cases h with
  | refl => exact .refl _
  | tree h => exact h.files_perm

theorem Host.Reordered.files_perm (h : host.Reordered other) : host.files.Perm other.files := by
  have hentries : (host.modulesDir.getD []).Perm (other.modulesDir.getD []) := by
    rcases rel_cases h.modulesDir with ⟨hnone, hnone'⟩ | ⟨entries, entries', hsome, hsome', hperm⟩
    · rw [hnone, hnone']
    · rwa [hsome, hsome']
  refine hentries.flatMap fun entry _ => ?_
  split_ifs
  · exact (h.kernelDir entry.name).files_perm
  · exact .refl _

/-- In some order any file is the first that the search meets. -/
theorem Host.exists_reordered_head {fileName : Bytes} (hmem : fileName ∈ host.files) :
    ∃ other, host.Reordered other ∧ other.files.head? = some fileName := by
  obtain ⟨entry, hentry, hfile⟩ := List.mem_flatMap.mp hmem
  split_ifs at hfile with hdirectory
  · obtain ⟨dir, hdir, hhead⟩ : ∃ dir, (host.kernelDir entry.name).Reordered dir ∧ dir.files.head? = some fileName := by
      cases hcases : host.kernelDir entry.name with
      | tree nodes =>
        rw [hcases] at hfile
        obtain ⟨nodes', hnodes, hhead⟩ := DirectoryNode.exists_reordered_head hfile
        exact ⟨.tree nodes', .tree hnodes, hhead⟩
      | _ =>
        rw [hcases] at hfile
        exact absurd hfile List.not_mem_nil
    cases hentries : host.modulesDir with
    | none =>
      rw [hentries] at hentry
      exact absurd hentry List.not_mem_nil
    | some entries =>
      rw [hentries, Option.getD_some] at hentry
      obtain ⟨before, after, rfl⟩ := List.append_of_mem hentry
      refine ⟨{ host with
        modulesDir := some (entry :: (before ++ after)), kernelDir := Function.update host.kernelDir entry.name dir },
        ⟨?_, ?_, rfl, rfl, rfl⟩, ?_⟩
      · rw [hentries]
        exact .some List.perm_middle
      · intro name
        by_cases heq : name = entry.name
        · rw [heq]
          simpa only [Function.update_self] using hdir
        · simpa only [Function.update_of_ne heq] using KernelDir.Reordered.refl _
      · simp only [Host.files, Option.getD_some, List.flatMap_cons, if_pos hdirectory, Function.update_self,
          List.head?_append, hhead, Option.some_or]
  · exact absurd hfile List.not_mem_nil

end Orders

section Search

variable {host other : Host} {moduleName : Bytes}

theorem overlay_ne (moduleName : Bytes) : overlay moduleName ≠ moduleName := by
  intro h
  have hlength := congrArg List.length h
  rw [overlay, List.length_append] at hlength
  have hpos : (utf8 "_overlay").length = 8 := by decide
  omega

/-- The search goes through the files of every kernel. -/
theorem searchFilesystemForModuleName_eq (host : Host) (moduleName : Bytes) :
    searchFilesystemForModuleName host moduleName =
      match host.modulesDir with
      | none => .error { message := utf8 "Failed to open /lib/modules directory" }
      | some _ =>
        match host.files.findSome? (foundAs moduleName) with
        | some name => .ok (true, name)
        | none => .ok (false, moduleName) := by
  rw [searchFilesystemForModuleName]
  cases hentries : host.modulesDir with
  | none => rfl
  | some entries =>
    have hfound : (entries.findSome? fun entry =>
        if entry.isDirectory then (host.kernelDir entry.name).files.findSome? (foundAs moduleName) else none) =
          host.files.findSome? (foundAs moduleName) := by
      rw [Host.files, hentries, Option.getD_some]
      clear hentries
      induction entries with
      | nil => rfl
      | cons entry entries ih =>
        rw [List.findSome?_cons, List.flatMap_cons, List.findSome?_append, ← ih]
        split_ifs
        · cases (host.kernelDir entry.name).files.findSome? (foundAs moduleName) <;> rfl
        · rfl
    cases hsearch : host.files.findSome? (foundAs moduleName) with
    | none => simp only [hfound, hsearch]
    | some name => simp only [hfound, hsearch]

theorem findSome?_foundAs (files : List Bytes) (moduleName : Bytes) :
    files.findSome? (foundAs moduleName) =
      (files.find? fun fileName => isModuleFile moduleName fileName || isOverlayFile moduleName fileName).map fun fileName =>
        if isModuleFile moduleName fileName then moduleName else overlay moduleName := by
  induction files with
  | nil => rfl
  | cons fileName files ih =>
    rw [List.findSome?_cons, List.find?_cons, foundAs, ih]
    cases hmodule : isModuleFile moduleName fileName <;> cases hoverlay : isOverlayFile moduleName fileName <;> simp [hmodule]

end Search

section Checks

variable (regex : RegexEngine) (host : Host)

/-- Whether a pattern is found in what modprobe reports. -/
def Shows (pattern : Bytes) (found : Bool) : Prop :=
  ∃ output search, host.showConfig = .ok output ∧ regex pattern = .ok search ∧ multilineRegexSearch output search = found

/-- The module is not loaded, it is on the blocklist, and it is masked where it has to be. -/
structure PassesChecks (moduleName : Bytes) : Prop where
  loaded : isKernelModuleLoaded regex host moduleName = .ok false
  blocklisted : Shows regex host (blocklistPattern moduleName) true
  masked : isModuleAvailableInRunningKernel host moduleName = true → Shows regex host (installPattern moduleName) true

/-- One of the checks is made and not passed. -/
def FailsCheck (moduleName : Bytes) : Prop :=
  isKernelModuleLoaded regex host moduleName = .ok true ∨
    isKernelModuleLoaded regex host moduleName = .ok false ∧
      (Shows regex host (blocklistPattern moduleName) false ∨
        Shows regex host (blocklistPattern moduleName) true ∧ isModuleAvailableInRunningKernel host moduleName = true ∧
          Shows regex host (installPattern moduleName) false)

/-- The checks do not tell a module from its overlay. -/
def SameForOverlay (moduleName : Bytes) : Prop :=
  (PassesChecks regex host moduleName ↔ PassesChecks regex host (overlay moduleName)) ∧
    (FailsCheck regex host moduleName ↔ FailsCheck regex host (overlay moduleName))

def checkStatus (moduleName : Bytes) : Option Status := (checkModule regex host moduleName).toOption.map (·.status)

variable {regex host} {other : Host} {moduleName : Bytes}

private theorem shows_iff {output pattern : Bytes} {search : Bytes → Bool} (houtput : host.showConfig = .ok output)
    (hsearch : regex pattern = .ok search) (found : Bool) :
    Shows regex host pattern found ↔ multilineRegexSearch output search = found := by
  rw [Shows, houtput, hsearch]
  constructor
  · rintro ⟨_, _, ⟨⟩, ⟨⟩, h⟩
    exact h
  · exact fun h => ⟨output, search, rfl, rfl, h⟩

private theorem not_shows {pattern : Bytes} {e : Error} (h : host.showConfig = .error e ∨ regex pattern = .error e)
    (found : Bool) : ¬ Shows regex host pattern found := by
  rintro ⟨output, search, houtput, hsearch, -⟩
  rcases h with h | h
  · rw [houtput] at h
    cases h
  · rw [hsearch] at h
    cases h

/-- What a status says of the checks. -/
def Says (status : Option Status) (passes fails : Prop) : Prop :=
  match status with
  | some .compliant => passes ∧ ¬ fails
  | some .nonCompliant => fails ∧ ¬ passes
  | some .notApplicable => False
  | none => ¬ passes ∧ ¬ fails

private theorem isKernelModuleBlocked_meaning (moduleName : Bytes) (requireMask : Bool) :
    Says ((isKernelModuleBlocked regex host moduleName requireMask).toOption.map (·.status))
      (Shows regex host (blocklistPattern moduleName) true ∧
        (requireMask = true → Shows regex host (installPattern moduleName) true))
      (Shows regex host (blocklistPattern moduleName) false ∨
        Shows regex host (blocklistPattern moduleName) true ∧ requireMask = true ∧
          Shows regex host (installPattern moduleName) false) := by
  rw [isKernelModuleBlocked]
  cases houtput : host.showConfig with
  | error e => exact ⟨fun h => not_shows (.inl houtput) true h.1, by simp [not_shows (.inl houtput)]⟩
  | ok output =>
    cases hblocklist : regex (blocklistPattern moduleName) with
    | error e => exact ⟨fun h => not_shows (.inr hblocklist) true h.1, by simp [not_shows (.inr hblocklist)]⟩
    | ok blocklisted =>
      rw [shows_iff houtput hblocklist, shows_iff houtput hblocklist]
      simp only [bind, Except.bind, pure, Except.pure]
      cases hlisted : multilineRegexSearch output blocklisted with
      | false => simp [Says, Except.toOption]
      | true =>
        cases requireMask with
        | false => simp [Says, Except.toOption]
        | true =>
          cases hinstall : regex (installPattern moduleName) with
          | error e => simp [Says, Except.toOption, not_shows (.inr hinstall)]
          | ok masked =>
            rw [shows_iff houtput hinstall, shows_iff houtput hinstall]
            cases hmasked : multilineRegexSearch output masked with
            | false => simp [Says, Except.toOption, hmasked]
            | true => simp [Says, Except.toOption, hmasked]

theorem checkStatus_meaning (moduleName : Bytes) :
    Says (checkStatus regex host moduleName) (PassesChecks regex host moduleName) (FailsCheck regex host moduleName) := by
  rw [checkStatus, checkModule]
  cases hloaded : isKernelModuleLoaded regex host moduleName with
  | error e =>
    refine ⟨fun h => ?_, ?_⟩
    · cases hloaded.symm.trans h.loaded
    · rw [FailsCheck, hloaded]
      simp
  | ok loaded =>
    cases loaded with
    | true =>
      refine ⟨.inl hloaded, fun h => ?_⟩
      cases hloaded.symm.trans h.loaded
    | false =>
      have hblocked := @isKernelModuleBlocked_meaning regex host moduleName (isModuleAvailableInRunningKernel host moduleName)
      have hpasses : PassesChecks regex host moduleName ↔ Shows regex host (blocklistPattern moduleName) true ∧
          (isModuleAvailableInRunningKernel host moduleName = true → Shows regex host (installPattern moduleName) true) :=
        ⟨fun h => ⟨h.blocklisted, h.masked⟩, fun h => ⟨hloaded, h.1, h.2⟩⟩
      rw [hpasses, FailsCheck, hloaded]
      simpa [bind, Except.bind] using hblocked

theorem checkStatus_iff (moduleName : Bytes) :
    (checkStatus regex host moduleName = some .compliant ↔ PassesChecks regex host moduleName) ∧
      (checkStatus regex host moduleName = some .nonCompliant ↔ FailsCheck regex host moduleName) ∧
        checkStatus regex host moduleName ≠ some .notApplicable := by
  have h := @checkStatus_meaning regex host moduleName
  cases hstatus : checkStatus regex host moduleName with
  | none =>
    rw [hstatus] at h
    simp [h.1, h.2]
  | some status =>
    rw [hstatus] at h
    cases status with
    | compliant => simp [h.1, h.2]
    | nonCompliant => simp [h.1, h.2]
    | notApplicable => exact h.elim

/-- Two names have the same status where the checks do not tell them apart. -/
theorem sameForOverlay_iff :
    SameForOverlay regex host moduleName ↔
      checkStatus regex host moduleName = checkStatus regex host (overlay moduleName) := by
  obtain ⟨hpasses, hfails, hother⟩ := @checkStatus_iff regex host moduleName
  obtain ⟨hpasses', hfails', hother'⟩ := @checkStatus_iff regex host (overlay moduleName)
  rw [SameForOverlay, ← hpasses, ← hfails, ← hpasses', ← hfails']
  constructor
  · rintro ⟨hcompliant, hnonCompliant⟩
    rcases hstatus : checkStatus regex host moduleName with _ | _ | _ | _ <;>
      rcases hstatus' : checkStatus regex host (overlay moduleName) with _ | _ | _ | _ <;> simp_all
  · intro h
    rw [h]
    exact ⟨Iff.rfl, Iff.rfl⟩

end Checks

section Order

variable {regex : RegexEngine} {host other : Host} {moduleName : Bytes}

/-- The name the search ends with, if it finds a file. -/
def Host.foundName (host : Host) (moduleName : Bytes) : Option Bytes := host.files.findSome? (foundAs moduleName)

theorem auditStatus_eq (hentries : host.modulesDir.isSome = true) :
    auditStatus regex host moduleName =
      match host.foundName moduleName with
      | some name => checkStatus regex host name
      | none => some .compliant := by
  obtain ⟨entries, hsome⟩ := Option.isSome_iff_exists.mp hentries
  rw [auditStatus, auditKernelModuleUnavailable, searchFilesystemForModuleName_eq, hsome, ← Host.foundName]
  cases host.foundName moduleName <;> rfl

theorem auditStatus_none (hentries : host.modulesDir = none) : auditStatus regex host moduleName = none := by
  rw [auditStatus, auditKernelModuleUnavailable, searchFilesystemForModuleName_eq, hentries]
  rfl

theorem foundName_eq_some {name : Bytes} (h : host.foundName moduleName = some name) :
    (name = moduleName ∧ host.HasModule moduleName) ∨ (name = overlay moduleName ∧ host.HasOverlay moduleName) := by
  obtain ⟨fileName, hmem, hfound⟩ := List.exists_of_findSome?_eq_some h
  rw [foundAs] at hfound
  split_ifs at hfound with hmodule hoverlay
  · cases hfound
    exact .inl ⟨rfl, fileName, hmem, hmodule⟩
  · cases hfound
    exact .inr ⟨rfl, fileName, hmem, by simpa using hmodule, hoverlay⟩

theorem Host.Reordered.foundName_eq_none (h : host.Reordered other) :
    other.foundName moduleName = none ↔ host.foundName moduleName = none := by
  rw [Host.foundName, Host.foundName, List.findSome?_eq_none_iff, List.findSome?_eq_none_iff]
  exact forall_congr' fun fileName => by rw [h.files_perm.mem_iff]

theorem Host.Reordered.checkStatus_eq (h : host.Reordered other) (name : Bytes) :
    checkStatus regex other name = checkStatus regex host name := by
  have havailable : isModuleAvailableInRunningKernel other name = isModuleAvailableInRunningKernel host name := by
    rw [isModuleAvailableInRunningKernel, isModuleAvailableInRunningKernel, h.runningKernelRelease]
    cases host.runningKernelRelease with
    | none => rfl
    | some release =>
      have hdir := h.kernelDir release
      simp only
      generalize host.kernelDir release = dir at hdir ⊢
      generalize other.kernelDir release = dir' at hdir ⊢
      cases hdir with
      | refl => rfl
      | tree hnodes => exact hnodes.files_perm.symm.any_eq
  rw [checkStatus, checkStatus, checkModule, checkModule, havailable, isKernelModuleLoaded, isKernelModuleLoaded,
    h.procModules]
  simp only [isKernelModuleBlocked, h.showConfig]

theorem Host.Reordered.modulesDir_isSome (h : host.Reordered other) :
    other.modulesDir.isSome = host.modulesDir.isSome := by
  rcases rel_cases h.modulesDir with ⟨hnone, hnone'⟩ | ⟨entries, entries', hsome, hsome', -⟩
  · rw [hnone, hnone']
  · rw [hsome, hsome']
    rfl

theorem Host.Reordered.hasModule (h : host.Reordered other) : other.HasModule moduleName → host.HasModule moduleName :=
  fun ⟨fileName, hmem, hmodule⟩ => ⟨fileName, h.files_perm.mem_iff.mpr hmem, hmodule⟩

theorem Host.Reordered.hasOverlay (h : host.Reordered other) : other.HasOverlay moduleName → host.HasOverlay moduleName :=
  fun ⟨fileName, hmem, hoverlay⟩ => ⟨fileName, h.files_perm.mem_iff.mpr hmem, hoverlay⟩

/-- A file that matches is what the search ends with in some order. -/
theorem exists_auditStatus {fileName name : Bytes} (hmem : fileName ∈ host.files)
    (hfound : foundAs moduleName fileName = some name) :
    ∃ other, host.Reordered other ∧ auditStatus regex other moduleName = checkStatus regex host name := by
  obtain ⟨other, hreordered, hhead⟩ := Host.exists_reordered_head hmem
  refine ⟨other, hreordered, ?_⟩
  have hentries : other.modulesDir.isSome = true := by
    cases hcases : other.modulesDir with
    | some entries => rfl
    | none =>
      rw [Host.files, hcases] at hhead
      cases hhead
  obtain ⟨files, hfiles⟩ := List.head?_eq_some_iff.mp hhead
  have hname : other.foundName moduleName = some name := by
    rw [Host.foundName, hfiles, List.findSome?_cons, hfound]
  rw [auditStatus_eq hentries, hname]
  exact hreordered.checkStatus_eq name

/-- When no order changes the status. -/
theorem auditStatus_reordered_iff :
    (∀ other, host.Reordered other → auditStatus regex other moduleName = auditStatus regex host moduleName) ↔
      (host.HasModule moduleName ∧ host.HasOverlay moduleName → SameForOverlay regex host moduleName) := by
  constructor
  · rintro h ⟨⟨fileName, hmem, hmodule⟩, overlayName, hmem', hnot, hoverlay⟩
    have hfound : foundAs moduleName fileName = some moduleName := by rw [foundAs, if_pos hmodule]
    have hfound' : foundAs moduleName overlayName = some (overlay moduleName) := by
      rw [foundAs, if_neg (by simp [hnot]), if_pos hoverlay]
    obtain ⟨first, hfirst, hstatus⟩ := @exists_auditStatus regex _ _ _ _ hmem hfound
    obtain ⟨second, hsecond, hstatus'⟩ := @exists_auditStatus regex _ _ _ _ hmem' hfound'
    rw [sameForOverlay_iff, ← hstatus, ← hstatus', h first hfirst, h second hsecond]
  · intro h other hother
    have hsome := hother.modulesDir_isSome
    cases hentries : host.modulesDir.isSome with
    | false =>
      rw [hentries, Option.isSome_eq_false_iff, Option.isNone_iff_eq_none] at hsome
      rw [Option.isSome_eq_false_iff, Option.isNone_iff_eq_none] at hentries
      rw [auditStatus_none hsome, auditStatus_none hentries]
    | true =>
      rw [hentries] at hsome
      rw [auditStatus_eq hsome, auditStatus_eq hentries]
      have hnone := @Host.Reordered.foundName_eq_none _ _ moduleName hother
      cases hfound : host.foundName moduleName with
      | none => rw [hnone.mpr hfound]
      | some name =>
        cases hfound' : other.foundName moduleName with
        | none => cases (hnone.mp hfound').symm.trans hfound
        | some name' =>
          simp only [hother.checkStatus_eq]
          rcases foundName_eq_some hfound with ⟨rfl, hmodule⟩ | ⟨rfl, hoverlay⟩ <;>
            rcases foundName_eq_some hfound' with ⟨rfl, hmodule'⟩ | ⟨rfl, hoverlay'⟩
          · rfl
          · exact (sameForOverlay_iff.mp (h ⟨hmodule, hother.hasOverlay hoverlay'⟩)).symm
          · exact sameForOverlay_iff.mp (h ⟨hother.hasModule hmodule', hoverlay⟩)
          · rfl

end Order

section Remediation

variable {regex : RegexEngine} {host other : Host} {moduleName report : Bytes}

/-- What is written is written after an audit that finds something to be done. -/
private theorem unlessCompliant_wrote {outcomes : Outcomes} {next : ConfigM Status} {file : Option ConfigFile}
    (h : .wrote ∈ (final (unlessCompliant outcomes next { file })).events) :
    NeedsChange outcomes ∧ .wrote ∈ (final (next { file, events := [.audited outcomes.audit] })).events := by
  let t : Run := { file, events := [.audited outcomes.audit] }
  have haudit : ConfigRewrite.audit outcomes.audit { file } = .ok outcomes.audit t := rfl
  rw [unlessCompliant, bind_run_ok _ haudit] at h
  rcases hcases : outcomes.audit with e | status
  · simp only [hcases] at h
    cases List.mem_singleton.mp h
  · cases status with
    | compliant =>
      simp only [hcases] at h
      cases List.mem_singleton.mp h
    | nonCompliant =>
      simp only [hcases] at h
      exact ⟨⟨.nonCompliant, hcases, by simp⟩, by simpa only [t, hcases] using h⟩
    | notApplicable =>
      simp only [hcases] at h
      exact ⟨⟨.notApplicable, hcases, by simp⟩, by simpa only [t, hcases] using h⟩

/-- A block is written for a module with a valid name that the audit finds available and that is not loaded. -/
theorem remediateKernelModuleUnavailable_wrote {outcomes : Outcomes} {file : Option ConfigFile}
    (h : .wrote ∈ (final (remediateKernelModuleUnavailable outcomes moduleName { file })).events) :
    isValidModuleName moduleName = true ∧ NeedsChange outcomes ∧ outcomes.isKernelModuleLoaded = .ok false := by
  rw [remediateKernelModuleUnavailable] at h
  by_cases hvalid : isValidModuleName moduleName = true
  · rw [if_neg (by simp [hvalid])] at h
    obtain ⟨hneeds, hwrote⟩ := unlessCompliant_wrote h
    refine ⟨hvalid, hneeds, ?_⟩
    rcases hloaded : outcomes.isKernelModuleLoaded with e | _ | _
    · rw [hloaded] at hwrote
      cases List.mem_singleton.mp hwrote
    · rfl
    · rw [hloaded] at hwrote
      cases List.mem_singleton.mp hwrote
  · rw [if_pos (by simpa using hvalid)] at h
    exact absurd h List.not_mem_nil

/-- Where the file is created and the last audit is passed, the block is written. -/
theorem remediateKernelModuleUnavailable_creates {outcomes : Outcomes} {number : Nat × Nat}
    (hvalid : isValidModuleName moduleName = true) (haudit : outcomes.audit = .ok .nonCompliant)
    (hloaded : outcomes.isKernelModuleLoaded = .ok false) (hlstat : outcomes.lstat = none)
    (hcreate : outcomes.create = .ok number) (hpost : outcomes.postAudit = .ok .compliant) :
    .wrote ∈ (final (remediateKernelModuleUnavailable outcomes moduleName { file := none })).events := by
  have hplain : ¬ utf8 "# BEGIN KOMPLI DISABLE " <:+: [] := by
    rw [List.infix_nil]
    decide
  obtain ⟨updated, hupdated, -⟩ := @run_holdsBlocks [] [moduleName] hplain (by simpa using hvalid)
  change (updateManagedConfig [] moduleName >>= pure) = _ at hupdated
  rw [bind_pure] at hupdated
  rw [remediateKernelModuleUnavailable, if_neg (by simp [hvalid])]
  simp only [disableModule, createManagedConfig, hupdated]
  obtain ⟨audit, postAudit, read, replace, rollback, noFile, create, fileExists, lstat⟩ := outcomes
  simp only at haudit hloaded hlstat hcreate hpost
  subst haudit hloaded hlstat hcreate hpost
  change Event.wrote ∈ [.audited (.ok .nonCompliant), .wrote, .audited (.ok .compliant)]
  exact List.mem_cons_of_mem _ List.mem_cons_self

theorem meetsOverlayFirst_iff : host.MeetsOverlayFirst moduleName ↔ host.foundName moduleName = some (overlay moduleName) := by
  rw [Host.foundName, findSome?_foundAs, Option.map_eq_some_iff, Host.MeetsOverlayFirst]
  refine exists_congr fun fileName => and_congr_right fun _ => ?_
  split_ifs with hmodule
  · simp [hmodule, (overlay_ne moduleName).symm]
  · simp [hmodule]

private theorem shows_of_line {pattern line : Bytes} {r : Regex UInt8} (hregex : FollowsEcmaScript regex)
    (hcompile : EcmaScript.compile pattern = some r) (houtput : host.showConfig = .ok report)
    (hline : line ∈ lines report) (hfinds : r.Finds line) : Shows regex host pattern true := by
  obtain ⟨search, hsearch, heq⟩ := hregex pattern r hcompile
  refine ⟨report, search, houtput, hsearch, List.any_eq_true.mpr ⟨line, hline, ?_⟩⟩
  rw [heq, Regex.search_iff]
  exact hfinds

private theorem line_of_shows {pattern : Bytes} {r : Regex UInt8} (hregex : FollowsEcmaScript regex)
    (hcompile : EcmaScript.compile pattern = some r) (houtput : host.showConfig = .ok report)
    (h : Shows regex host pattern true) : ∃ line ∈ lines report, r.Finds line := by
  obtain ⟨search, hsearch, heq⟩ := hregex pattern r hcompile
  rw [shows_iff houtput hsearch, multilineRegexSearch, List.any_eq_true] at h
  obtain ⟨line, hline, hfound⟩ := h
  rw [heq, Regex.search_iff] at hfound
  exact ⟨line, hline, hfound⟩

/-- The block has no line for the overlay: its name is longer than what is on the line. -/
private theorem not_finds_overlay (hvalid : isValidModuleName moduleName = true) {line : Bytes}
    (hline : line ∈ lines (block moduleName)) : ¬ (blocklistRegex (overlay moduleName)).Finds line := by
  rw [finds_blocklist_iff]
  rintro ⟨gap, name, rfl, ⟨hgap, -⟩, hname⟩
  have hblacklist : utf8 "blacklist" = 0x62 :: utf8 "lacklist" := by decide
  have hmarks : utf8 "# BEGIN KOMPLI DISABLE " = 0x23 :: utf8 " BEGIN KOMPLI DISABLE " ∧
      utf8 "install " = 0x69 :: utf8 "nstall " ∧ utf8 "# END KOMPLI DISABLE " = 0x23 :: utf8 " END KOMPLI DISABLE " := by
    decide
  simp only [lines_block hvalid, managedBlockStart, managedBlockEnd, hblacklist, hmarks, List.mem_cons, List.not_mem_nil,
    or_false, List.cons_append, List.cons.injEq] at hline
  rcases hline with ⟨hbyte, -⟩ | hline | ⟨hbyte, -⟩ | ⟨hbyte, -⟩
  · exact absurd hbyte (by decide)
  · have hlength := congrArg List.length hline
    have hlengths : (utf8 "lacklist").length = 8 ∧ (utf8 "blacklist ").length = 10 ∧ (utf8 "_overlay").length = 8 := by decide
    have hsame := hname.length_eq
    rw [overlay, List.length_append] at hsame
    simp only [List.length_cons, List.length_append] at hlength
    have hpos := List.length_pos_iff.mpr hgap
    omega
  · exact absurd hbyte (by decide)
  · exact absurd hbyte (by decide)

/-- The name that is not the overlay's passes the checks once modprobe reports its block. -/
private theorem passesChecks_of_block (hregex : FollowsEcmaScript regex) (hvalid : isValidModuleName moduleName = true)
    (hloaded : isKernelModuleLoaded regex host moduleName = .ok false) (houtput : host.showConfig = .ok report)
    (hreports : ReportsBlock moduleName report) : PassesChecks regex host moduleName where
  loaded := hloaded
  blocklisted := by
    have hspace : ([0x20] : Bytes) ≠ [] ∧ ∀ c ∈ ([0x20] : Bytes), EcmaScript.isSpace c = true := by decide +kernel
    refine shows_of_line hregex (compile_blocklistPattern (isNameByte_of_valid hvalid)) houtput hreports.blacklist ?_
    exact finds_blocklist_iff.mpr ⟨[0x20], moduleName, rfl, hspace, .refl moduleName⟩
  masked _ :=
    shows_of_line hregex (compile_installPattern (isNameByte_of_valid hvalid)) houtput hreports.install
      (finds_install moduleName)

private theorem not_passesChecks_overlay (hregex : FollowsEcmaScript regex) (hvalid : isValidModuleName moduleName = true)
    (houtput : host.showConfig = .ok report) (hreports : ReportsBlock moduleName report) :
    ¬ PassesChecks regex host (overlay moduleName) := by
  intro h
  have hname : ∀ c ∈ overlay moduleName, isNameByte c = true := by
    have hsuffix : ∀ c ∈ utf8 "_overlay", isNameByte c = true := by decide +kernel
    rw [overlay, List.forall_mem_append]
    exact ⟨isNameByte_of_valid hvalid, hsuffix⟩
  obtain ⟨line, hline, hfinds⟩ := line_of_shows hregex (compile_blocklistPattern hname) houtput h.blocklisted
  exact not_finds_overlay hvalid (hreports.line line hline) hfinds

/-- What a run is told is what is so on the host before the change, and on the host after it. -/
structure RunsOn (regex : RegexEngine) (host after : Host) (moduleName : Bytes) (outcomes : Outcomes) : Prop where
  audit : outcomes.audit = (auditKernelModuleUnavailable regex host moduleName).map (·.status)
  isKernelModuleLoaded : outcomes.isKernelModuleLoaded = KernelModule.isKernelModuleLoaded regex host moduleName
  postAudit : outcomes.postAudit = (auditKernelModuleUnavailable regex after moduleName).map (·.status)

private theorem map_status_iff {status : Status} :
    (auditKernelModuleUnavailable regex host moduleName).map (·.status) = .ok status ↔
      auditStatus regex host moduleName = some status := by
  rw [auditStatus]
  cases auditKernelModuleUnavailable regex host moduleName with
  | error e => simp [Except.map, Except.toOption]
  | ok indicator => simp [Except.map, Except.toOption]

/-- No order changes the status just where the checks do not tell the module from its overlay, if both are there; and
the audit after the block was written is passed just where the first file that it meets is no overlay. -/
theorem auditKernelModuleUnavailable_settles_iff (hregex : FollowsEcmaScript regex) (host : Host) (moduleName : Bytes) :
    ((∀ other, host.Reordered other → auditStatus regex other moduleName = auditStatus regex host moduleName) ↔
        (host.HasModule moduleName ∧ host.HasOverlay moduleName → SameForOverlay regex host moduleName)) ∧
      ∀ other report outcomes file, host.Reordered other → ReportsBlock moduleName report →
        RunsOn regex host { other with showConfig := .ok report } moduleName outcomes →
          .wrote ∈ (final (remediateKernelModuleUnavailable outcomes moduleName { file })).events →
            (outcomes.postAudit = .ok .compliant ↔ ¬ other.MeetsOverlayFirst moduleName) := by
  refine ⟨auditStatus_reordered_iff, fun other report outcomes file hother hreports hruns hwrote => ?_⟩
  obtain ⟨hvalid, ⟨status, haudit, hne⟩, hloaded⟩ := remediateKernelModuleUnavailable_wrote hwrote
  let after : Host := { other with showConfig := .ok report }
  have hstatus : auditStatus regex host moduleName = some status := map_status_iff.mp (hruns.audit.symm.trans haudit)
  have hentries : after.modulesDir.isSome = true := by
    rw [hother.modulesDir_isSome]
    cases hcases : host.modulesDir with
    | some entries => rfl
    | none =>
      rw [auditStatus_none hcases] at hstatus
      cases hstatus
  have hfound : after.foundName moduleName ≠ none := by
    intro hnone
    rw [auditStatus_eq (hother.modulesDir_isSome.symm.trans hentries), hother.foundName_eq_none.mp hnone] at hstatus
    cases hstatus
    exact hne rfl
  have hloaded' : isKernelModuleLoaded regex after moduleName = .ok false := by
    rw [← hloaded, hruns.isKernelModuleLoaded, isKernelModuleLoaded, isKernelModuleLoaded, ← hother.procModules]
  have hmeets : after.MeetsOverlayFirst moduleName ↔ after.foundName moduleName = some (overlay moduleName) :=
    meetsOverlayFirst_iff
  obtain ⟨name, hname⟩ := Option.ne_none_iff_exists'.mp hfound
  rw [hruns.postAudit, map_status_iff, auditStatus_eq hentries]
  change _ ↔ ¬ after.MeetsOverlayFirst moduleName
  rw [hmeets, hname]
  simp only
  rw [(checkStatus_iff name).1]
  rcases foundName_eq_some hname with ⟨rfl, -⟩ | ⟨rfl, -⟩
  · refine iff_of_true (passesChecks_of_block hregex hvalid hloaded' rfl hreports) fun h => ?_
    exact overlay_ne name (Option.some.inj h).symm
  · exact iff_of_false (not_passesChecks_overlay hregex hvalid rfl hreports) fun h => h rfl

/-- The engine that reads what of ECMAScript is modelled. -/
def ecmaScriptEngine : RegexEngine := fun pattern =>
  match EcmaScript.compile pattern with
  | none => .error { message := utf8 "regex_error" }
  | some r => .ok r.search

theorem ecmaScriptEngine_follows : FollowsEcmaScript ecmaScriptEngine := by
  intro pattern r hcompile
  exact ⟨r.search, by simp only [ecmaScriptEngine, hcompile], fun line => rfl⟩

/-- A host with one kernel, whose modules are in one directory. -/
def oneKernel (modules : List Bytes) (report : Bytes) : Host where
  modulesDir := some [{ name := utf8 "6.8", isDirectory := true }]
  kernelDir _ := .tree [.directory (utf8 "drivers") (modules.map .file)]
  procModules := .ok (utf8 "ext4 16384 1 - Live 0x0\n")
  runningKernelRelease := some (utf8 "6.8")
  showConfig := .ok report

/-- The file of the configuration is not there before, and can be created. -/
def creating (audit postAudit : Except Error Status) : Outcomes where
  audit
  postAudit
  read := .ok 0
  replace := none
  rollback := none
  noFile := { message := [], code := ENOENT }
  create := .ok (1, 2)
  fileExists := { message := [], code := 17 }
  lstat := none
  inspect := none
  unlink := none
  realpath := none
  isKernelModuleLoaded := .ok false
  specialFilePath := id
  strerror := fun _ => []

/-- The block is written for a module without an overlay, and the audit after it is passed. -/
theorem auditKernelModuleUnavailable_settles_usbStorage :
    ∃ host outcomes, RunsOn ecmaScriptEngine (oneKernel [utf8 "usb-storage.ko"] []) host (utf8 "usb-storage") outcomes ∧
      .wrote ∈ (final (remediateKernelModuleUnavailable outcomes (utf8 "usb-storage") { file := none })).events ∧
        outcomes.postAudit = .ok .compliant := by
  let host := oneKernel [utf8 "usb-storage.ko"] []
  let outcomes := creating (.ok .nonCompliant) (.ok .compliant)
  have hvalid : isValidModuleName (utf8 "usb-storage") = true := by decide +kernel
  have hruns : RunsOn ecmaScriptEngine host { host with showConfig := .ok (block (utf8 "usb-storage")) }
      (utf8 "usb-storage") outcomes :=
    ⟨(map_status_iff.mpr (by decide +kernel)).symm, by decide +kernel, (map_status_iff.mpr (by decide +kernel)).symm⟩
  have hwrote : .wrote ∈
      (final (remediateKernelModuleUnavailable outcomes (utf8 "usb-storage") { file := none })).events :=
    remediateKernelModuleUnavailable_creates hvalid rfl rfl rfl rfl rfl
  refine ⟨_, outcomes, hruns, hwrote, ?_⟩
  refine ((auditKernelModuleUnavailable_settles_iff ecmaScriptEngine_follows host _).2 host _ outcomes none (.refl host)
    (reportsBlock_block hvalid) hruns hwrote).mpr ?_
  rw [meetsOverlayFirst_iff]
  decide +kernel

/-- The same files in two orders, with the module on the blocklist and masked. -/
theorem order_changes_status :
    ∃ host other, host.Reordered other ∧
      auditStatus ecmaScriptEngine host (utf8 "usb-storage") = some .compliant ∧
        auditStatus ecmaScriptEngine other (utf8 "usb-storage") = some .nonCompliant := by
  let files := [utf8 "usb-storage.ko", utf8 "usb-storage_overlay.ko"]
  let report := utf8 "blacklist usb_storage\ninstall usb_storage /bin/false\n"
  refine ⟨oneKernel files report, oneKernel files.reverse report, ⟨?_, ?_, rfl, rfl, rfl⟩, ?_, ?_⟩
  · exact .some (.refl _)
  · exact fun name => .tree (.directory _ [] (.perm (((List.reverse_perm files).symm).map _)))
  · decide +kernel
  · decide +kernel

end Remediation

end Kompli.KernelModule
