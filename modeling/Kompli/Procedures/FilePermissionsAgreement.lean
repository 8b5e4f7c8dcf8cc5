import Kompli.Foundation.Bits
import Kompli.Procedures.FilePermissionsRuns
import Mathlib.Tactic.IntervalCases

/-! When a file that has been remediated passes the audit. -/
namespace Kompli.FilePermissions
open Foundation

section Verdicts

/-- The computation returns that the file is compliant. -/
def Succeeds {W : Type} (m : ProcedureM W Status) (s : ProcedureRun W) : Prop := ∃ t, m s = .ok .compliant t

def Accepts {W : Type} (m : ProcedureM W Status) (accepts : W → Prop) : Prop :=
  ∀ s, Succeeds m s ↔ accepts s.context

/-- A check goes on where something holds of the context, and otherwise fails or returns a status that is not
`Compliant`; the context stays. -/
structure Decides {W : Type} (check : ProcedureM W (Option Status)) (holds : W → Prop) : Prop where
  pass : ∀ s, holds s.context → ∃ t, check s = .ok none t ∧ t.context = s.context
  report : ∀ s, ¬ holds s.context → (∃ t, check s = .ok (some .nonCompliant) t) ∨ ∃ e t, check s = .error e t

theorem Decides.accepts {W : Type} {check : ProcedureM W (Option Status)} {holds : W → Prop}
    (h : Decides check holds) {next : ProcedureM W Status} {accepts : W → Prop} (hnext : Accepts next accepts) :
    Accepts (unlessReported check next) fun context => holds context ∧ accepts context := by
  intro s
  change _ ↔ holds s.context ∧ accepts s.context
  by_cases hs : holds s.context
  · obtain ⟨t, hcheck, hcontext⟩ := h.pass s hs
    rw [and_iff_right hs, ← hcontext, ← hnext t, Succeeds, Succeeds, unlessReported, bind_run_ok _ hcheck]
  · refine iff_of_false ?_ fun hand => hs hand.1
    rintro ⟨t, hrun⟩
    obtain ⟨u, hcheck⟩ | ⟨e, u, hcheck⟩ := h.report s hs
    · rw [unlessReported, bind_run_ok _ hcheck] at hrun
      cases hrun
    · rw [unlessReported, bind_run_error _ hcheck] at hrun
      cases hrun

variable {params : Params} {st : Inode}

private theorem auditName_decides (accounts : Host → List Account) (what missing : Bytes) (id : UInt32)
    (names : Option (List Bytes)) :
    Decides (auditName params accounts what missing id names)
      fun host => ∀ items ∈ names, Listed (accounts host) id items where
  pass s hs := by
    cases names with
    | none => exact ⟨s, rfl, rfl⟩
    | some items =>
      obtain ⟨name, hname, hmem⟩ := hs items rfl
      rw [auditName, bind_run_ok _ (rfl : ProcedureM.read accounts s = .ok (accounts s.context) s), hname]
      simp only [if_pos hmem]
      exact ⟨_, rfl, rfl⟩
  report s hs := by
    cases names with
    | none => exact absurd (fun items hitems => by cases hitems) hs
    | some items =>
      refine .inl ?_
      rw [auditName, bind_run_ok _ (rfl : ProcedureM.read accounts s = .ok (accounts s.context) s)]
      cases hname : nameOf (accounts s.context) id with
      | none => exact ⟨_, rfl⟩
      | some name =>
        have hmem : name ∉ items := fun hmem => hs fun other hother => by
          cases hother
          exact ⟨name, hname, hmem⟩
        simp only [if_neg hmem]
        exact ⟨_, rfl⟩

private theorem auditValue_decides {α : Type} (value : Option α) (meets : α → Prop) [DecidablePred meets]
    (wrong right : α → Bytes) :
    Decides (auditValue value meets wrong right) fun _ => ∀ v ∈ value, meets v where
  pass s hs := by
    cases value with
    | none => exact ⟨s, rfl, rfl⟩
    | some v =>
      simp only [auditValue, if_pos (hs v rfl)]
      exact ⟨_, rfl, rfl⟩
  report s hs := by
    cases value with
    | none => exact absurd (fun v hv => by cases hv) hs
    | some v =>
      refine .inl ?_
      have hv : ¬ meets v := fun hv => hs fun other hother => by
        cases hother
        exact hv
      simp only [auditValue, if_neg hv]
      exact ⟨_, rfl⟩

private theorem auditOverlap_decides : Decides (auditOverlap params) fun _ => ¬ Overlap params where
  pass s hs := by
    rw [auditOverlap, if_neg hs]
    exact ⟨s, rfl, rfl⟩
  report s hs := by
    rw [auditOverlap, if_pos (not_not.mp hs)]
    exact .inr ⟨_, s, rfl⟩

/-- What a file that exists has to meet. -/
structure Satisfies (params : Params) (host : Host) (st : Inode) : Prop where
  owner : ∀ items ∈ params.owner, Listed host.users st.uid items
  groupId : ∀ groupId ∈ params.groupId, st.gid = groupId.toUInt32
  group : ∀ items ∈ params.group, Listed host.groups st.gid items
  overlap : ¬ Overlap params
  permissions : ∀ permissions ∈ params.permissions, permissions = st.mode.toUInt32 &&& permissions
  mask : ∀ mask ∈ params.mask, st.mode.toUInt32 &&& mask = 0

private theorem auditInode_accepts : Accepts (auditInode params st) fun host => Satisfies params host st := by
  have howner : Decides (auditOwner params st) _ := auditName_decides _ _ _ _ _
  have hgroupId : Decides (auditGroupId params st) _ := auditValue_decides _ _ _ _
  have hgroup : Decides (auditGroup params st) _ := auditName_decides _ _ _ _ _
  have hpermissions : Decides (auditPermissions params st) _ := auditValue_decides _ _ _ _
  have hmask : Decides (auditMask params st) _ := auditValue_decides _ _ _ _
  have hlast (message : Bytes) : Accepts (W := Host) (ProcedureM.addIndicator message .compliant) fun _ => True :=
    fun s => iff_true_intro ⟨_, rfl⟩
  intro s
  refine (howner.accepts (hgroupId.accepts (hgroup.accepts (auditOverlap_decides.accepts (hpermissions.accepts
    (hmask.accepts (hlast _)))))) s).trans ?_
  constructor
  · rintro ⟨howner, hgroupId, hgroup, hoverlap, hpermissions, hmask, -⟩
    exact ⟨howner, hgroupId, hgroup, hoverlap, hpermissions, hmask⟩
  · rintro ⟨howner, hgroupId, hgroup, hoverlap, hpermissions, hmask⟩
    exact ⟨howner, hgroupId, hgroup, hoverlap, hpermissions, hmask, trivial⟩

/-- The audit of a file that is there. -/
theorem auditFilePermissions_succeeds_iff {s : ProcedureRun Host} (hstat : s.context.stat = .ok st) :
    Succeeds (auditFilePermissions params) s ↔
      ¬ InvalidGroupId params ∧ params.behavior ≠ .noneExist ∧ Satisfies params s.context st := by
  rw [Succeeds, auditFilePermissions]
  by_cases hinvalid : InvalidGroupId params
  · rw [if_pos hinvalid]
    refine iff_of_false ?_ fun hand => hand.1 hinvalid
    rintro ⟨t, hrun⟩
    cases hrun
  · rw [if_neg hinvalid, bind_run_ok _ (rfl : ProcedureM.read Host.stat s = .ok s.context.stat s), hstat, and_iff_right hinvalid]
    by_cases hnone : params.behavior = .noneExist
    · simp only [if_pos hnone]
      refine iff_of_false ?_ fun hand => hand.1 hnone
      rintro ⟨t, hrun⟩
      cases hrun
    · simp only [if_neg hnone]
      rw [and_iff_right hnone]
      exact auditInode_accepts s

end Verdicts

section Bits
open Foundation.Bits

private theorem bit16_permissions (i : Nat) : Bit16 0o7777 i ↔ i < 12 := by
  by_cases hi : i < 16
  · interval_cases i <;> simp [Bit16]
  · exact iff_of_false (fun h => hi (bit16_lt h)) (by omega)

private theorem bit16_type (i : Nat) : Bit16 0o170000 i ↔ 12 ≤ i ∧ i < 16 := by
  by_cases hi : i < 16
  · interval_cases i <;> simp [Bit16]
  · exact iff_of_false (fun h => hi (bit16_lt h)) (by omega)

private theorem bit16_setId (i : Nat) : Bit16 0o6000 i ↔ i = 10 ∨ i = 11 := by
  by_cases hi : i < 16
  · interval_cases i <;> simp [Bit16]
  · exact iff_of_false (fun h => hi (bit16_lt h)) (by omega)

/-- The mode that `chmod` gives a file has all required bits but those that a mode cannot have, and no forbidden
one but those of the type. -/
private theorem chmod_meets_iff {mode kept : UInt16} {permissions mask : UInt32} (hoverlap : permissions &&& mask = 0)
    (htype : ∀ i, Bit16 0o170000 i → (Bit16 kept i ↔ Bit16 mode i)) {result : UInt16}
    (hresult : result = (kept &&& 0o170000) |||
      (((mode ||| permissions.toUInt16) &&& ~~~mask.toUInt16) &&& 0o7777)) :
    (permissions = result.toUInt32 &&& permissions ↔
        permissions &&& ~~~((mode &&& 0o170000) ||| 0o7777).toUInt32 = 0) ∧
      (result.toUInt32 &&& mask = 0 ↔ (mode &&& 0o170000).toUInt32 &&& mask = 0) := by
  rw [eq_zero_iff_bit32] at hoverlap
  rw [eq_and_self_iff_bit32, eq_zero_iff_bit32, eq_zero_iff_bit32, eq_zero_iff_bit32, hresult]
  simp only [bit32_and, bit32_not, bit32_toUInt32, bit16_or, bit16_and, bit16_not, bit16_toUInt16,
    bit16_permissions, bit16_type] at hoverlap htype ⊢
  constructor
  · refine forall_congr' fun i => ?_
    have hlt := @bit32_lt permissions i
    have hkept := htype i
    have hbits := hoverlap i
    grind
  · refine forall_congr' fun i => ?_
    have hkept := htype i
    have hbits := hoverlap i
    grind

/-- A mode is left alone when it has the required bits and none of the forbidden ones. -/
private theorem newPerms_eq_iff (mode : UInt16) {permissions mask : UInt32} (hoverlap : permissions &&& mask = 0) :
    (mode ||| permissions.toUInt16) &&& ~~~mask.toUInt16 = mode ↔
      ∀ i, i < 16 → (Bit32 permissions i → Bit16 mode i) ∧ ¬ (Bit16 mode i ∧ Bit32 mask i) := by
  rw [eq_zero_iff_bit32] at hoverlap
  rw [eq_iff_bit16]
  simp only [bit32_and, bit16_or, bit16_and, bit16_not, bit16_toUInt16] at hoverlap ⊢
  refine forall_congr' fun i => ?_
  have hlt := @bit16_lt mode i
  have hbits := hoverlap i
  grind

/-- A mode that is left alone has all required bits but those that the change of the owner has cleared. -/
private theorem kept_meets_iff {mode removed : UInt16} {permissions mask : UInt32}
    (hbits : ∀ i, i < 16 → (Bit32 permissions i → Bit16 mode i) ∧ ¬ (Bit16 mode i ∧ Bit32 mask i)) :
    (permissions = (mode &&& ~~~removed).toUInt32 &&& permissions ↔
        permissions &&& ~~~((mode &&& 0o170000) ||| 0o7777).toUInt32 = 0 ∧ permissions &&& removed.toUInt32 = 0) ∧
      (mode &&& ~~~removed).toUInt32 &&& mask = 0 ∧ (mode &&& 0o170000).toUInt32 &&& mask = 0 := by
  rw [eq_and_self_iff_bit32, eq_zero_iff_bit32, eq_zero_iff_bit32, eq_zero_iff_bit32, eq_zero_iff_bit32,
    ← forall_and]
  simp only [bit32_and, bit32_not, bit32_toUInt32, bit16_or, bit16_and, bit16_not, bit16_permissions, bit16_type]
  refine ⟨forall_congr' fun i => ?_, fun i => ?_, fun i => ?_⟩
  · have hlt := @bit32_lt permissions i
    have hbit := hbits i
    grind
  · have hlt := @bit16_lt mode i
    have hbit := hbits i
    grind
  · have hlt := @bit16_lt mode i
    have hbit := hbits i
    grind

end Bits

section Agreement
open Foundation.Bits

variable {params : Params} {host : Host} {st : Inode}

/-- The id goes by no listed name, and the first one is that of another id. -/
def Moves (accounts : List Account) (id : UInt32) (items : List Bytes) : Prop :=
  ¬ Listed accounts id items ∧ ∃ first ∈ items.head?, ∃ other ∈ idOf accounts first, other ≠ id

/-- The id goes by a listed name, or the id of the first one does. -/
def GoesBy (accounts : List Account) (id : UInt32) (items : List Bytes) : Prop :=
  Listed accounts id items ∨ ∀ first ∈ items.head?, ∀ other ∈ idOf accounts first, Listed accounts other items

/-- Where a remediation does what the audit asks for: a file is wanted, the names of the databases lead back to
themselves, no bit of the type of a file is asked for that it does not have or has against the mask, and no required
bit is cleared by the change of the owner while the mode needs no change. -/
structure Agrees (params : Params) (host : Host) (st : Inode) : Prop where
  behavior : params.behavior ≠ .noneExist
  owner : ∀ items ∈ params.owner, GoesBy host.users st.uid items
  group : ∀ items ∈ params.group, GoesBy host.groups st.gid items
  permissions : ∀ permissions ∈ params.permissions,
    permissions &&& ~~~((st.mode &&& 0o170000) ||| 0o7777).toUInt32 = 0
  mask : ∀ mask ∈ params.mask, (st.mode &&& 0o170000).toUInt32 &&& mask = 0
  kept : ((∃ items ∈ params.owner, Moves host.users st.uid items) ∨ ∃ items ∈ params.group, Moves host.groups st.gid items) →
    (∀ permissions ∈ params.permissions, permissions = st.mode.toUInt32 &&& permissions) →
    (∀ mask ∈ params.mask, st.mode.toUInt32 &&& mask = 0) →
    ∀ permissions ∈ params.permissions, permissions &&& (host.cleared &&& 0o6000).toUInt32 = 0

private theorem wantedId_ne_iff {accounts : List Account} {id wanted : UInt32} {names : Option (List Bytes)}
    (h : wantedId accounts id names = some wanted) : wanted ≠ id ↔ ∃ items ∈ names, Moves accounts id items := by
  match names with
  | none =>
    cases h
    simp
  | some [] => cases h
  | some (first :: rest) =>
    simp only [Option.mem_def, Option.some.injEq, exists_eq_left', Moves, List.head?_cons]
    rw [wantedId] at h
    split_ifs at h with hlisted
    · cases h
      simp [hlisted]
    · simp [hlisted, h]

private theorem listed_wantedId_iff {accounts : List Account} {id wanted : UInt32} {names : Option (List Bytes)}
    (h : wantedId accounts id names = some wanted) :
    (∀ items ∈ names, Listed accounts wanted items) ↔ ∀ items ∈ names, GoesBy accounts id items := by
  match names with
  | none => simp
  | some [] => cases h
  | some (first :: rest) =>
    simp only [Option.mem_def, Option.some.injEq, forall_eq', GoesBy, List.head?_cons]
    rw [wantedId] at h
    split_ifs at h with hlisted
    · cases h
      simp [hlisted]
    · simp [hlisted, h]

private theorem forall_mem_iff_getD {P : UInt32 → Prop} (h : P 0) (value : Option UInt32) :
    (∀ v ∈ value, P v) ↔ P (value.getD 0) := by
  cases value <;> simp [h]

/-- What a remediation that succeeds has done. -/
private theorem remediated {s t : ProcedureRun Host} (h : remediateFilePermissions params s = .ok .compliant t) :
    ∃ st uid gid, Wants params s.context st uid gid ∧ ¬ Overlap params ∧
      t.context = { s.context with file := .ok (permitted params st (owned s.context st uid gid)) } := by
  obtain ⟨st, uid, gid, u, hwants, hcontext, hrun⟩ | ⟨-, u, hrun, -⟩ := @remediateFilePermissions_cases params s
  · have hfile : u.context.file = .ok st := by rw [hcontext, hwants.file_eq]
    obtain ⟨v, howner, hcontext'⟩ | ⟨e, v, howner, -⟩ := @changeOwner_cases params st u uid gid hfile
    · rw [bind_run_ok _ howner] at hrun
      have hfile' : v.context.file = .ok (owned u.context st uid gid) := by rw [hcontext']
      obtain ⟨hoverlap, w, hmode, hcontext''⟩ | ⟨-, e, hmode⟩ | ⟨-, e, w, hmode, -⟩ :=
        @changeMode_cases params st v _ hfile'
      · cases h.symm.trans (hrun.trans hmode)
        refine ⟨st, uid, gid, hwants, hoverlap, ?_⟩
        rw [hcontext'', hcontext', hcontext]
      · cases h.symm.trans (hrun.trans hmode)
      · cases h.symm.trans (hrun.trans hmode)
    · rw [bind_run_error _ howner] at hrun
      cases h.symm.trans hrun
  · obtain hrun | ⟨e, hrun⟩ := hrun
    · cases h.symm.trans hrun
    · cases h.symm.trans hrun

/-- The bits that the change of the owner clears. -/
private def removed (host : Host) (st : Inode) (uid gid : UInt32) : UInt16 :=
  if uid ≠ st.uid ∨ gid ≠ st.gid then host.cleared &&& 0o6000 else 0

private theorem owned_mode (uid gid : UInt32) :
    (owned host st uid gid).mode = st.mode &&& ~~~removed host st uid gid := by
  rw [owned, removed]
  split_ifs
  · rfl
  · simp

private theorem owned_ids (uid gid : UInt32) : (owned host st uid gid).uid = uid ∧ (owned host st uid gid).gid = gid := by
  rw [owned]
  split_ifs with hchanged
  · exact ⟨rfl, rfl⟩
  · push Not at hchanged
    exact ⟨hchanged.1.symm, hchanged.2.symm⟩

private theorem removed_type {uid gid : UInt32} (i : Nat) (hi : Bit16 0o170000 i) :
    Bit16 (st.mode &&& ~~~removed host st uid gid) i ↔ Bit16 st.mode i := by
  rw [removed]
  split_ifs
  · simp only [bit16_and, bit16_not, bit16_setId, bit16_type] at hi ⊢
    grind
  · simp

private theorem permitted_ids (inode : Inode) :
    (permitted params st inode).uid = inode.uid ∧ (permitted params st inode).gid = inode.gid := by
  rw [permitted]
  split_ifs
  · exact ⟨rfl, rfl⟩
  · exact ⟨rfl, rfl⟩

/-- Neither change touches the type of the file. -/
private theorem isLink_permitted (uid gid : UInt32) :
    (permitted params st (owned host st uid gid)).isLink = st.isLink := by
  have htype : (permitted params st (owned host st uid gid)).mode &&& 0o170000 = st.mode &&& 0o170000 := by
    refine eq_iff_bit16.mpr fun i => ?_
    have hkept := @removed_type host st uid gid i
    rw [permitted]
    split_ifs
    · rw [Inode.chmod, owned_mode]
      simp only [bit16_and, bit16_or, bit16_not, bit16_permissions, bit16_type] at hkept ⊢
      grind
    · rw [owned_mode]
      simp only [bit16_and, bit16_not, bit16_type] at hkept ⊢
      grind
  rw [Inode.isLink, Inode.isLink, htype]

private theorem overlap_iff : Overlap params ↔ params.permissions.getD 0 &&& params.mask.getD 0 ≠ 0 := by
  rw [Overlap]
  cases params.permissions <;> cases params.mask <;> simp

/-- The mode after a remediation, as the audit sees it. -/
private theorem permitted_meets_iff {uid gid : UInt32} {permissions mask : UInt32}
    (hpermissions : params.permissions.getD 0 = permissions) (hmask : params.mask.getD 0 = mask)
    (hoverlap : permissions &&& mask = 0) :
    (permissions = (permitted params st (owned host st uid gid)).mode.toUInt32 &&& permissions ∧
        (permitted params st (owned host st uid gid)).mode.toUInt32 &&& mask = 0) ↔
      permissions &&& ~~~((st.mode &&& 0o170000) ||| 0o7777).toUInt32 = 0 ∧ (st.mode &&& 0o170000).toUInt32 &&& mask = 0 ∧
        (permissions = st.mode.toUInt32 &&& permissions → st.mode.toUInt32 &&& mask = 0 →
          permissions &&& (removed host st uid gid).toUInt32 = 0) := by
  have hnew := newPerms_eq_iff st.mode hoverlap
  rw [permitted, newPerms, hpermissions, hmask]
  by_cases hbits : ∀ i, i < 16 → (Bit32 permissions i → Bit16 st.mode i) ∧ ¬ (Bit16 st.mode i ∧ Bit32 mask i)
  · obtain ⟨hmeets, hclear, hclear'⟩ := @kept_meets_iff st.mode (removed host st uid gid) permissions mask hbits
    rw [if_neg (not_not.mpr (hnew.mpr hbits)), owned_mode, hmeets, and_iff_left hclear, and_iff_right hclear']
    refine and_congr_right fun htype => ⟨fun h _ _ => h, fun h => h ?_ ?_⟩
    · rw [eq_zero_iff_bit32] at htype
      refine eq_and_self_iff_bit32.mpr fun i hi => ?_
      have hbit := htype i
      simp only [bit32_and, bit32_not, bit32_toUInt32, bit16_or, bit16_and, bit16_permissions] at hbit ⊢
      have hlt := bit32_lt hi
      have hmode := @bit16_lt st.mode i
      have hset := hbits i
      grind
    · refine eq_zero_iff_bit32.mpr fun i hi => ?_
      rw [bit32_and, bit32_toUInt32] at hi
      exact (hbits i (bit16_lt hi.1)).2 hi
  · obtain ⟨hmeets, hclear⟩ := chmod_meets_iff hoverlap (@removed_type host st uid gid) rfl
    rw [if_pos (fun h => hbits (hnew.mp h)), Inode.chmod, owned_mode, hmeets, hclear]
    refine and_congr_right fun _ => (and_iff_left fun hrequired hforbidden => absurd ?_ hbits).symm
    intro i _
    have hset := eq_and_self_iff_bit32.mp hrequired i
    have hunset := eq_zero_iff_bit32.mp hforbidden i
    rw [bit32_toUInt32] at hset
    rw [bit32_and, bit32_toUInt32] at hunset
    exact ⟨hset, hunset⟩

private theorem meets_iff (hoverlap : ¬ Overlap params) (uid gid : UInt32) :
    ((∀ p ∈ params.permissions, p = (permitted params st (owned host st uid gid)).mode.toUInt32 &&& p) ∧
        ∀ m ∈ params.mask, (permitted params st (owned host st uid gid)).mode.toUInt32 &&& m = 0) ↔
      (∀ p ∈ params.permissions, p &&& ~~~((st.mode &&& 0o170000) ||| 0o7777).toUInt32 = 0) ∧
        (∀ m ∈ params.mask, (st.mode &&& 0o170000).toUInt32 &&& m = 0) ∧
        ((∀ p ∈ params.permissions, p = st.mode.toUInt32 &&& p) → (∀ m ∈ params.mask, st.mode.toUInt32 &&& m = 0) →
          ∀ p ∈ params.permissions, p &&& (removed host st uid gid).toUInt32 = 0) := by
  have hrequired (x : UInt32) := forall_mem_iff_getD (P := fun p => p = x &&& p) (by simp) params.permissions
  have hwithin (x : UInt32) := forall_mem_iff_getD (P := fun p => p &&& x = 0) (by simp) params.permissions
  have hclear (x : UInt32) := forall_mem_iff_getD (P := fun m => x &&& m = 0) (by simp) params.mask
  rw [hrequired, hrequired, hwithin, hwithin, hclear, hclear, hclear]
  exact permitted_meets_iff rfl rfl (not_not.mp fun h => hoverlap (overlap_iff.mpr h))

private theorem removed_of_moves {uid gid : UInt32} (hwants : Wants params host st uid gid) {p : UInt32} :
    p &&& (removed host st uid gid).toUInt32 = 0 ↔
      ((∃ items ∈ params.owner, Moves host.users st.uid items) ∨ (∃ items ∈ params.group, Moves host.groups st.gid items) →
        p &&& (host.cleared &&& 0o6000).toUInt32 = 0) := by
  rw [← wantedId_ne_iff hwants.owner, ← wantedId_ne_iff hwants.group, removed]
  split_ifs with hchanged
  · exact ⟨fun h _ => h, fun h => h hchanged⟩
  · exact iff_of_true UInt32.and_zero fun h => absurd h hchanged

/-- A remediation that reports success satisfies the audit just when the two agree on the file and the parameters. -/
theorem audit_compliant_iff {params : Params} {host : Host} {st : Inode} (hfile : host.file = .ok st)
    (hremediated : ProcedureM.result (remediateFilePermissions params) host = .ok .compliant) :
    ProcedureM.result (auditFilePermissions params)
        (ProcedureM.run (remediateFilePermissions params) host).context = .ok .compliant ↔
      Agrees params host st := by
  have hresult {m : ProcedureM Host Status} {context : Host} :
      ProcedureM.result m context = .ok .compliant ↔ Succeeds m { context } := by
    rw [ProcedureM.result, Succeeds]
    cases m { context } <;> simp
  obtain ⟨t, hrun⟩ := hresult.mp hremediated
  obtain ⟨st', uid, gid, hwants, hoverlap, hcontext⟩ := remediated hrun
  cases hfile.symm.trans hwants.file_eq
  rw [ProcedureM.run, leaves_of_ok hrun, hresult, hcontext]
  have hvalid : ¬ InvalidGroupId params := by
    rintro ⟨groupId, hsome, -⟩
    rw [hwants.groupId] at hsome
    cases hsome
  rw [@auditFilePermissions_succeeds_iff params (permitted params st (owned host st uid gid)) _ (by
    simp only [Host.stat, isLink_permitted, hwants.file, Bool.false_eq_true, if_false]), and_iff_right hvalid]
  have hids := @owned_ids host st uid gid
  have hids' := @permitted_ids params st (owned host st uid gid)
  have hmeets := @meets_iff params host st hoverlap uid gid
  constructor
  · rintro ⟨hbehavior, howner, hgroupId, hgroup, -, hpermissions, hmask⟩
    obtain ⟨htype, hclear, hkept⟩ := hmeets.mp ⟨hpermissions, hmask⟩
    rw [hids'.1, hids.1] at howner
    rw [hids'.2, hids.2] at hgroup
    exact ⟨hbehavior, (listed_wantedId_iff hwants.owner).mp howner, (listed_wantedId_iff hwants.group).mp hgroup,
      htype, hclear, fun hmoves hrequired hforbidden p hp =>
        (removed_of_moves hwants).mp (hkept hrequired hforbidden p hp) hmoves⟩
  · rintro ⟨hbehavior, howner, hgroup, htype, hclear, hkept⟩
    obtain ⟨hpermissions, hmask⟩ := hmeets.mpr ⟨htype, hclear, fun hrequired hforbidden p hp =>
      (removed_of_moves hwants).mpr fun hmoves => hkept hmoves hrequired hforbidden p hp⟩
    refine ⟨hbehavior, ?_, ?_, ?_, hoverlap, hpermissions, hmask⟩
    · rw [hids'.1, hids.1]
      exact (listed_wantedId_iff hwants.owner).mpr howner
    · intro groupId hgroupId
      rw [hwants.groupId] at hgroupId
      cases hgroupId
    · rw [hids'.2, hids.2]
      exact (listed_wantedId_iff hwants.group).mpr hgroup

/-- A file that is given to root and loses a permission. -/
theorem audit_compliant_iff_given :
    let params : Params := { path := utf8 "/etc/shadow", owner := some [utf8 "root"], mask := some 0o137 }
    let host := sampleHost { mode := 0o100644, uid := 1000, gid := 0 } 0o6000
    ProcedureM.result (auditFilePermissions params)
      (ProcedureM.run (remediateFilePermissions params) host).context = .ok .compliant := by
  refine (audit_compliant_iff rfl rfl).mpr ⟨by decide, ?_, ?_, ?_, ?_, ?_⟩
  · rintro items ⟨⟩
    refine .inr fun first hfirst other hother => ?_
    cases hfirst
    cases hother
    decide
  · rintro items ⟨⟩
  · rintro permissions ⟨⟩
  · rintro mask ⟨⟩
    decide
  · rintro - - - permissions ⟨⟩

/-- The change of the owner clears the set-user-ID bit that the file had, and it is not set again. -/
theorem remediated_loses_setuid :
    let params : Params :=
      { path := utf8 "/usr/bin/sudo", owner := some [utf8 "root"], permissions := some 0o4755, mask := some 0o022 }
    let host := sampleHost { mode := 0o104755, uid := 1000, gid := 0 } 0o6000
    ProcedureM.result (remediateFilePermissions params) host = .ok .compliant ∧
      ProcedureM.result (auditFilePermissions params)
        (ProcedureM.run (remediateFilePermissions params) host).context = .ok .nonCompliant :=
  ⟨rfl, rfl⟩

end Agreement

end Kompli.FilePermissions
