import Kompli.Procedures.FilePermissions

/-! What the remediation of a file's permissions can do, step by step. -/
namespace Kompli.FilePermissions
open Foundation

section Changes

variable {params : Params} {st : Inode}

/-- The id that the remediation gives a file, if there is one. -/
def wantedId (accounts : List Account) (id : UInt32) : Option (List Bytes) → Option UInt32
  | none => some id
  | some [] => none
  | some (first :: rest) => if Listed accounts id (first :: rest) then some id else idOf accounts first

/-- A choice leaves the context, and fails or reports where there is no id. -/
def Chooses (choice : ProcedureM Host (Option UInt32)) (wanted : Host → Option UInt32) : Prop :=
  ∀ s, (∃ t, choice s = .ok (wanted s.context) t ∧ t.context = s.context) ∨
    wanted s.context = none ∧ ∃ e, choice s = .error e s

private theorem chooseId_chooses (accounts : Host → List Account) (empty : Bytes) (unknown : Bytes → Bytes)
    (id : UInt32) (names : Option (List Bytes)) :
    Chooses (chooseId accounts empty unknown id names) fun host => wantedId (accounts host) id names := by
  intro s
  match names with
  | none => exact .inl ⟨s, rfl, rfl⟩
  | some [] => exact .inr ⟨rfl, _, rfl⟩
  | some (first :: rest) =>
    refine .inl ?_
    rw [chooseId, bind_run_ok _ (rfl : ProcedureM.read accounts s = .ok (accounts s.context) s)]
    by_cases hlisted : Listed (accounts s.context) id (first :: rest)
    · simp only [wantedId, if_pos hlisted]
      exact ⟨s, rfl, rfl⟩
    · simp only [wantedId, if_neg hlisted]
      cases idOf (accounts s.context) first with
      | none => exact ⟨_, rfl, rfl⟩
      | some id => exact ⟨s, rfl, rfl⟩

/-- It ends without success, and nothing was done. -/
def Refuses (m : ProcedureM Host Status) (s : ProcedureRun Host) : Prop :=
  ∃ t, (m s = .ok .nonCompliant t ∨ ∃ e, m s = .error e t) ∧ t.context = s.context

private theorem Refuses.congr {m n : ProcedureM Host Status} {s : ProcedureRun Host} (h : n s = m s)
    (hm : Refuses m s) : Refuses n s := by
  rwa [Refuses, h]

private theorem refuses_report (message : Bytes) (s : ProcedureRun Host) :
    Refuses (ProcedureM.addIndicator message .nonCompliant) s :=
  ⟨_, .inl rfl, rfl⟩

private theorem refuses_error {m : ProcedureM Host Status} {s : ProcedureRun Host} (h : ∃ e, m s = .error e s) :
    Refuses m s :=
  ⟨s, .inr h, rfl⟩

private theorem Chooses.cases {choice : ProcedureM Host (Option UInt32)} {wanted : Host → Option UInt32}
    (h : Chooses choice wanted) (next : UInt32 → ProcedureM Host Status) (s : ProcedureRun Host) :
    (∃ id t, wanted s.context = some id ∧ t.context = s.context ∧ withChoice choice next s = next id t) ∨
      wanted s.context = none ∧ Refuses (withChoice choice next) s := by
  obtain ⟨t, hchoice, hcontext⟩ | ⟨hnone, e, hchoice⟩ := h s
  · cases hwanted : wanted s.context with
    | none =>
      rw [hwanted] at hchoice
      exact .inr ⟨rfl, t, .inl (bind_run_ok _ hchoice), hcontext⟩
    | some id =>
      rw [hwanted] at hchoice
      exact .inl ⟨id, t, rfl, hcontext, bind_run_ok _ hchoice⟩
  · exact .inr ⟨hnone, s, .inr ⟨e, bind_run_error _ hchoice⟩, rfl⟩

/-- The remediation gets as far as the changes, and asks for these ids. -/
structure Wants (params : Params) (host : Host) (st : Inode) (uid gid : UInt32) : Prop where
  groupId : params.groupId = none
  openPath : host.openPath = .ok st
  fstat : host.fstatFailure = none
  file : st.isLink = false
  owner : wantedId host.users st.uid params.owner = some uid
  group : wantedId host.groups st.gid params.group = some gid

private theorem remediateInode_cases (s : ProcedureRun Host) :
    (∃ uid gid t, wantedId s.context.users st.uid params.owner = some uid ∧
        wantedId s.context.groups st.gid params.group = some gid ∧ t.context = s.context ∧
        remediateInode params st s = (do changeOwner params st uid gid; changeMode params st) t) ∨
      (∀ uid gid, wantedId s.context.users st.uid params.owner = some uid →
        wantedId s.context.groups st.gid params.group ≠ some gid) ∧ Refuses (remediateInode params st) s := by
  have howner : Chooses (chooseOwner params st) _ := chooseId_chooses _ _ _ _ _
  have hgroup : Chooses (chooseGroup params st) _ := chooseId_chooses _ _ _ _ _
  obtain ⟨uid, t, huid, hcontext, hrun⟩ | ⟨hnone, hrefuses⟩ := howner.cases (fun uid =>
    withChoice (chooseGroup params st) fun gid => do changeOwner params st uid gid; changeMode params st) s
  · obtain ⟨gid, u, hgid, hcontext', hrun'⟩ | ⟨hnone, u, hrefuses, hcontext'⟩ :=
      hgroup.cases (fun gid => do changeOwner params st uid gid; changeMode params st) t
    · rw [hcontext] at hgid hcontext'
      exact .inl ⟨uid, gid, u, huid, hgid, hcontext', hrun.trans hrun'⟩
    · rw [hcontext] at hnone hcontext'
      refine .inr ⟨fun uid gid _ hgid => ?_, u, ?_, hcontext'⟩
      · rw [hnone] at hgid
        cases hgid
      · rwa [← hrun] at hrefuses
  · refine .inr ⟨fun uid gid huid => ?_, hrefuses⟩
    rw [hnone] at huid
    cases huid

private theorem remediateOpened_cases (s : ProcedureRun Host) :
    s.context.fstatFailure = none ∧ st.isLink = false ∧ remediateOpened params st s = remediateInode params st s ∨
      (s.context.fstatFailure = none → st.isLink = true) ∧ Refuses (remediateOpened params st) s := by
  have hread : ProcedureM.read (·.fstatFailure) s = .ok s.context.fstatFailure s := rfl
  cases hstat : s.context.fstatFailure with
  | some errno =>
    refine .inr ⟨fun h => (by cases h), refuses_error ?_⟩
    rw [remediateOpened, bind_run_ok _ hread, hstat]
    exact ⟨_, rfl⟩
  | none =>
    cases hlink : st.isLink with
    | true =>
      refine .inr ⟨fun _ => rfl, Refuses.congr ?_
        (refuses_report (utf8 "Refusing to remediate symbolic link '" ++ params.path ++ utf8 "'") s)⟩
      rw [remediateOpened, bind_run_ok _ hread, hstat, hlink]
      rfl
    | false =>
      refine .inl ⟨rfl, rfl, ?_⟩
      rw [remediateOpened, bind_run_ok _ hread, hstat, hlink]
      rfl

theorem remediateFilePermissions_cases (s : ProcedureRun Host) :
    (∃ st uid gid t, Wants params s.context st uid gid ∧ t.context = s.context ∧
        remediateFilePermissions params s = (do changeOwner params st uid gid; changeMode params st) t) ∨
      (∀ st uid gid, ¬ Wants params s.context st uid gid) ∧ Refuses (remediateFilePermissions params) s := by
  by_cases hgroupId : params.groupId = none
  · have hvalid : ¬ InvalidGroupId params := fun ⟨groupId, hsome, _⟩ => (by rw [hgroupId] at hsome; cases hsome)
    have hsome : ¬ params.groupId.isSome = true := by simp [hgroupId]
    have hread : ProcedureM.read Host.openPath s = .ok s.context.openPath s := rfl
    cases hopen : s.context.openPath with
    | error errno =>
      rw [hopen] at hread
      refine .inr ⟨fun st uid gid h => (by cases hopen.symm.trans h.openPath), ?_⟩
      by_cases hmissing : errno = ENOENT
      · refine Refuses.congr ?_ (refuses_report (utf8 "File '" ++ params.path ++ utf8 "' does not exist") s)
        rw [remediateFilePermissions, if_neg hvalid, if_neg hsome, bind_run_ok _ hread]
        simp only [if_pos hmissing]
      · refine refuses_error ?_
        rw [remediateFilePermissions, if_neg hvalid, if_neg hsome, bind_run_ok _ hread]
        simp only [if_neg hmissing]
        exact ⟨_, rfl⟩
    | ok st =>
      have hrun : remediateFilePermissions params s = remediateOpened params st s := by
        rw [hopen] at hread
        rw [remediateFilePermissions, if_neg hvalid, if_neg hsome, bind_run_ok _ hread]
      obtain ⟨hstat, hlink, hopened⟩ | ⟨hnot, hrefuses⟩ := @remediateOpened_cases params st s
      · obtain ⟨uid, gid, t, huid, hgid, hcontext, hinode⟩ | ⟨hnot, hrefuses⟩ := @remediateInode_cases params st s
        · exact .inl ⟨st, uid, gid, t, ⟨hgroupId, hopen, hstat, hlink, huid, hgid⟩, hcontext,
            hrun.trans (hopened.trans hinode)⟩
        · refine .inr ⟨fun st' uid gid h => ?_, Refuses.congr (hrun.trans hopened) hrefuses⟩
          cases hopen.symm.trans h.openPath
          exact hnot uid gid h.owner h.group
      · refine .inr ⟨fun st' uid gid h => ?_, Refuses.congr hrun hrefuses⟩
        cases hopen.symm.trans h.openPath
        cases (hnot h.fstat).symm.trans h.file
  · refine .inr ⟨fun st uid gid h => hgroupId h.groupId, refuses_error ?_⟩
    rw [remediateFilePermissions]
    by_cases hinvalid : InvalidGroupId params
    · rw [if_pos hinvalid]
      exact ⟨_, rfl⟩
    · rw [if_neg hinvalid, if_pos (Option.isSome_iff_ne_none.mpr hgroupId)]
      exact ⟨_, rfl⟩

/-- The call fails, or the inode is changed. -/
private theorem change_cases (message : Bytes) (f : Host → Option Int × Host) {s : ProcedureRun Host}
    {failure : Option Int} {edit : Inode → Inode} (hf : f s.context = s.context.attempt failure edit)
    (hfile : s.context.file = .ok st) :
    (∃ t, change message f s = .ok () t ∧ t.context = { s.context with file := .ok (edit st) }) ∨
      ∃ e t, change message f s = .error e t ∧ t.context.failed = true := by
  have hcall : ProcedureM.call f s = .ok (f s.context).1 { s with context := (f s.context).2 } := rfl
  rw [hf] at hcall
  rw [change, bind_run_ok _ hcall]
  cases failure with
  | none =>
    rw [Host.attempt, hfile]
    exact .inl ⟨_, rfl, rfl⟩
  | some errno => exact .inr ⟨_, _, rfl, rfl⟩

/-- The inode after the owner and the group have been set. -/
def owned (host : Host) (st : Inode) (uid gid : UInt32) : Inode :=
  if uid ≠ st.uid ∨ gid ≠ st.gid then st.chown uid gid host.cleared else st

theorem changeOwner_cases {s : ProcedureRun Host} {uid gid : UInt32} (hfile : s.context.file = .ok st) :
    (∃ t, changeOwner params st uid gid s = .ok () t ∧
        t.context = { s.context with file := .ok (owned s.context st uid gid) }) ∨
      ∃ e t, changeOwner params st uid gid s = .error e t ∧ t.context.failed = true := by
  rw [owned, changeOwner]
  by_cases hchanged : uid ≠ st.uid ∨ gid ≠ st.gid
  · rw [if_pos hchanged, if_pos hchanged]
    obtain ⟨t, hrun, hcontext⟩ | ⟨e, t, hrun, hfailed⟩ :=
      change_cases (utf8 "Chown error: ") (Host.chown uid gid) rfl hfile
    · rw [bind_run_ok _ hrun]
      exact .inl ⟨_, rfl, hcontext⟩
    · exact .inr ⟨e, t, bind_run_error _ hrun, hfailed⟩
  · rw [if_neg hchanged, if_neg hchanged, ← hfile]
    exact .inl ⟨s, rfl, rfl⟩

/-- The inode after the mode has been set. -/
def permitted (params : Params) (before st : Inode) : Inode :=
  if newPerms params before ≠ before.mode then st.chmod (newPerms params before) else st

theorem changeMode_cases {s : ProcedureRun Host} {inode : Inode} (hfile : s.context.file = .ok inode) :
    (¬ Overlap params ∧ ∃ t, changeMode params st s = .ok .compliant t ∧
        t.context = { s.context with file := .ok (permitted params st inode) }) ∨
      (Overlap params ∧ ∃ e, changeMode params st s = .error e s) ∨
      ¬ Overlap params ∧ ∃ e t, changeMode params st s = .error e t ∧ t.context.failed = true := by
  rw [permitted, changeMode]
  by_cases hoverlap : Overlap params
  · rw [if_pos hoverlap]
    exact .inr (.inl ⟨hoverlap, _, rfl⟩)
  rw [if_neg hoverlap]
  by_cases hchanged : newPerms params st ≠ st.mode
  · rw [if_pos hchanged, if_pos hchanged]
    obtain ⟨t, hrun, hcontext⟩ | ⟨e, t, hrun, hfailed⟩ :=
      change_cases (utf8 "Chmod error: ") (Host.chmod (newPerms params st)) rfl hfile
    · rw [bind_run_ok _ hrun]
      exact .inl ⟨hoverlap, _, rfl, hcontext⟩
    · exact .inr (.inr ⟨hoverlap, e, t, bind_run_error _ hrun, hfailed⟩)
  · rw [if_neg hchanged, if_neg hchanged, ← hfile]
    exact .inl ⟨hoverlap, s, rfl, rfl⟩

theorem Wants.file_eq {host : Host} {uid gid : UInt32} (h : Wants params host st uid gid) :
    host.file = .ok st := by
  have hopen := h.openPath
  rw [Host.openPath] at hopen
  split at hopen
  · cases hopen
  · exact hopen

private theorem Wants.unique {host : Host} {uid gid : UInt32} (h : Wants params host st uid gid) {st' : Inode}
    {uid' gid' : UInt32} (h' : Wants params host st' uid' gid') : st' = st ∧ uid' = uid ∧ gid' = gid := by
  cases h'.openPath.symm.trans h.openPath
  exact ⟨rfl, Option.some.inj (h'.owner.symm.trans h.owner), Option.some.inj (h'.group.symm.trans h.group)⟩

private theorem owned_eq_iff {host : Host} {uid gid : UInt32} :
    owned host st uid gid = st ↔ ¬ (uid ≠ st.uid ∨ gid ≠ st.gid) := by
  rw [owned]
  split_ifs with hchanged
  · refine iff_of_false (fun h => ?_) (not_not.mpr hchanged)
    rw [← h] at hchanged
    exact hchanged.elim (· rfl) (· rfl)
  · exact iff_of_true rfl hchanged

/-- A remediation that is refused leaves the file as it is just when no bit is both required and forbidden, or
no change of the owner or the group comes first. -/
theorem unchanged_iff {params : Params} {host : Host}
    (hrefused : ProcedureM.result (remediateFilePermissions params) host ≠ .ok .compliant)
    (hcalls : (ProcedureM.run (remediateFilePermissions params) host).context.failed = false) :
    (ProcedureM.run (remediateFilePermissions params) host).context.file = host.file ↔
      ¬ (Overlap params ∧ ∃ st uid gid, Wants params host st uid gid ∧ (uid ≠ st.uid ∨ gid ≠ st.gid)) := by
  rw [ProcedureM.result] at hrefused
  rw [ProcedureM.run] at hcalls ⊢
  obtain ⟨st, uid, gid, t, hwants, hcontext, hrun⟩ | ⟨hnot, t, hrun, hcontext⟩ :=
    @remediateFilePermissions_cases params { context := host }
  · have hfile : t.context.file = .ok st := by rw [hcontext, hwants.file_eq]
    obtain ⟨u, howner, hcontext'⟩ | ⟨e, u, howner, hfailed⟩ := @changeOwner_cases params st t uid gid hfile
    · rw [bind_run_ok _ howner] at hrun
      have hfile' : u.context.file = .ok (owned t.context st uid gid) := by rw [hcontext']
      obtain ⟨-, v, hmode, -⟩ | ⟨hoverlap, e, hmode⟩ | ⟨-, e, v, hmode, hfailed⟩ :=
        @changeMode_cases params st u _ hfile'
      · rw [hrun, hmode] at hrefused
        exact absurd rfl hrefused
      · rw [leaves_of_error (hrun.trans hmode), hfile', hwants.file_eq, Except.ok.injEq, owned_eq_iff]
        refine not_congr ⟨fun hchanged => ⟨hoverlap, st, uid, gid, hwants, hchanged⟩, ?_⟩
        rintro ⟨-, st', uid', gid', hwants', hchanged⟩
        obtain ⟨rfl, rfl, rfl⟩ := hwants.unique hwants'
        exact hchanged
      · rw [leaves_of_error (hrun.trans hmode), hfailed] at hcalls
        cases hcalls
    · rw [bind_run_error _ howner] at hrun
      rw [leaves_of_error hrun, hfailed] at hcalls
      cases hcalls
  · have hleaves : leaves (remediateFilePermissions params) { context := host } = t := by
      obtain hok | ⟨e, herror⟩ := hrun
      · exact leaves_of_ok hok
      · exact leaves_of_error herror
    rw [hleaves, hcontext]
    refine iff_of_true rfl ?_
    rintro ⟨-, st, uid, gid, hwants, -⟩
    exact hnot st uid gid hwants

def sampleHost (file : Inode) (cleared : UInt16) : Host where
  users := [{ name := utf8 "root", id := 0 }, { name := utf8 "alice", id := 1000 }]
  groups := [{ name := utf8 "root", id := 0 }]
  file := .ok file
  target := .error ENOENT
  openFailure := none
  fstatFailure := none
  chownFailure := none
  cleared := cleared
  chmodFailure := none
  failed := false
  strerror _ := []

/-- A name that is not known is found first. -/
theorem unchanged_iff_unknown :
    let params : Params := { path := utf8 "/etc/shadow", owner := some [utf8 "bob"], mask := some 0o137 }
    let host := sampleHost { mode := 0o100644, uid := 1000, gid := 0 } 0
    (ProcedureM.run (remediateFilePermissions params) host).context.file = host.file := by
  refine (unchanged_iff (fun h => ?_) rfl).mpr ?_
  · cases h
  · rintro ⟨⟨permissions, mask, hpermissions, -⟩, -⟩
    cases hpermissions

/-- A bit that is both required and forbidden is found after the file has been given to root. -/
theorem refused_changes_owner :
    let params : Params :=
      { path := utf8 "/etc/shadow", owner := some [utf8 "root"], permissions := some 0o640, mask := some 0o177 }
    let host := sampleHost { mode := 0o100644, uid := 1000, gid := 0 } 0
    (∃ e, ProcedureM.result (remediateFilePermissions params) host = .error e) ∧
      (ProcedureM.run (remediateFilePermissions params) host).context.failed = false ∧
      (ProcedureM.run (remediateFilePermissions params) host).context.file ≠ host.file := by
  refine ⟨⟨_, rfl⟩, rfl, fun h => ?_⟩
  cases h

end Changes

end Kompli.FilePermissions
