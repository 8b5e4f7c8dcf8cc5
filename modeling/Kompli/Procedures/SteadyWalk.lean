import Kompli.Procedures.WalkVerdict

/-! Walks over trees that do not change, with a callback whose verdicts do not change either. The type of an entry may be
unknown to `readdir`. -/
namespace Kompli.FileTreeWalk
open Foundation ProcedureM

section Trees

variable {W : Type} (system : System W) (known : Bytes → Bool)

/-- The entry as `readdir` reports it: of an unknown type, it is taken for no directory. -/
def listedAs (path : Bytes) (entry : TreeEntry) : DirectoryEntry :=
  { entry.listed with isDirectory := entry.listed.isDirectory && known (inside path entry.listed.name) }

/-- Whatever happened before, the system has these entries at the path, and at most so many levels of directories. -/
def ShowsAlways : (levels : Nat) → Bytes → List TreeEntry → Prop
  | 0, _, _ => False
  | levels + 1, path, entries =>
    (∀ w, (system.opendir path w).1 = some { entries := entries.map (listedAs known path), endErrno := 0 }) ∧ ∀ entry ∈ entries,
      match entry with
      | .special name => isSpecial name ∧ ∃ st : FileStat, st.isDirectory = true ∧ ∀ w, (system.lstat (inside path name) w).1 = some st
      | .file name st => st.isDirectory = false ∧ ∀ w, (system.lstat (inside path name) w).1 = some st
      | .directory name st entries =>
        ¬isSpecial name ∧ st.isDirectory = true ∧ (∀ w, (system.lstat (inside path name) w).1 = some st) ∧
          ShowsAlways levels (inside path name) entries

mutual

/-- The files in an entry, as far as the directories are entered. -/
def filesOf (path : Bytes) : TreeEntry → List Visit
  | .special _ => []
  | .file name st => [{ directory := path, filename := name, st }]
  | .directory name _ entries => if known (inside path name) then files (inside path name) entries else []

def files (path : Bytes) : List TreeEntry → List Visit
  | [] => []
  | entry :: entries => filesOf path entry ++ files path entries

end

/-- The callback has a verdict or fails, and has nothing against a directory. -/
structure Judges (callback : FtwCallback W) (verdict : Visit → Except Error Status) : Prop where
  returns : ∀ directory filename st s, ∃ t, callback directory filename st s =
    match verdict { directory, filename, st } with
    | .ok status => .ok status t
    | .error e => .error (.error e) t
  directories : ∀ visit : Visit, visit.st.isDirectory = true → verdict visit = .ok .compliant

end Trees

section Walks

variable {W : Type} {system : System W} {known : Bytes → Bool} {callback : FtwCallback W} {verdict : Visit → Except Error Status}
  {walk : Bytes → ProcedureM W Status} {path : Bytes} {s : ProcedureRun W} {entry : TreeEntry} {entries : List TreeEntry}

/-- A run is compliant just when it may be. -/
structure CompliantIff (allowed : Prop) (walked : EStateM.Result Failure (ProcedureRun W) Status) : Prop where
  compliant : allowed → ∃ t, walked = .ok .compliant t
  other : ¬ allowed → ∀ t, walked ≠ .ok .compliant t

structure EntriesCompliantIff (allowed : Prop)
    (walked : EStateM.Result Failure (ProcedureRun W) (Except Error Status × Int)) : Prop where
  compliant : allowed → ∃ t, walked = .ok (.ok .compliant, 0) t
  other : ¬ allowed → ∀ status t, walked ≠ .ok (.ok .compliant, status) t

/-- All files are compliant. -/
def AllCompliant (verdict : Visit → Except Error Status) (visits : List Visit) : Prop :=
  ∀ visit ∈ visits, verdict visit = .ok .compliant

/-- One turn, for the files in the entry. -/
structure TurnIff (allowed : Prop) (turned : EStateM.Result Failure (ProcedureRun W) (Except Error Status × Bool)) : Prop where
  goesOn : allowed → ∃ t, turned = .ok (.ok .compliant, true) t
  ends : ¬ allowed → (∃ t, turned = .ok (.ok .nonCompliant, false) t) ∨ ∃ failure t, turned = .error failure t

/-- A turn for an entry that the callback is called for. -/
theorem turn_judged (hjudges : Judges callback verdict) {listed : DirectoryEntry} {st : FileStat}
    (hlstat : ∀ w, (system.lstat (inside path listed.name) w).1 = some st)
    {t : ProcedureRun W} (hcontents : (if listed.isDirectory then walk (inside path listed.name) else pure .compliant :
      ProcedureM W Status) s = .ok .compliant t) {allowed : Prop}
    (hallowed : allowed ↔ verdict { directory := path, filename := listed.name, st } = .ok .compliant) :
    TurnIff allowed (visitEntry system callback true walk path listed .compliant s) := by
  have hcall : ProcedureM.call (system.lstat (inside path listed.name)) t =
      .ok (some st) { t with context := (system.lstat (inside path listed.name) t.context).2 } := by
    rw [call_run, hlstat]
  obtain ⟨u, hcallback⟩ := hjudges.returns path listed.name st
    { t with context := (system.lstat (inside path listed.name) t.context).2 }
  rw [hallowed]
  cases hverdict : verdict { directory := path, filename := listed.name, st } with
  | error e =>
    rw [hverdict] at hcallback
    refine ⟨nofun, fun _ => .inr ⟨.error e, u, (bind_run_ok _ hcontents).trans ?_⟩⟩
    dsimp only
    rw [if_neg (fun h => h.1 rfl)]
    exact (bind_run_ok _ hcall).trans (bind_run_error _ hcallback)
  | ok status =>
    rw [hverdict] at hcallback
    have hvisit : visitEntry system callback true walk path listed .compliant s =
        .ok (.ok (if status ≠ .compliant then .nonCompliant else .compliant), ! decide (status ≠ .compliant ∧ true = true)) u := by
      refine (bind_run_ok _ hcontents).trans ?_
      dsimp only
      rw [if_neg (fun h => h.1 rfl)]
      exact (bind_run_ok _ hcall).trans (bind_run_ok _ hcallback)
    rw [hvisit, Except.ok.injEq]
    constructor
    · rintro rfl
      exact ⟨u, rfl⟩
    · intro h
      rw [if_pos h, decide_eq_true (show status ≠ .compliant ∧ true = true from ⟨h, rfl⟩)]
      exact .inl ⟨u, rfl⟩

theorem visitEntry_refused {listed : DirectoryEntry} (hdirectory : listed.isDirectory = true)
    (h : ∀ t, walk (inside path listed.name) s ≠ .ok .compliant t) :
    (∃ t, visitEntry system callback true walk path listed .compliant s = .ok (.ok .nonCompliant, false) t) ∨
      ∃ failure t, visitEntry system callback true walk path listed .compliant s = .error failure t := by
  rw [visitEntry]
  cases hwalk : walk (inside path listed.name) s with
  | ok sub t =>
    have hsub : sub ≠ .compliant := by
      rintro rfl
      exact h t hwalk
    have hcontents : (if listed.isDirectory then walk (inside path listed.name) else pure .compliant : ProcedureM W Status) s =
        .ok sub t := by rw [if_pos hdirectory, hwalk]
    refine .inl ⟨t, (bind_run_ok _ hcontents).trans ?_⟩
    dsimp only
    rw [if_pos ⟨hsub, rfl⟩, if_pos hsub]
    rfl
  | error failure t =>
    have hcontents : (if listed.isDirectory then walk (inside path listed.name) else pure .compliant : ProcedureM W Status) s =
        .error failure t := by rw [if_pos hdirectory, hwalk]
    exact .inr ⟨failure, t, bind_run_error _ hcontents⟩

/-- The entries that are not passed over. -/
theorem turn_entry (hjudges : Judges callback verdict) {levels : Nat}
    (hwalk : ∀ path entries s, ShowsAlways system known levels path entries →
      CompliantIff (AllCompliant verdict (files known path entries)) (walk path s))
    (hentries : ShowsAlways system known (levels + 1) path entries) (hmem : entry ∈ entries)
    (hvisited : ¬IsPassed (listedAs known path entry)) :
    TurnIff (AllCompliant verdict (filesOf known path entry))
      (visitEntry system callback true walk path (listedAs known path entry) .compliant s) := by
  have hentry := hentries.2 entry hmem
  cases entry with
  | special name =>
    obtain ⟨hspecial, st, hst, hlstat⟩ := hentry
    have hunknown : (listedAs known path (.special name)).isDirectory = false := by
      rw [← Bool.not_eq_true]
      exact fun h => hvisited ⟨h, hspecial⟩
    have hcontents : (if (listedAs known path (.special name)).isDirectory then
        walk (inside path (listedAs known path (.special name)).name) else pure .compliant : ProcedureM W Status) s =
        .ok .compliant s := by
      rw [hunknown]
      rfl
    exact turn_judged hjudges hlstat hcontents (iff_of_true nofun (hjudges.directories _ hst))
  | file name st =>
    exact turn_judged hjudges hentry.2 rfl (by rw [filesOf]; exact List.forall_mem_singleton)
  | directory name st inner =>
    obtain ⟨hspecial, hst, hlstat, hinner⟩ := hentry
    cases hknown : known (inside path name) with
    | false =>
      have hcontents : (if (listedAs known path (.directory name st inner)).isDirectory then
          walk (inside path (listedAs known path (.directory name st inner)).name) else pure .compliant : ProcedureM W Status) s =
          .ok .compliant s := by
        have hunknown : (listedAs known path (.directory name st inner)).isDirectory = false := hknown
        rw [hunknown]
        rfl
      refine turn_judged hjudges hlstat hcontents (iff_of_true ?_ (hjudges.directories _ hst))
      rw [filesOf, hknown]
      nofun
    | true =>
      have hlisted : (listedAs known path (.directory name st inner)).isDirectory = true := hknown
      have hfiles : filesOf known path (.directory name st inner) = files known (inside path name) inner := by
        rw [filesOf, hknown, if_pos rfl]
      rw [hfiles]
      by_cases hallowed : AllCompliant verdict (files known (inside path name) inner)
      · obtain ⟨t, hcompliant⟩ := (hwalk _ _ s hinner).compliant hallowed
        have hcontents : (if (listedAs known path (.directory name st inner)).isDirectory then
            walk (inside path (listedAs known path (.directory name st inner)).name) else pure .compliant : ProcedureM W Status) s =
            .ok .compliant t := by
          rw [if_pos hlisted]
          exact hcompliant
        exact turn_judged hjudges hlstat hcontents (iff_of_true hallowed (hjudges.directories _ hst))
      · exact ⟨fun h => absurd h hallowed, fun _ => visitEntry_refused hlisted ((hwalk _ _ s hinner).other hallowed)⟩

theorem walkEntries_compliantIff (hjudges : Judges callback verdict) {levels : Nat}
    (hwalk : ∀ path entries s, ShowsAlways system known levels path entries →
      CompliantIff (AllCompliant verdict (files known path entries)) (walk path s))
    {all : List TreeEntry} (hentries : ShowsAlways system known (levels + 1) path all) {rest : List TreeEntry}
    (hrest : ∀ entry ∈ rest, entry ∈ all) (s : ProcedureRun W) :
    EntriesCompliantIff (AllCompliant verdict (files known path rest))
      (walkEntries system callback true walk path 0 (rest.map (listedAs known path)) .compliant s) := by
  induction rest generalizing s with
  | nil => exact ⟨fun _ => ⟨s, rfl⟩, fun h => absurd nofun h⟩
  | cons entry rest ih =>
    obtain ⟨hmem, hrest⟩ := List.forall_mem_cons.mp hrest
    have hfiles : AllCompliant verdict (files known path (entry :: rest)) ↔
        AllCompliant verdict (filesOf known path entry) ∧ AllCompliant verdict (files known path rest) := by
      rw [files]
      exact List.forall_mem_append
    rw [hfiles, List.map_cons]
    by_cases hpassed : IsPassed (listedAs known path entry)
    · have hnone : AllCompliant verdict (filesOf known path entry) := by
        cases entry with
        | special name => exact nofun
        | file name st => exact absurd hpassed.1 nofun
        | directory name st inner => exact absurd hpassed.2 (hentries.2 _ hmem).1
      rw [walkEntries_passed hpassed, and_iff_right hnone]
      exact ih hrest _
    · obtain ⟨hgoes, hends⟩ := @turn_entry W system known callback verdict walk path (cleared system s) entry all hjudges levels hwalk
        hentries hmem hpassed
      by_cases hfirst : AllCompliant verdict (filesOf known path entry)
      · obtain ⟨t, hturn⟩ := hgoes hfirst
        rw [walkEntries_goesOn hpassed hturn, and_iff_right hfirst]
        exact ih hrest t
      · refine ⟨fun h => absurd h.1 hfirst, fun _ status u => ?_⟩
        rcases hends hfirst with ⟨t, hturn⟩ | ⟨failure, t, hturn⟩
        · rw [walkEntries_stops hpassed hturn]
          nofun
        · rw [walkEntries_raises hpassed hturn]
          nofun

/-- A walk with enough depths left is compliant just when all files that it comes to are. -/
theorem walkDirectory_compliantIff (hjudges : Judges callback verdict) {levels room : Nat} (hroom : levels ≤ room)
    (hentries : ShowsAlways system known levels path entries) (s : ProcedureRun W) :
    CompliantIff (AllCompliant verdict (files known path entries)) (walkDirectory system callback true room path s) := by
  induction room generalizing levels path entries s with
  | zero =>
    obtain rfl : levels = 0 := by omega
    exact hentries.elim
  | succ room ih =>
    cases levels with
    | zero => exact hentries.elim
    | succ levels =>
      have hloop := walkEntries_compliantIff hjudges (fun _ _ u hinner => ih (Nat.le_of_succ_le_succ hroom) hinner u) hentries
        (fun _ hmem => hmem) { s with context := (system.opendir path s.context).2 }
      have hopen : ProcedureM.call (system.opendir path) s = .ok
          (some { entries := entries.map (listedAs known path), endErrno := 0 })
          { s with context := (system.opendir path s.context).2 } := by
        rw [call_run, hentries.1]
      rw [walkDirectory, bind_run_ok _ hopen]
      by_cases hall : AllCompliant verdict (files known path entries)
      · obtain ⟨t, hwalked⟩ := hloop.compliant hall
        refine ⟨fun _ => ⟨_, (bind_run_ok _ hwalked).trans ((bind_run_ok _ (call_run _ _)).trans rfl)⟩, fun h => absurd hall h⟩
      · refine ⟨fun h => absurd h hall, fun _ u => ?_⟩
        dsimp only
        cases hwalked : walkEntries system callback true (walkDirectory system callback true room) path 0
            (entries.map (listedAs known path)) .compliant { s with context := (system.opendir path s.context).2 } with
        | error failure t =>
          rw [bind_run_error _ hwalked]
          intro h
          cases h
        | ok walked t =>
          obtain ⟨result, status⟩ := walked
          rw [bind_run_ok _ hwalked]
          dsimp only
          rw [bind_run_ok _ (call_run _ _)]
          cases result with
          | error e =>
            intro h
            cases h
          | ok result =>
            dsimp only
            split_ifs with hstatus
            · intro h
              cases h
            · rintro ⟨⟩
              exact hloop.other hall _ _ hwalked

end Walks
end Kompli.FileTreeWalk
