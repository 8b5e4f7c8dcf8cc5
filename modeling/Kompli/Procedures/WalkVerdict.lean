import Kompli.Foundation.FirstError
import Kompli.Procedures.FileTreeWalk

/-! Walks over trees that do not change: which entries are passed to the callback, what the walk says then, and which
streams of directories it leaves open. -/
namespace Kompli.FileTreeWalk
open Foundation ProcedureM

/-- An entry as `readdir` reports it. The special ones are `.` and `..`. -/
inductive TreeEntry where
  | special (name : Bytes)
  | file (name : Bytes) (st : FileStat)
  | directory (name : Bytes) (st : FileStat) (entries : List TreeEntry)

/-- What is found at a path. -/
structure FileTree where
  list : Bytes → Option (List TreeEntry)
  stat : Bytes → Option FileStat

/-- One call of the callback. -/
structure Visit where
  directory : Bytes
  filename : Bytes
  st : FileStat
  deriving DecidableEq

/-- What the callback returns, and the `errno` it leaves. -/
structure Reply where
  result : Except Error Status
  errno : Int

inductive WalkEvent where
  | opened (path : Bytes)
  | closed (path : Bytes)
  | called (visit : Visit)

structure TreeWorld where
  events : List WalkEvent := []
  errno : Int := 0

def TreeWorld.add (w : TreeWorld) (event : WalkEvent) : TreeWorld := { w with events := w.events ++ [event] }

def calls (events : List WalkEvent) : List Visit :=
  events.filterMap fun
    | .called visit => some visit
    | _ => none

/-- The streams that are open after the events, the last one first. Nothing where a stream is closed that is not the
last one. -/
def openAfter : List Bytes → List WalkEvent → Option (List Bytes)
  | streams, [] => some streams
  | streams, .opened path :: events => openAfter (path :: streams) events
  | streams, .called _ :: events => openAfter streams events
  | [], .closed _ :: _ => none
  | stream :: streams, .closed path :: events => if stream = path then openAfter streams events else none

def inside (path name : Bytes) : Bytes := path ++ utf8 "/" ++ name

def TreeEntry.listed : TreeEntry → DirectoryEntry
  | .special name => { name, isDirectory := true }
  | .file name _ => { name, isDirectory := false }
  | .directory name _ _ => { name, isDirectory := true }

/-- The system that shows the tree. The calls that succeed leave `errno` as it is. -/
def onTree (base : System TreeWorld) (tree : FileTree) : System TreeWorld :=
  { base with
    opendir := fun path w =>
      match tree.list path with
      | none => (none, { w with errno := ENOENT })
      | some entries => (some { entries := entries.map TreeEntry.listed, endErrno := 0 }, w.add (.opened path))
    closedir := fun path w => ((), w.add (.closed path))
    lstat := fun path w =>
      match tree.stat path with
      | none => (none, { w with errno := ENOENT })
      | some st => (some st, w)
    errno := fun w => w.errno
    resetErrno := fun w => ((), { w with errno := 0 }) }

/-- A callback whose replies may depend on all calls before. -/
def replying (reply : List Visit → Visit → Reply) : FtwCallback TreeWorld := fun directory filename st s =>
  let visit : Visit := { directory, filename, st }
  let given := reply (calls s.context.events) visit
  let t := { s with context := { s.context.add (.called visit) with errno := given.errno } }
  match given.result with
  | .error e => .error (.error e) t
  | .ok status => .ok status t

def isSpecial (name : Bytes) : Prop := name = utf8 "." ∨ name = utf8 ".."

/-- The tree has these entries at the path, and at most so many levels of directories. -/
def Shows (tree : FileTree) : (levels : Nat) → Bytes → List TreeEntry → Prop
  | 0, _, _ => False
  | levels + 1, path, entries => tree.list path = some entries ∧ ∀ entry ∈ entries,
    match entry with
    | .special name => isSpecial name
    | .file name st => tree.stat (inside path name) = some st
    | .directory name st entries =>
      ¬isSpecial name ∧ tree.stat (inside path name) = some st ∧ Shows tree levels (inside path name) entries

mutual

/-- The calls for an entry: those for its contents, then its own. -/
def visitsOf (path : Bytes) : TreeEntry → List Visit
  | .special _ => []
  | .file name st => [{ directory := path, filename := name, st }]
  | .directory name st entries => visits (inside path name) entries ++ [{ directory := path, filename := name, st }]

def visits (path : Bytes) : List TreeEntry → List Visit
  | [] => []
  | entry :: entries => visitsOf path entry ++ visits path entries

end

section Replies

variable (breakOnNonCompliant : Bool) (reply : List Visit → Visit → Reply)

/-- No call comes after this reply. -/
def stopping (given : Reply) : Bool :=
  match given.result with
  | .error _ => true
  | .ok status => status ≠ .compliant && breakOnNonCompliant

/-- The calls in this order up to the one that stops, and the replies. -/
def consult : List Visit → List Visit → List (Visit × Reply)
  | _, [] => []
  | history, visit :: order =>
    let given := reply history visit
    if stopping breakOnNonCompliant given then [(visit, given)]
    else (visit, given) :: consult (history ++ [visit]) order

def notCompliant (made : Visit × Reply) : Bool := made.2.result.toOption ≠ some .compliant

def verdict (made : List (Visit × Reply)) : Except Failure Status :=
  match firstError (made.map (·.2.result)) with
  | some e => .error (.error e)
  | none => if made.any notCompliant then .ok .nonCompliant else .ok .compliant

end Replies

section Soundness

variable (base : System TreeWorld) (tree : FileTree) (path : Bytes) (entries : List TreeEntry) (breakOnNonCompliant : Bool)
  (reply : List Visit → Visit → Reply)

def walkOn : ProcedureM TreeWorld Status := fileTreeWalk (onTree base tree) path (replying reply) breakOnNonCompliant

/-- All calls that the walk makes, with their replies. -/
def madeOn : List (Visit × Reply) := consult breakOnNonCompliant reply [] (visits path entries)

/-- The walk says what the replies say, makes all calls, and closes what it opens. -/
structure Sound : Prop where
  verdict : (walkOn base tree path breakOnNonCompliant reply).result {} =
    verdict (madeOn path entries breakOnNonCompliant reply)
  complete : calls ((walkOn base tree path breakOnNonCompliant reply).run {}).context.events =
    (madeOn path entries breakOnNonCompliant reply).map Prod.fst
  closes : openAfter [] ((walkOn base tree path breakOnNonCompliant reply).run {}).context.events = some []

/-- No call fails, and none that stops the walk leaves an `errno`. -/
def Harmless : Prop :=
  ∀ made ∈ madeOn path entries breakOnNonCompliant reply,
    stopping breakOnNonCompliant made.2 = true → (∃ status, made.2.result = .ok status) ∧ made.2.errno = 0

end Soundness
section Consulting

variable {breakOnNonCompliant : Bool} {reply : List Visit → Visit → Reply} {made : List (Visit × Reply)}
  {visit : Visit} {given : Reply} {history order : List Visit}

/-- The reply that stops the walk. -/
def stopper (breakOnNonCompliant : Bool) (made : List (Visit × Reply)) : Option Reply :=
  (made.map Prod.snd).find? (stopping breakOnNonCompliant)

theorem stopper_append (made more : List (Visit × Reply)) : stopper breakOnNonCompliant (made ++ more) =
    (stopper breakOnNonCompliant made).or (stopper breakOnNonCompliant more) := by
  rw [stopper, List.map_append, List.find?_append, stopper, stopper]

theorem stopper_singleton : stopper breakOnNonCompliant [(visit, given)] =
    if stopping breakOnNonCompliant given then some given else none := by
  rw [stopper, List.map_singleton, List.find?_singleton]

theorem consult_cons_stopping (h : stopping breakOnNonCompliant (reply history visit) = true) :
    consult breakOnNonCompliant reply history (visit :: order) = [(visit, reply history visit)] := by
  rw [consult]
  exact if_pos h

theorem consult_cons (h : stopping breakOnNonCompliant (reply history visit) = false) :
    consult breakOnNonCompliant reply history (visit :: order) =
      (visit, reply history visit) :: consult breakOnNonCompliant reply (history ++ [visit]) order := by
  rw [consult]
  exact if_neg (Bool.eq_false_iff.mp h)

/-- Nothing stops the calls of the first part. -/
theorem consult_append_of_none {rest : List Visit}
    (h : stopper breakOnNonCompliant (consult breakOnNonCompliant reply history order) = none) :
    consult breakOnNonCompliant reply history (order ++ rest) = consult breakOnNonCompliant reply history order ++
      consult breakOnNonCompliant reply (history ++ order) rest := by
  induction order generalizing history with
  | nil => rw [List.nil_append, consult, List.nil_append, List.append_nil]
  | cons visit order ih =>
    cases hstop : stopping breakOnNonCompliant (reply history visit) with
    | true =>
      rw [consult_cons_stopping hstop, stopper_singleton, if_pos hstop] at h
      cases h
    | false =>
      rw [consult_cons hstop] at h ⊢
      rw [List.cons_append, consult_cons hstop, List.cons_append]
      have hrest : stopper breakOnNonCompliant (consult breakOnNonCompliant reply (history ++ [visit]) order) = none := by
        rw [stopper, List.map_cons, List.find?_cons_of_neg (by rw [hstop]; exact Bool.false_ne_true)] at h
        exact h
      rw [ih hrest, List.append_assoc, List.singleton_append]

theorem consult_append_of_some {rest : List Visit} {last : Reply}
    (h : stopper breakOnNonCompliant (consult breakOnNonCompliant reply history order) = some last) :
    consult breakOnNonCompliant reply history (order ++ rest) = consult breakOnNonCompliant reply history order := by
  induction order generalizing history with
  | nil => cases h
  | cons visit order ih =>
    cases hstop : stopping breakOnNonCompliant (reply history visit) with
    | true => rw [List.cons_append, consult_cons_stopping hstop, consult_cons_stopping hstop]
    | false =>
      rw [consult_cons hstop] at h ⊢
      rw [List.cons_append, consult_cons hstop]
      have hrest : stopper breakOnNonCompliant (consult breakOnNonCompliant reply (history ++ [visit]) order) = some last := by
        rw [stopper, List.map_cons, List.find?_cons_of_neg (by rw [hstop]; exact Bool.false_ne_true)] at h
        exact h
      rw [ih hrest]

theorem consult_visits (h : stopper breakOnNonCompliant (consult breakOnNonCompliant reply history order) = none) :
    (consult breakOnNonCompliant reply history order).map Prod.fst = order := by
  induction order generalizing history with
  | nil => rfl
  | cons visit order ih =>
    cases hstop : stopping breakOnNonCompliant (reply history visit) with
    | true =>
      rw [consult_cons_stopping hstop, stopper_singleton, if_pos hstop] at h
      cases h
    | false =>
      rw [consult_cons hstop, stopper, List.map_cons,
        List.find?_cons_of_neg (by rw [hstop]; exact Bool.false_ne_true)] at h
      rw [consult_cons hstop, List.map_cons, ih h]

/-- Only the last reply can stop the walk. -/
theorem stopper_of_mem {one : Visit × Reply} (h : one ∈ consult breakOnNonCompliant reply history order)
    (hone : stopping breakOnNonCompliant one.2 = true) :
    stopper breakOnNonCompliant (consult breakOnNonCompliant reply history order) = some one.2 := by
  induction order generalizing history with
  | nil => cases h
  | cons visit order ih =>
    cases hstop : stopping breakOnNonCompliant (reply history visit) with
    | true =>
      rw [consult_cons_stopping hstop] at h ⊢
      rw [List.mem_singleton.mp h, stopper_singleton, if_pos hstop]
    | false =>
      rw [consult_cons hstop] at h ⊢
      rcases List.mem_cons.mp h with rfl | hrest
      · rw [hstop] at hone
        cases hone
      · rw [stopper, List.map_cons, List.find?_cons_of_neg (by rw [hstop]; exact Bool.false_ne_true)]
        exact ih hrest

/-- The status after replies, none of which stops the walk. -/
def combined (result : Status) (made : List (Visit × Reply)) : Status :=
  if made.any notCompliant then .nonCompliant else result

theorem combined_append (result : Status) (made more : List (Visit × Reply)) :
    combined result (made ++ more) = combined (combined result made) more := by
  unfold combined
  rw [List.any_append]
  cases made.any notCompliant <;> cases more.any notCompliant <;> rfl

theorem ok_of_not_stopping (h : stopping breakOnNonCompliant given = false) : ∃ status, given.result = .ok status := by
  cases hresult : given.result with
  | error e =>
    rw [stopping, hresult] at h
    cases h
  | ok status => exact ⟨status, rfl⟩

end Consulting

section Events

variable {events more : List WalkEvent} {w w' w'' : TreeWorld} {made : List Visit} {opened : List Bytes}

theorem calls_append (events more : List WalkEvent) : calls (events ++ more) = calls events ++ calls more :=
  List.filterMap_append

theorem openAfter_append {streams : List Bytes} (h : openAfter streams events = some opened) :
    openAfter streams (events ++ more) = openAfter opened more := by
  induction events generalizing streams with
  | nil =>
    cases h
    rfl
  | cons event events ih =>
    cases event with
    | opened path => exact ih h
    | called visit => exact ih h
    | closed path =>
      cases streams with
      | nil => cases h
      | cons stream streams =>
        rw [openAfter] at h
        rw [List.cons_append, openAfter]
        split_ifs at h ⊢
        exact ih h

/-- These calls have been made, and these streams are open besides those that were. -/
def Advances (w w' : TreeWorld) (made : List Visit) (opened : List Bytes) : Prop :=
  ∃ events, w'.events = w.events ++ events ∧ calls events = made ∧
    ∀ streams, openAfter streams events = some (opened ++ streams)

theorem Advances.refl_of_events (h : w'.events = w.events) : Advances w w' [] [] :=
  ⟨[], by rw [h, List.append_nil], rfl, fun _ => rfl⟩

theorem Advances.trans {more : List Visit} {further : List Bytes} (h : Advances w w' made opened)
    (h' : Advances w' w'' more further) : Advances w w'' (made ++ more) (further ++ opened) := by
  obtain ⟨events, hevents, rfl, hopen⟩ := h
  obtain ⟨events', hevents', rfl, hopen'⟩ := h'
  refine ⟨events ++ events', by rw [hevents', hevents, List.append_assoc], calls_append events events', fun streams => ?_⟩
  rw [openAfter_append (hopen streams), hopen', List.append_assoc]

theorem Advances.opening (w : TreeWorld) (path : Bytes) : Advances w (w.add (.opened path)) [] [path] :=
  ⟨[.opened path], rfl, rfl, fun _ => rfl⟩

theorem Advances.called (w : TreeWorld) (visit : Visit) (errno : Int) :
    Advances w { w.add (.called visit) with errno } [visit] [] :=
  ⟨[.called visit], rfl, rfl, fun _ => rfl⟩

theorem Advances.calls_eq (h : Advances w w' made opened) : calls w'.events = calls w.events ++ made := by
  obtain ⟨events, hevents, rfl, -⟩ := h
  rw [hevents, calls_append]

/-- What is done between the opening and the closing of a stream leaves no stream open. -/
theorem Advances.closing {path : Bytes} (h : Advances w w' made [path]) : Advances w (w'.add (.closed path)) made [] := by
  obtain ⟨events, hevents, rfl, hopen⟩ := h
  refine ⟨events ++ [.closed path], ?_, ?_, fun streams => ?_⟩
  · rw [TreeWorld.add, hevents, List.append_assoc]
  · rw [calls_append]
    exact List.append_nil _
  · rw [openAfter_append (hopen streams)]
    exact if_pos rfl

end Events
section Walks

variable (base : System TreeWorld) (tree : FileTree) (breakOnNonCompliant : Bool) (reply : List Visit → Visit → Reply)

/-- How the loop over entries ends, for the replies to its calls. -/
def EntriesEnd (result : Status) (made : List (Visit × Reply)) (w : TreeWorld)
    (walked : EStateM.Result Failure (ProcedureRun TreeWorld) (Except Error Status × Int)) : Prop :=
  match stopper breakOnNonCompliant made with
  | none => ∃ t, walked = .ok (.ok (combined result made), 0) t ∧ Advances w t.context (made.map Prod.fst) []
  | some last =>
    match last.result with
    | .error e => ∃ t opened, walked = .error (.error e) t ∧ Advances w t.context (made.map Prod.fst) opened
    | .ok _ =>
      if last.errno = 0 then ∃ t, walked = .ok (.ok .nonCompliant, 0) t ∧ t.context.errno = 0 ∧
        Advances w t.context (made.map Prod.fst) []
      else (∃ t errno, errno ≠ 0 ∧ walked = .ok (.ok .nonCompliant, errno) t ∧
          Advances w t.context (made.map Prod.fst) []) ∨
        ∃ e t opened, walked = .error (.error e) t ∧ Advances w t.context (made.map Prod.fst) opened

/-- How the walk of a directory ends. -/
def DirectoryEnd (made : List (Visit × Reply)) (w : TreeWorld)
    (walked : EStateM.Result Failure (ProcedureRun TreeWorld) Status) : Prop :=
  match stopper breakOnNonCompliant made with
  | none => ∃ t, walked = .ok (combined .compliant made) t ∧ Advances w t.context (made.map Prod.fst) []
  | some last =>
    match last.result with
    | .error e => ∃ t opened, opened ≠ [] ∧ walked = .error (.error e) t ∧
        Advances w t.context (made.map Prod.fst) opened
    | .ok _ =>
      if last.errno = 0 then ∃ t, walked = .ok .nonCompliant t ∧ t.context.errno = 0 ∧
        Advances w t.context (made.map Prod.fst) []
      else ∃ e t opened, walked = .error (.error e) t ∧ Advances w t.context (made.map Prod.fst) opened

variable {base tree breakOnNonCompliant reply} {walk : Bytes → ProcedureM TreeWorld Status} {path : Bytes}
  {s t : ProcedureRun TreeWorld} {entry : DirectoryEntry} {entries : List DirectoryEntry} {result : Status} {endErrno : Int}

/-- The state in which an entry has been read. -/
def reset (s : ProcedureRun TreeWorld) : ProcedureRun TreeWorld := { s with context := { s.context with errno := 0 } }

theorem walkEntries_break {last : Except Error Status} (h : ¬IsPassed entry)
    (hvisit : visitEntry (onTree base tree) (replying reply) breakOnNonCompliant walk path entry result (reset s) =
      .ok (last, false) t) :
    walkEntries (onTree base tree) (replying reply) breakOnNonCompliant walk path endErrno (entry :: entries) result s =
      .ok (last, t.context.errno) t :=
  walkEntries_stops h hvisit

/-- The status after the contents of an entry. -/
def after (sub result : Status) : Status := if sub ≠ .compliant then .nonCompliant else result

/-- What the walk has found of an entry when it comes to the entry itself. -/
def Contents (walk : Bytes → ProcedureM TreeWorld Status) (path : Bytes) (entry : DirectoryEntry) (s : ProcedureRun TreeWorld) :
    EStateM.Result Failure (ProcedureRun TreeWorld) Status :=
  (if entry.isDirectory then walk (inside path entry.name) else pure .compliant : ProcedureM TreeWorld Status) s

theorem visitEntry_fails {failure : Failure} (h : Contents walk path entry s = .error failure t) :
    visitEntry (onTree base tree) (replying reply) breakOnNonCompliant walk path entry result s = .error failure t :=
  bind_run_error _ h

theorem visitEntry_broken {sub : Status} (h : Contents walk path entry s = .ok sub t) (hsub : sub ≠ .compliant)
    (hbreak : breakOnNonCompliant = true) :
    visitEntry (onTree base tree) (replying reply) breakOnNonCompliant walk path entry result s =
      .ok (.ok .nonCompliant, false) t := by
  refine (bind_run_ok _ h).trans ?_
  dsimp only
  rw [if_pos ⟨hsub, hbreak⟩, if_pos hsub]
  rfl

/-- The state after the call for an entry. -/
def called (reply : List Visit → Visit → Reply) (visit : Visit) (t : ProcedureRun TreeWorld) : ProcedureRun TreeWorld :=
  { t with context :=
    { t.context.add (.called visit) with errno := (reply (calls t.context.events) visit).errno } }

theorem visitEntry_calls {sub : Status} {st : FileStat} (h : Contents walk path entry s = .ok sub t)
    (hsub : ¬(sub ≠ .compliant ∧ breakOnNonCompliant = true)) (hstat : tree.stat (inside path entry.name) = some st) :
    visitEntry (onTree base tree) (replying reply) breakOnNonCompliant walk path entry result s =
      match (reply (calls t.context.events) { directory := path, filename := entry.name, st }).result with
      | .error e => .error (.error e) (called reply { directory := path, filename := entry.name, st } t)
      | .ok status => .ok (.ok (after status (after sub result)), !(status ≠ .compliant && breakOnNonCompliant))
          (called reply { directory := path, filename := entry.name, st } t) := by
  refine (bind_run_ok _ h).trans ?_
  dsimp only
  rw [if_neg hsub]
  have hlstat : ProcedureM.call ((onTree base tree).lstat (inside path entry.name)) t = .ok (some st) t := by
    rw [call_run, onTree]
    dsimp only
    rw [hstat]
  refine (bind_run_ok _ hlstat).trans ?_
  dsimp only
  cases hreply : (reply (calls t.context.events) { directory := path, filename := entry.name, st }).result with
  | error e =>
    refine bind_run_error _ ?_
    rw [replying]
    dsimp only
    rw [hreply]
    rfl
  | ok status =>
    have hcallback : replying reply path entry.name st t =
        .ok status (called reply { directory := path, filename := entry.name, st } t) := by
      rw [replying]
      dsimp only
      rw [hreply]
      rfl
    refine (bind_run_ok _ hcallback).trans ?_
    rw [pure_run, Bool.decide_and, Bool.decide_eq_true]
    rfl

/-- The calls for one entry are the contents and then the entry. -/
theorem entriesEnd_append {first rest : List (Visit × Reply)} {w w' : TreeWorld}
    {walked : EStateM.Result Failure (ProcedureRun TreeWorld) (Except Error Status × Int)}
    (hnone : stopper breakOnNonCompliant first = none) (hfirst : Advances w w' (first.map Prod.fst) [])
    (hrest : EntriesEnd breakOnNonCompliant (combined result first) rest w' walked) :
    EntriesEnd breakOnNonCompliant result (first ++ rest) w walked := by
  have hadvances : ∀ {w'' : TreeWorld} {opened : List Bytes}, Advances w' w'' (rest.map Prod.fst) opened →
      Advances w w'' ((first ++ rest).map Prod.fst) opened := by
    intro w'' opened h
    rw [List.map_append]
    simpa using hfirst.trans h
  rw [EntriesEnd] at hrest ⊢
  rw [stopper_append, hnone, Option.none_or]
  cases hstop : stopper breakOnNonCompliant rest with
  | none =>
    rw [hstop] at hrest
    obtain ⟨t, hwalked, ht⟩ := hrest
    exact ⟨t, by rw [hwalked, combined_append], hadvances ht⟩
  | some last =>
    rw [hstop] at hrest
    dsimp only at hrest ⊢
    cases hresult : last.result with
    | error e =>
      rw [hresult] at hrest
      obtain ⟨t, opened, hwalked, ht⟩ := hrest
      exact ⟨t, opened, hwalked, hadvances ht⟩
    | ok status =>
      rw [hresult] at hrest
      dsimp only at hrest ⊢
      split_ifs at hrest ⊢
      · obtain ⟨t, hwalked, herrno, ht⟩ := hrest
        exact ⟨t, hwalked, herrno, hadvances ht⟩
      · rcases hrest with ⟨t, errno, herrno, hwalked, ht⟩ | ⟨e, t, opened, hwalked, ht⟩
        · exact .inl ⟨t, errno, herrno, hwalked, hadvances ht⟩
        · exact .inr ⟨e, t, opened, hwalked, hadvances ht⟩

theorem stopping_of_stopper {made : List (Visit × Reply)} {last : Reply}
    (h : stopper breakOnNonCompliant made = some last) : stopping breakOnNonCompliant last = true :=
  List.find?_some h

theorem break_of_stopping {given : Reply} {status : Status} (h : stopping breakOnNonCompliant given = true)
    (hresult : given.result = .ok status) : status ≠ .compliant ∧ breakOnNonCompliant = true := by
  rw [stopping, hresult] at h
  simpa using h

/-- Where the walk of the contents stops, the loop over the entries ends. -/
theorem entriesEnd_of_contents {made : List (Visit × Reply)} {last : Reply}
    (h : ¬(entry.isDirectory ∧ isSpecial entry.name)) (hstop : stopper breakOnNonCompliant made = some last)
    (hcontents : DirectoryEnd breakOnNonCompliant made s.context (Contents walk path entry (reset s))) :
    EntriesEnd breakOnNonCompliant result made s.context
      (walkEntries (onTree base tree) (replying reply) breakOnNonCompliant walk path endErrno (entry :: entries) result s) := by
  rw [DirectoryEnd, hstop] at hcontents
  rw [EntriesEnd, hstop]
  dsimp only at hcontents ⊢
  cases hresult : last.result with
  | error e =>
    rw [hresult] at hcontents
    obtain ⟨t, opened, -, hwalked, ht⟩ := hcontents
    exact ⟨t, opened, walkEntries_raises h (visitEntry_fails hwalked), ht⟩
  | ok status =>
    rw [hresult] at hcontents
    dsimp only at hcontents ⊢
    split_ifs at hcontents ⊢
    · obtain ⟨t, hwalked, herrno, ht⟩ := hcontents
      have hbreak := (break_of_stopping (stopping_of_stopper hstop) hresult).2
      have hvisit := @visitEntry_broken base tree _ reply _ _ _ _ _ result _ hwalked nofun hbreak
      exact ⟨t, by rw [walkEntries_break h hvisit, herrno], herrno, ht⟩
    · obtain ⟨e, t, opened, hwalked, ht⟩ := hcontents
      exact .inr ⟨e, t, opened, walkEntries_raises h (visitEntry_fails hwalked), ht⟩

theorem after_combined (result : Status) (made : List (Visit × Reply)) :
    after (combined .compliant made) result = combined result made := by
  unfold combined after
  cases made.any notCompliant <;> rfl

theorem after_status {visit : Visit} {given : Reply} {status : Status} (result : Status) (h : given.result = .ok status) :
    after status result = combined result [(visit, given)] := by
  have hany : [(visit, given)].any notCompliant = decide (status ≠ .compliant) := by
    simp [notCompliant, h, Except.toOption]
  rw [combined, hany, after]
  simp only [decide_eq_true_eq]

theorem combined_of_none {made : List (Visit × Reply)} (h : stopper breakOnNonCompliant made = none) :
    ¬(combined .compliant made ≠ .compliant ∧ breakOnNonCompliant = true) := by
  rintro ⟨hcombined, rfl⟩
  apply hcombined
  refine if_neg ?_
  rw [List.any_eq_true]
  rintro ⟨one, hone, hnot⟩
  have hgoes := List.find?_eq_none.mp h one.2 (List.mem_map_of_mem hone)
  obtain ⟨status, hstatus⟩ := ok_of_not_stopping (Bool.eq_false_iff.mpr hgoes)
  rw [stopping, hstatus] at hgoes
  rw [notCompliant, hstatus] at hnot
  simp_all [Except.toOption]

/-- An entry whose contents have been walked through is passed to the callback. -/
theorem entriesEnd_of_call {first : List Visit} {rest : List Visit} {st : FileStat}
    (h : ¬(entry.isDirectory ∧ isSpecial entry.name)) (hstat : tree.stat (inside path entry.name) = some st)
    (hcontents : Contents walk path entry (reset s) =
      .ok (combined .compliant (consult breakOnNonCompliant reply (calls s.context.events) first)) t)
    (hnone : stopper breakOnNonCompliant (consult breakOnNonCompliant reply (calls s.context.events) first) = none)
    (hrest : ∀ next u, EntriesEnd breakOnNonCompliant next (consult breakOnNonCompliant reply (calls u.context.events) rest)
      u.context (walkEntries (onTree base tree) (replying reply) breakOnNonCompliant walk path endErrno entries next u)) :
    EntriesEnd breakOnNonCompliant
      (combined result (consult breakOnNonCompliant reply (calls s.context.events) first))
      (consult breakOnNonCompliant reply (calls t.context.events) ({ directory := path, filename := entry.name, st } :: rest))
      t.context
      (walkEntries (onTree base tree) (replying reply) breakOnNonCompliant walk path endErrno (entry :: entries) result s) := by
  have hvisit := @visitEntry_calls base tree _ reply _ _ _ _ _ result _ _ hcontents (combined_of_none hnone) hstat
  rw [after_combined] at hvisit
  generalize hhere : ({ directory := path, filename := entry.name, st } : Visit) = visit at hvisit ⊢
  have hcalled := Advances.called t.context visit (reply (calls t.context.events) visit).errno
  cases hstop : stopping breakOnNonCompliant (reply (calls t.context.events) visit) with
  | true =>
    rw [consult_cons_stopping hstop, EntriesEnd, stopper_singleton, if_pos hstop]
    dsimp only
    cases hresult : (reply (calls t.context.events) visit).result with
    | error e =>
      rw [hresult] at hvisit
      exact ⟨_, [], walkEntries_raises h hvisit, hcalled⟩
    | ok status =>
      have hbreak := break_of_stopping hstop hresult
      have hstopped : (decide (status ≠ .compliant) && breakOnNonCompliant) = true := by
        rwa [stopping, hresult] at hstop
      rw [hresult] at hvisit
      dsimp only at hvisit ⊢
      rw [hstopped, Bool.not_true, after, if_pos hbreak.1] at hvisit
      have hwalked := @walkEntries_break base tree _ reply _ _ _ _ _ entries _ endErrno _ h hvisit
      by_cases herrno : (reply (calls t.context.events) visit).errno = 0
      · rw [if_pos herrno]
        have hlast : (called reply visit t).context.errno = 0 := herrno
        exact ⟨called reply visit t, by rw [hwalked, hlast], hlast, hcalled⟩
      · rw [if_neg herrno]
        exact .inl ⟨_, _, herrno, hwalked, hcalled⟩
  | false =>
    obtain ⟨status, hstatus⟩ := ok_of_not_stopping hstop
    have hgoes : (decide (status ≠ .compliant) && breakOnNonCompliant) = false := by
      rwa [stopping, hstatus] at hstop
    rw [hstatus] at hvisit
    dsimp only at hvisit
    rw [hgoes, Bool.not_false, after_status _ hstatus] at hvisit
    rw [consult_cons hstop, ← List.singleton_append, walkEntries_goesOn h hvisit]
    refine entriesEnd_append ?_ hcalled ?_
    · rw [stopper_singleton, if_neg (Bool.eq_false_iff.mp hstop)]
    · have hnext := hrest (combined (combined result (consult breakOnNonCompliant reply (calls s.context.events) first))
        [(visit, reply (calls t.context.events) visit)]) (called reply visit t)
      have hhistory : calls (called reply visit t).context.events = calls t.context.events ++ [visit] := hcalled.calls_eq
      rwa [hhistory] at hnext

/-- One entry: its contents, then the entry itself, then those after it. -/
theorem entriesEnd_cons {first rest : List Visit} {st : FileStat} (h : ¬(entry.isDirectory ∧ isSpecial entry.name))
    (hstat : tree.stat (inside path entry.name) = some st)
    (hcontents : DirectoryEnd breakOnNonCompliant (consult breakOnNonCompliant reply (calls s.context.events) first) s.context
      (Contents walk path entry (reset s)))
    (hrest : ∀ next u, EntriesEnd breakOnNonCompliant next (consult breakOnNonCompliant reply (calls u.context.events) rest)
      u.context (walkEntries (onTree base tree) (replying reply) breakOnNonCompliant walk path endErrno entries next u)) :
    EntriesEnd breakOnNonCompliant result
      (consult breakOnNonCompliant reply (calls s.context.events)
        (first ++ [{ directory := path, filename := entry.name, st }] ++ rest)) s.context
      (walkEntries (onTree base tree) (replying reply) breakOnNonCompliant walk path endErrno (entry :: entries) result s) := by
  rw [List.append_assoc, List.singleton_append]
  cases hstop : stopper breakOnNonCompliant (consult breakOnNonCompliant reply (calls s.context.events) first) with
  | some last =>
    rw [consult_append_of_some hstop]
    exact entriesEnd_of_contents h hstop hcontents
  | none =>
    rw [DirectoryEnd, hstop] at hcontents
    obtain ⟨t, hwalked, ht⟩ := hcontents
    rw [consult_append_of_none hstop]
    have hfirst := ht
    rw [consult_visits hstop] at hfirst
    refine entriesEnd_append hstop ht ?_
    rw [← hfirst.calls_eq]
    exact entriesEnd_of_call h hstat hwalked hstop hrest

/-- The loop over entries of the tree, where the walk of a directory below ends as its replies say. -/
theorem walkEntries_end {levels : Nat} {listed : List TreeEntry}
    (hwalk : ∀ below contents, Shows tree levels below contents → ∀ u, DirectoryEnd breakOnNonCompliant
      (consult breakOnNonCompliant reply (calls u.context.events) (visits below contents)) u.context (walk below u))
    (hshows : ∀ entry ∈ listed, match entry with
      | .special name => isSpecial name
      | .file name st => tree.stat (inside path name) = some st
      | .directory name st contents =>
        ¬isSpecial name ∧ tree.stat (inside path name) = some st ∧ Shows tree levels (inside path name) contents)
    (result : Status) (s : ProcedureRun TreeWorld) :
    EntriesEnd breakOnNonCompliant result (consult breakOnNonCompliant reply (calls s.context.events) (visits path listed))
      s.context (walkEntries (onTree base tree) (replying reply) breakOnNonCompliant walk path 0
        (listed.map TreeEntry.listed) result s) := by
  induction listed generalizing result s with
  | nil => exact ⟨s, rfl, .refl_of_events rfl⟩
  | cons entry listed ih =>
    rw [List.forall_mem_cons] at hshows
    have hrest := ih hshows.2
    rw [List.map_cons, visits]
    cases entry with
    | special name =>
      rw [visitsOf, List.nil_append, walkEntries_passed (show IsPassed (TreeEntry.special name).listed from ⟨rfl, hshows.1⟩)]
      exact hrest result (reset s)
    | file name st =>
      have hcontents : DirectoryEnd breakOnNonCompliant (consult breakOnNonCompliant reply (calls s.context.events) [])
          s.context (Contents walk path (TreeEntry.file name st).listed (reset s)) :=
        ⟨reset s, rfl, .refl_of_events rfl⟩
      rw [visitsOf]
      exact entriesEnd_cons (fun hspecial => Bool.false_ne_true hspecial.1) hshows.1 hcontents hrest
    | directory name st contents =>
      obtain ⟨hnot, hstat, hbelow⟩ := hshows.1
      have hcontents : DirectoryEnd breakOnNonCompliant
          (consult breakOnNonCompliant reply (calls s.context.events) (visits (inside path name) contents)) s.context
          (Contents walk path (TreeEntry.directory name st contents).listed (reset s)) :=
        hwalk _ _ hbelow (reset s)
      rw [visitsOf]
      exact entriesEnd_cons (fun hspecial => hnot hspecial.2) hstat hcontents hrest

/-- What is left to do when the loop over the entries has ended. -/
def finishWalk (base : System TreeWorld) (tree : FileTree) (path : Bytes) (walked : Except Error Status × Int) :
    ProcedureM TreeWorld Status := do
  ProcedureM.call ((onTree base tree).closedir path)
  match walked.1 with
  | .error e => ProcedureM.fail e
  | .ok result =>
    if walked.2 ≠ 0 then
      let message := utf8 "Failed to iterate directory '" ++ path ++ utf8 "': " ++ (onTree base tree).strerror walked.2
      ProcedureM.fail { message, code := walked.2 }
    else pure result

theorem walkDirectory_list {listed : List TreeEntry} {room : Nat} (h : tree.list path = some listed) :
    walkDirectory (onTree base tree) (replying reply) breakOnNonCompliant (room + 1) path s =
      (walkEntries (onTree base tree) (replying reply) breakOnNonCompliant
        (walkDirectory (onTree base tree) (replying reply) breakOnNonCompliant room) path 0
        (listed.map TreeEntry.listed) .compliant >>= finishWalk base tree path)
        { s with context := s.context.add (.opened path) } := by
  have hopen : ProcedureM.call ((onTree base tree).opendir path) s =
      .ok (some { entries := listed.map TreeEntry.listed, endErrno := 0 })
        { s with context := s.context.add (.opened path) } := by
    rw [call_run, onTree]
    dsimp only
    rw [h]
  rw [walkDirectory]
  exact bind_run_ok _ hopen

/-- The state in which the stream has been closed. -/
def closed (path : Bytes) (t : ProcedureRun TreeWorld) : ProcedureRun TreeWorld :=
  { t with context := t.context.add (.closed path) }

theorem finishWalk_ok (result : Status) : finishWalk base tree path (.ok result, 0) t = .ok result (closed path t) := rfl

theorem finishWalk_errno {errno : Int} (h : errno ≠ 0) (result : Status) :
    ∃ e, finishWalk base tree path (.ok result, errno) t = .error (.error e) (closed path t) := by
  have hfinish : finishWalk base tree path (.ok result, errno) t =
      (if errno ≠ 0 then ProcedureM.fail
          { message := utf8 "Failed to iterate directory '" ++ path ++ utf8 "': " ++ (onTree base tree).strerror errno
            code := errno }
        else pure result : ProcedureM TreeWorld Status) (closed path t) := rfl
  rw [if_pos h] at hfinish
  exact ⟨_, hfinish⟩

theorem walkDirectory_end (room : Nat) (path : Bytes) (listed : List TreeEntry) (h : Shows tree room path listed)
    (s : ProcedureRun TreeWorld) : DirectoryEnd breakOnNonCompliant
      (consult breakOnNonCompliant reply (calls s.context.events) (visits path listed)) s.context
      (walkDirectory (onTree base tree) (replying reply) breakOnNonCompliant room path s) := by
  induction room generalizing path listed s with
  | zero => exact h.elim
  | succ room ih =>
    obtain ⟨hlist, hshows⟩ := h
    rw [walkDirectory_list hlist]
    have hopening := Advances.opening s.context path
    have hhistory := hopening.calls_eq
    rw [List.append_nil] at hhistory
    have hentries := @walkEntries_end base _ _ _ _ _ _ _ ih hshows .compliant { s with context := s.context.add (.opened path) }
    rw [hhistory] at hentries
    generalize consult breakOnNonCompliant reply (calls s.context.events) (visits path listed) = made at hentries ⊢
    have hadvances : ∀ {w : TreeWorld} {opened : List Bytes},
        Advances (s.context.add (.opened path)) w (made.map Prod.fst) opened →
          Advances s.context w (made.map Prod.fst) (opened ++ [path]) := hopening.trans
    rw [EntriesEnd] at hentries
    rw [DirectoryEnd]
    cases hstop : stopper breakOnNonCompliant made with
    | none =>
      rw [hstop] at hentries
      obtain ⟨t, hwalked, ht⟩ := hentries
      exact ⟨closed path t, (bind_run_ok _ hwalked).trans (finishWalk_ok _), (hadvances ht).closing⟩
    | some last =>
      rw [hstop] at hentries
      dsimp only at hentries ⊢
      cases hresult : last.result with
      | error e =>
        rw [hresult] at hentries
        obtain ⟨t, opened, hwalked, ht⟩ := hentries
        exact ⟨t, opened ++ [path], List.append_ne_nil_of_right_ne_nil _ (List.cons_ne_nil _ _), bind_run_error _ hwalked,
          hadvances ht⟩
      | ok status =>
        rw [hresult] at hentries
        dsimp only at hentries ⊢
        split_ifs at hentries ⊢
        · obtain ⟨t, hwalked, herrno, ht⟩ := hentries
          exact ⟨closed path t, (bind_run_ok _ hwalked).trans (finishWalk_ok _), herrno, (hadvances ht).closing⟩
        · obtain ⟨t, errno, herrno, hwalked, ht⟩ | ⟨e, t, opened, hwalked, ht⟩ := hentries
          · obtain ⟨e, hfinish⟩ := @finishWalk_errno base tree path t errno herrno .nonCompliant
            exact ⟨e, closed path t, [], (bind_run_ok _ hwalked).trans hfinish, (hadvances ht).closing⟩
          · exact ⟨e, t, opened ++ [path], bind_run_error _ hwalked, hadvances ht⟩

end Walks
section Verdicts

variable {base : System TreeWorld} {tree : FileTree} {path : Bytes} {entries : List TreeEntry} {breakOnNonCompliant : Bool}
  {reply : List Visit → Visit → Reply} {history order : List Visit}

theorem result_of_ok {m : ProcedureM TreeWorld Status} {status : Status} {t : ProcedureRun TreeWorld}
    (h : m { context := {} } = .ok status t) : m.result {} = .ok status ∧ m.run {} = t := by
  rw [ProcedureM.result, ProcedureM.run, h]
  exact ⟨rfl, leaves_of_ok h⟩

theorem result_of_error {m : ProcedureM TreeWorld Status} {failure : Failure} {t : ProcedureRun TreeWorld}
    (h : m { context := {} } = .error failure t) : m.result {} = .error failure ∧ m.run {} = t := by
  rw [ProcedureM.result, ProcedureM.run, h]
  exact ⟨rfl, leaves_of_error h⟩

theorem verdict_of_ok {made : List (Visit × Reply)} (h : ∀ one ∈ made, ∃ status, one.2.result = .ok status) :
    verdict made = .ok (combined .compliant made) := by
  have hnone : firstError (made.map (·.2.result)) = none := by
    rw [firstError_eq_none]
    intro input hinput
    obtain ⟨one, hone, rfl⟩ := List.mem_map.mp hinput
    exact h one hone
  rw [verdict, hnone, combined]
  dsimp only
  split_ifs <;> rfl

theorem Advances.from_start {w : TreeWorld} {made : List Visit} {opened : List Bytes} (h : Advances {} w made opened) :
    calls w.events = made ∧ openAfter [] w.events = some opened := by
  obtain ⟨events, hevents, hmade, hopen⟩ := h
  rw [List.nil_append] at hevents
  rw [hevents, hopen, List.append_nil]
  exact ⟨hmade, rfl⟩

theorem sound_of_ok {t : ProcedureRun TreeWorld}
    (hok : ∀ one ∈ madeOn path entries breakOnNonCompliant reply, ∃ status, one.2.result = .ok status)
    (hwalked : walkOn base tree path breakOnNonCompliant reply { context := {} } =
      .ok (combined .compliant (madeOn path entries breakOnNonCompliant reply)) t)
    (ht : Advances {} t.context ((madeOn path entries breakOnNonCompliant reply).map Prod.fst) []) :
    Sound base tree path entries breakOnNonCompliant reply := by
  obtain ⟨hresult, hrun⟩ := result_of_ok hwalked
  refine ⟨by rw [hresult, verdict_of_ok hok], ?_, ?_⟩ <;> rw [hrun]
  · exact ht.from_start.1
  · exact ht.from_start.2

/-- The walk does what it should exactly if no call fails and none that stops it leaves an `errno`. -/
theorem sound_iff_harmless (h : Shows tree (maxDepth + 1) path entries) :
    Sound base tree path entries breakOnNonCompliant reply ↔ Harmless path entries breakOnNonCompliant reply := by
  have hend : DirectoryEnd breakOnNonCompliant (madeOn path entries breakOnNonCompliant reply) {}
      (walkOn base tree path breakOnNonCompliant reply { context := {} }) :=
    walkDirectory_end (maxDepth + 1) path entries h { context := {} }
  have hlast : ∀ one ∈ madeOn path entries breakOnNonCompliant reply, stopping breakOnNonCompliant one.2 = true →
      stopper breakOnNonCompliant (madeOn path entries breakOnNonCompliant reply) = some one.2 :=
    fun one hone => stopper_of_mem hone
  have hothers : ∀ one ∈ madeOn path entries breakOnNonCompliant reply, stopping breakOnNonCompliant one.2 = true ∨
      ∃ status, one.2.result = .ok status := by
    intro one _
    cases hstop : stopping breakOnNonCompliant one.2 with
    | true => exact .inl rfl
    | false => exact .inr (ok_of_not_stopping hstop)
  rw [DirectoryEnd] at hend
  cases hstop : stopper breakOnNonCompliant (madeOn path entries breakOnNonCompliant reply) with
  | none =>
    rw [hstop] at hend hlast
    obtain ⟨t, hwalked, ht⟩ := hend
    have hnone : ∀ one ∈ madeOn path entries breakOnNonCompliant reply, stopping breakOnNonCompliant one.2 ≠ true :=
      fun one hone hstopping => nomatch hlast one hone hstopping
    refine iff_of_true (sound_of_ok (fun one hone => ?_) hwalked ht) fun one hone hstopping => ?_
    · exact (hothers one hone).resolve_left (hnone one hone)
    · exact absurd hstopping (hnone one hone)
  | some last =>
    rw [hstop] at hend hlast
    obtain ⟨one, hone, rfl⟩ := List.mem_map.mp (List.mem_of_find?_eq_some hstop)
    have hstopping := stopping_of_stopper hstop
    dsimp only at hend
    cases hresult : one.2.result with
    | error e =>
      rw [hresult] at hend
      obtain ⟨t, opened, hne, hwalked, ht⟩ := hend
      refine iff_of_false (fun hsound => ?_) fun hharmless => ?_
      · have hcloses := hsound.closes
        rw [(result_of_error hwalked).2, ht.from_start.2] at hcloses
        exact hne (Option.some.inj hcloses)
      · obtain ⟨status, hok⟩ := (hharmless one hone hstopping).1
        rw [hresult] at hok
        cases hok
    | ok status =>
      rw [hresult] at hend
      dsimp only at hend
      have hok : ∀ other ∈ madeOn path entries breakOnNonCompliant reply, ∃ status, other.2.result = .ok status := by
        intro other hother
        rcases hothers other hother with hstopping' | hok
        · rw [← Option.some.inj (hlast other hother hstopping')]
          exact ⟨status, hresult⟩
        · exact hok
      have hcombined : combined .compliant (madeOn path entries breakOnNonCompliant reply) = .nonCompliant := by
        refine if_pos (List.any_eq_true.mpr ⟨one, hone, ?_⟩)
        simpa [notCompliant, hresult, Except.toOption] using (break_of_stopping hstopping hresult).1
      split_ifs at hend with herrno
      · obtain ⟨t, hwalked, -, ht⟩ := hend
        rw [← hcombined] at hwalked
        refine iff_of_true (sound_of_ok hok hwalked ht) fun other hother hstopping' => ?_
        rw [← Option.some.inj (hlast other hother hstopping')]
        exact ⟨⟨status, hresult⟩, herrno⟩
      · obtain ⟨e, t, opened, hwalked, ht⟩ := hend
        refine iff_of_false (fun hsound => ?_) fun hharmless => herrno (hharmless one hone hstopping).2
        have hverdict := hsound.verdict
        rw [(result_of_error hwalked).1, verdict_of_ok hok] at hverdict
        cases hverdict

/-- A system that is asked for nothing but the tree. -/
def idle : System TreeWorld where
  listValidShells w := (.ok [], w)
  users _ w := (.ok [], w)
  specialFilePath path w := (path, w)
  getgrgid _ w := (false, w)
  groupName _ := []
  stat _ w := (false, w)
  mkdir _ _ w := (false, w)
  opendir _ w := (none, w)
  lstat _ w := (none, w)
  errno w := w.errno
  strerror _ := utf8 "No such file or directory"
  makePattern _ := .ok ()
  fnmatchCaseFold _ _ := false
  auditFilePermissions _ w := { result := .ok .compliant, context := w }
  remediateFilePermissions _ w := { result := .ok .compliant, context := w }

def regular : FileStat := { mode := 0o100644, uid := 0 }

/-- A directory with one file. -/
def oneFile : FileTree where
  list path := if path = utf8 "/t" then some [.special (utf8 "."), .file (utf8 "a") regular] else none
  stat path := if path = utf8 "/t/a" then some regular else none

/-- The callback fails, or is not compliant and leaves `ENOENT`. -/
def failing (_ : List Visit) (_ : Visit) : Reply := { result := .error { message := utf8 "no" }, errno := 0 }

def leaving (_ : List Visit) (_ : Visit) : Reply := { result := .ok .nonCompliant, errno := ENOENT }

/-- A stream that is never closed, and an error where the entry was not compliant. -/
theorem oneFile_unsound :
    ¬Sound idle oneFile (utf8 "/t") [.special (utf8 "."), .file (utf8 "a") regular] false failing ∧
    ¬Sound idle oneFile (utf8 "/t") [.special (utf8 "."), .file (utf8 "a") regular] true leaving := by
  constructor
  · intro h
    have hopen : openAfter [] ((walkOn idle oneFile (utf8 "/t") false failing).run {}).context.events =
        some [utf8 "/t"] := by decide
    rw [h.closes] at hopen
    cases hopen
  · intro h
    have hverdict : verdict (madeOn (utf8 "/t") [.special (utf8 "."), .file (utf8 "a") regular] true leaving) =
        .ok .nonCompliant := by decide
    have hresult : (walkOn idle oneFile (utf8 "/t") true leaving).result {} = .error (.error {
        message := utf8 "Failed to iterate directory '/t': No such file or directory", code := ENOENT }) := by decide
    rw [h.verdict, hverdict] at hresult
    cases hresult

/-- What is in a directory with a file and a directory, which has a file too. -/
def nestedEntries : List TreeEntry :=
  [.special (utf8 "."), .directory (utf8 "d") { mode := 0o040755, uid := 0 } [.file (utf8 "a") regular],
    .file (utf8 "b") regular]

def nested : FileTree where
  list path :=
    if path = utf8 "/t" then some nestedEntries
    else if path = utf8 "/t/d" then some [.file (utf8 "a") regular] else none
  stat path :=
    if path = utf8 "/t/d" then some { mode := 0o040755, uid := 0 }
    else if path = utf8 "/t/d/a" ∨ path = utf8 "/t/b" then some regular else none

def declining (_ : List Visit) (_ : Visit) : Reply := { result := .ok .nonCompliant, errno := 0 }

/-- A directory with another one in it is walked as it should be where the callback leaves no `errno`. -/
theorem sound_iff_harmless_nested : Sound idle nested (utf8 "/t") nestedEntries false declining ∧
    Sound idle nested (utf8 "/t") nestedEntries true declining ∧
      ¬Sound idle nested (utf8 "/t") nestedEntries true leaving := by
  have hbelow : Shows nested maxDepth (inside (utf8 "/t") (utf8 "d")) [.file (utf8 "a") regular] := by
    refine ⟨rfl, ?_⟩
    simp only [List.forall_mem_cons, List.not_mem_nil, false_implies, implies_true, and_true]
    exact rfl
  have hshows : Shows nested (maxDepth + 1) (utf8 "/t") nestedEntries := by
    refine ⟨rfl, ?_⟩
    rw [nestedEntries]
    simp only [List.forall_mem_cons, List.not_mem_nil, false_implies, implies_true, and_true]
    exact ⟨.inl rfl, ⟨by rintro (h | h) <;> exact absurd h (by decide), rfl, hbelow⟩, rfl⟩
  have hharmless (breakOnNonCompliant : Bool) : Harmless (utf8 "/t") nestedEntries breakOnNonCompliant declining := by
    intro made hmade _
    have hall : ∀ one ∈ madeOn (utf8 "/t") nestedEntries breakOnNonCompliant declining,
        one.2.result = .ok .nonCompliant ∧ one.2.errno = 0 := by
      cases breakOnNonCompliant <;> decide
    exact ⟨⟨_, (hall made hmade).1⟩, (hall made hmade).2⟩
  refine ⟨(sound_iff_harmless hshows).mpr (hharmless false), (sound_iff_harmless hshows).mpr (hharmless true), ?_⟩
  intro h
  have hfirst : ((madeOn (utf8 "/t") nestedEntries true leaving).head?.map fun made =>
      (stopping true made.2, made.2.errno)) = some (true, ENOENT) := by decide
  obtain ⟨made, hmade, hleaves⟩ := Option.map_eq_some_iff.mp hfirst
  obtain ⟨hstopping, herrno⟩ := Prod.mk.inj hleaves
  have hzero := ((sound_iff_harmless hshows).mp h made (List.mem_of_mem_head? hmade) hstopping).2
  rw [herrno] at hzero
  exact absurd hzero (by decide)

end Verdicts
end Kompli.FileTreeWalk
