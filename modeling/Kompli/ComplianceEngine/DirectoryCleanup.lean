import Kompli.ComplianceEngine.TemporaryDirectory
import Kompli.Foundation.StateRule

/-! What a clean-up does: it stays below its directory, closes what it opens, goes on after a failure, and keeps the
first error. -/
namespace Kompli.TemporaryDirectory
open Foundation
open AtomicFile (FileKind Outcome EBADF ENOTDIR ELOOP)

section Trees

/-- An entry of a directory, other than `.` and `..`. -/
def Entry (fs : FileSystem) (d i : Nat) : Prop := ∃ name, ¬ IsDots name ∧ (name, i) ∈ (fs.inodes d).entries

/-- So many levels below. -/
inductive Reaches (fs : FileSystem) : Nat → Nat → Nat → Prop where
  | here (d) : Reaches fs 0 d d
  | step {n d c i} (entry : Entry fs d c) (rest : Reaches fs n c i) : Reaches fs (n + 1) d i

def Below (fs : FileSystem) (d i : Nat) : Prop := ∃ n, Reaches fs n d i

/-- The directories below are at most so many levels deep. -/
def Height (fs : FileSystem) (d n : Nat) : Prop :=
  ∀ m i, Reaches fs m d i → (fs.inodes i).kind = .directory → m ≤ n

/-- Names were removed, and that is all. -/
structure Prunes (fs fs' : FileSystem) : Prop where
  entries : ∀ i, ∃ kept : Bytes → Bool,
    fs'.inodes i = { fs.inodes i with entries := (fs.inodes i).entries.filter fun entry => kept entry.1 }

namespace Prunes

variable {fs fs' fs'' : FileSystem} {d i n : Nat}

private theorem keep_all (node : Inode) : node = { node with entries := node.entries.filter fun _ => true } := by
  rw [List.filter_eq_self.mpr fun _ _ => rfl]

theorem refl (fs : FileSystem) : Prunes fs fs := ⟨fun _ => ⟨fun _ => true, keep_all _⟩⟩

theorem trans (h : Prunes fs fs') (h' : Prunes fs' fs'') : Prunes fs fs'' := by
  refine ⟨fun i => ?_⟩
  obtain ⟨kept, heq⟩ := h.entries i
  obtain ⟨kept', heq'⟩ := h'.entries i
  refine ⟨fun name => kept name && kept' name, ?_⟩
  rw [heq', heq]
  dsimp only
  rw [List.filter_filter]
  simp only [Bool.and_comm]

theorem remove (fs : FileSystem) (d : Nat) (name : Bytes) : Prunes fs (fs.remove d name) := by
  refine ⟨fun i => ?_⟩
  by_cases hi : i = d
  · subst hi
    exact ⟨fun other => other ≠ name, if_pos rfl⟩
  · exact ⟨fun _ => true, (if_neg hi).trans (keep_all _)⟩

theorem kind (h : Prunes fs fs') (i : Nat) : (fs'.inodes i).kind = (fs.inodes i).kind := by
  obtain ⟨kept, heq⟩ := h.entries i
  rw [heq]

theorem sublist (h : Prunes fs fs') (i : Nat) : (fs'.inodes i).entries.Sublist (fs.inodes i).entries := by
  obtain ⟨kept, heq⟩ := h.entries i
  rw [heq]
  exact List.filter_sublist

/-- A name that is still there is what it was. -/
theorem find (h : Prunes fs fs') {name : Bytes} {entry : Bytes × Nat}
    (hfind : (fs'.inodes d).entries.find? (·.1 = name) = some entry) :
    (fs.inodes d).entries.find? (·.1 = name) = some entry := by
  obtain ⟨kept, heq⟩ := h.entries d
  rw [heq] at hfind
  dsimp only at hfind
  rw [List.find?_filter] at hfind
  have hname := List.find?_some hfind
  rw [decide_eq_true_eq, decide_eq_true_eq] at hname
  rw [← hfind]
  congr 1
  funext other
  by_cases hother : other.1 = name
  · have hkept : kept name = true := hname.2 ▸ hname.1
    simp [hother, hkept]
  · simp [hother]

theorem entry (h : Prunes fs fs') (hentry : Entry fs' d i) : Entry fs d i := by
  obtain ⟨name, hdots, hmem⟩ := hentry
  exact ⟨name, hdots, (h.sublist d).subset hmem⟩

theorem reaches (h : Prunes fs fs') (hreach : Reaches fs' n d i) : Reaches fs n d i := by
  induction hreach with
  | here d => exact .here d
  | step entry rest ih => exact .step (h.entry entry) ih

theorem below (h : Prunes fs fs') (hbelow : Below fs' d i) : Below fs d i := by
  obtain ⟨n, hreach⟩ := hbelow
  exact ⟨n, h.reaches hreach⟩

theorem height (h : Prunes fs fs') (hheight : Height fs d n) : Height fs' d n := by
  intro m i hreach hkind
  rw [h.kind] at hkind
  exact hheight m i (h.reaches hreach) hkind

/-- A name that is gone stays gone. -/
theorem gone (h : Prunes fs fs') {name : Bytes} (hgone : name ∉ (fs.inodes d).entries.map Prod.fst) :
    name ∉ (fs'.inodes d).entries.map Prod.fst :=
  fun hmem => hgone (((h.sublist d).map Prod.fst).subset hmem)

end Prunes

theorem Height.child {fs : FileSystem} {d c n : Nat} (h : Height fs d (n + 1)) (hentry : Entry fs d c) :
    Height fs c n :=
  fun m i hreach hkind => Nat.le_of_succ_le_succ (h (m + 1) i (.step hentry hreach) hkind)

/-- Below a directory that is a leaf there is none. -/
theorem Height.not_directory {fs : FileSystem} {d c : Nat} (h : Height fs d 0) (hentry : Entry fs d c) :
    (fs.inodes c).kind ≠ .directory :=
  fun hkind => absurd (h 1 c (.step hentry (.here c)) hkind) (by decide)

theorem gone_remove (fs : FileSystem) (d : Nat) (name : Bytes) :
    name ∉ ((fs.remove d name).inodes d).entries.map Prod.fst := by
  intro hmem
  obtain ⟨entry, hentry, heq⟩ := List.mem_map.mp hmem
  have hinode : (fs.remove d name).inodes d = { fs.inodes d with entries := (fs.inodes d).entries.filter (·.1 ≠ name) } :=
    if_pos rfl
  rw [hinode] at hentry
  exact absurd heq (of_decide_eq_true (List.mem_filter.mp hentry).2)

end Trees

section Start

/-- Where a clean-up starts: the names that its descriptor was opened by, and its path. -/
structure Start where
  strerror : Int → Bytes
  names : List Bytes
  path : Bytes

namespace Start

variable {start : Start} {names : List Bytes} {path : Bytes} {depth : Nat} {calls more : List Call}

/-- The path of what the names lead to. -/
def pathOf (start : Start) (names : List Bytes) : Bytes :=
  start.path ++ (names.drop start.names.length).flatMap (utf8 "/" ++ ·)

def depthOf (start : Start) (names : List Bytes) : Nat := names.length - start.names.length

/-- The error that an answer is, if it is one. That an entry is not there is none, and neither is the end of a stream; a
directory below the last level is one. -/
def failure (start : Start) : Call → Option Error
  | .opened place name (.error e) =>
    if name = utf8 "." then
      some (callError start.strerror "Failed to open temporary directory for cleanup at " (start.pathOf place.names) e)
    else
      some (callError start.strerror "Failed to open temporary directory entry "
        (start.pathOf (place.names ++ [name])) e)
  | .listed place (.error e) =>
    some (callError start.strerror "Failed to enumerate temporary directory " (start.pathOf place.names) e)
  | .read place (.error e) =>
    if e = 0 then none
    else some (callError start.strerror "Failed to enumerate temporary directory " (start.pathOf place.names) e)
  | .inspected place name (.error e) =>
    if e = ENOENT then none
    else
      some (callError start.strerror "Failed to inspect temporary directory entry "
        (start.pathOf (place.names ++ [name])) e)
  | .inspected place name (.ok status) =>
    if status.kind = .directory ∧ maxTemporaryDirectoryDepth ≤ start.depthOf place.names then
      some (tooDeep (start.pathOf (place.names ++ [name])))
    else none
  | .unlinked place name _ (.error e) =>
    if e = ENOENT then none
    else
      some (callError start.strerror "Failed to remove temporary directory entry "
        (start.pathOf (place.names ++ [name])) e)
  | _ => none

/-- The errors of the calls, in turn. -/
def errors (start : Start) (calls : List Call) : List Error := calls.filterMap start.failure

/-- What else is called once a call has its answer, whatever fails besides. A directory that is opened for its names is
listed, and unless that or a `readdir` fails all its entries are inspected; one that is no directory is removed, and one
that is, unless it is too deep or cannot be opened, is cleaned up and removed. -/
def Due (start : Start) (calls : List Call) : Call → Prop
  | .opened place name (.ok scan) => name = utf8 "." →
    (∃ e, .listed ⟨scan, place.names⟩ (.error e) ∈ calls) ∨
      ∃ entries, .listed ⟨scan, place.names⟩ (.ok entries) ∈ calls ∧
        ((∃ e, .read ⟨scan, place.names⟩ (.error e) ∈ calls) ∨
          ∀ entry ∈ entries, ¬ IsDots entry → ∃ answer, .inspected place entry answer ∈ calls)
  | .inspected place name (.ok status) =>
    if status.kind ≠ .directory then ∃ answer, .unlinked place name false answer ∈ calls
    else start.depthOf place.names < maxTemporaryDirectoryDepth →
      (∃ e, .opened place name (.error e) ∈ calls) ∨
        ∃ child, .opened place name (.ok child) ∈ calls ∧
          (∃ answer, .opened ⟨child, place.names ++ [name]⟩ (utf8 ".") answer ∈ calls) ∧
            ∃ answer, .unlinked place name true answer ∈ calls
  | _ => True

def Complete (start : Start) (calls : List Call) : Prop := ∀ call ∈ calls, start.Due calls call

/-- Names lead to a path, so many levels below the start. -/
structure Leads (start : Start) (names : List Bytes) (path : Bytes) (depth : Nat) : Prop where
  path : start.pathOf names = path
  depth : start.depthOf names = depth
  long : start.names.length ≤ names.length

theorem leads_start (start : Start) : start.Leads start.names start.path 0 := by
  refine ⟨?_, Nat.sub_self _, le_rfl⟩
  rw [pathOf, List.drop_length, List.flatMap_nil, List.append_nil]

theorem Leads.child (h : start.Leads names path depth) (name : Bytes) :
    start.Leads (names ++ [name]) (path ++ utf8 "/" ++ name) (depth + 1) := by
  refine ⟨?_, ?_, ?_⟩
  · rw [pathOf, List.drop_append_of_le_length h.long, List.flatMap_append, List.flatMap_singleton, ← List.append_assoc,
      ← List.append_assoc, ← pathOf, h.path]
  · rw [← h.depth, depthOf, depthOf, List.length_append, List.length_singleton, Nat.sub_add_comm h.long]
  · rw [List.length_append]
    exact h.long.trans (Nat.le_add_right _ _)

theorem Due.mono {call : Call} (h : start.Due calls call) (hsub : calls ⊆ more) : start.Due more call := by
  unfold Due at h ⊢
  split at h
  · intro hdot
    rcases h hdot with ⟨e, hlisted⟩ | ⟨entries, hlisted, hread⟩
    · exact .inl ⟨e, hsub hlisted⟩
    · refine .inr ⟨entries, hsub hlisted, ?_⟩
      rcases hread with ⟨e, hread⟩ | hall
      · exact .inl ⟨e, hsub hread⟩
      · refine .inr fun entry hentry hdots => ?_
        obtain ⟨answer, hinspected⟩ := hall entry hentry hdots
        exact ⟨answer, hsub hinspected⟩
  · split_ifs at h ⊢ with hkind
    · obtain ⟨answer, hunlinked⟩ := h
      exact ⟨answer, hsub hunlinked⟩
    · intro hdepth
      rcases h hdepth with ⟨e, hopened⟩ | ⟨child, hopened, ⟨answer, hcleaned⟩, answer', hunlinked⟩
      · exact .inl ⟨e, hsub hopened⟩
      · exact .inr ⟨child, hsub hopened, ⟨answer, hsub hcleaned⟩, answer', hsub hunlinked⟩
  · trivial

theorem Complete.nil : start.Complete [] := by
  intro call hcall
  cases hcall

theorem Complete.append (h : start.Complete calls) (hmore : start.Complete more) : start.Complete (calls ++ more) := by
  intro call hcall
  rcases List.mem_append.mp hcall with hcall | hcall
  · exact (h call hcall).mono (List.subset_append_left _ _)
  · exact (hmore call hcall).mono (List.subset_append_right _ _)

/-- What is due for the first call is among the others. -/
theorem Complete.cons {call : Call} (h : start.Complete calls) (hdue : start.Due calls call) :
    start.Complete (call :: calls) := by
  intro other hother
  rcases List.mem_cons.mp hother with rfl | hother
  · exact hdue.mono (List.subset_cons_self _ _)
  · exact (h other hother).mono (List.subset_cons_self _ _)

end Start

end Start

section Keeps

private theorem modify_length_append {α : Type} (f : α → α) (xs : List α) (x : α) (ys : List α) :
    (xs ++ x :: ys).modify xs.length f = xs ++ f x :: ys := by
  induction xs with
  | nil => rfl
  | cons a xs ih => exact congrArg (a :: ·) ih

theorem turn_suffix (w : World) : w.turn.script.IsSuffix w.script := List.tail_suffix _

def World.opened (w : World) (i : Nat) (names : List Bytes) : World :=
  { w with descriptors := w.descriptors ++ [{ inode := i, names }] }

def World.closed (w : World) (fd : Nat) : World :=
  { w.turn with descriptors := w.descriptors.modify fd fun o => { o with closes := o.closes + 1 } }

/-- Between two states of the world, only what is below a directory was changed, and at most `n` levels below it were
opened; `calls` are what was called. -/
structure Keeps (d n : Nat) (w : World) (calls : List Call) (w' : World) : Prop where
  prunes : Prunes w.fs w'.fs
  outside : ∀ i, ¬ Below w.fs d i → w'.fs.inodes i = w.fs.inodes i
  opened : ∃ opened, w'.descriptors = w.descriptors ++ opened ∧ ∀ o ∈ opened,
    o.closes = 1 ∧ (w.fs.inodes o.inode).kind = .directory ∧ ∃ m ≤ n, Reaches w.fs m d o.inode
  calls : w'.calls = w.calls ++ calls
  script : w'.script.IsSuffix w.script

namespace Keeps

variable {d c i fd m n : Nat} {w w' w'' : World} {calls more : List Call} {names : List Bytes}

/-- Neither the files nor the descriptors have changed. -/
theorem of_same (hfs : w'.fs = w.fs) (hdescriptors : w'.descriptors = w.descriptors)
    (hcalls : w'.calls = w.calls ++ calls) (hscript : w'.script.IsSuffix w.script) : Keeps d n w calls w' := by
  refine ⟨by rw [hfs]; exact .refl _, fun i _ => by rw [hfs], ⟨[], ?_, ?_⟩, hcalls, hscript⟩
  · rw [hdescriptors, List.append_nil]
  · intro o ho
    cases ho

theorem trans (h : Keeps d n w calls w') (h' : Keeps d n w' more w'') : Keeps d n w (calls ++ more) w'' := by
  refine ⟨h.prunes.trans h'.prunes, fun i hi => ?_, ?_, ?_, h'.script.trans h.script⟩
  · rw [h'.outside i fun hbelow => hi (h.prunes.below hbelow), h.outside i hi]
  · obtain ⟨opened, hdescriptors, hopened⟩ := h.opened
    obtain ⟨opened', hdescriptors', hopened'⟩ := h'.opened
    refine ⟨opened ++ opened', by rw [hdescriptors', hdescriptors, List.append_assoc], fun o ho => ?_⟩
    rcases List.mem_append.mp ho with ho | ho
    · exact hopened o ho
    · obtain ⟨hclosed, hkind, m, hle, hreach⟩ := hopened' o ho
      rw [h.prunes.kind] at hkind
      exact ⟨hclosed, hkind, m, hle, h.prunes.reaches hreach⟩
  · rw [h'.calls, h.calls, List.append_assoc]

/-- What is below an entry is below the directory, by one level more. -/
theorem child (h : Keeps c n w calls w') (hentry : Entry w.fs d c) : Keeps d (n + 1) w calls w' := by
  refine ⟨h.prunes, fun i hi => h.outside i ?_, ?_, h.calls, h.script⟩
  · rintro ⟨m, hreach⟩
    exact hi ⟨m + 1, .step hentry hreach⟩
  · obtain ⟨opened, hdescriptors, hopened⟩ := h.opened
    refine ⟨opened, hdescriptors, fun o ho => ?_⟩
    obtain ⟨hclosed, hkind, m, hle, hreach⟩ := hopened o ho
    exact ⟨hclosed, hkind, m + 1, Nat.succ_le_succ hle, .step hentry hreach⟩

/-- A descriptor is opened before and closed after. -/
theorem bracket (h : Keeps d n (w.opened i names) calls w') (hkind : (w.fs.inodes i).kind = .directory)
    (hreach : Reaches w.fs m d i) (hle : m ≤ n) : Keeps d n w calls (w'.closed w.descriptors.length) := by
  obtain ⟨opened, hbefore, hopened⟩ := h.opened
  refine ⟨h.prunes, h.outside, ⟨{ inode := i, names, closes := 1 } :: opened, ?_, fun o ho => ?_⟩, h.calls,
    (turn_suffix w').trans h.script⟩
  · rw [World.closed, hbefore, World.opened, List.append_assoc]
    exact modify_length_append _ _ _ _
  · rcases List.mem_cons.mp ho with rfl | ho
    · exact ⟨rfl, hkind, m, hle, hreach⟩
    · exact hopened o ho

/-- A descriptor that was there is as it was. -/
theorem descriptor (h : Keeps d n w calls w') {o : Descriptor} (hfd : w.descriptors[fd]? = some o) :
    w'.descriptors[fd]? = some o := by
  obtain ⟨opened, hdescriptors, -⟩ := h.opened
  have hlt := (List.getElem?_eq_some_iff.mp hfd).1
  rw [hdescriptors, List.getElem?_append_left hlt, hfd]

theorem record (w : World) (call : Call) : Keeps d n w [call] (w.turn.record call) :=
  .of_same rfl rfl rfl (turn_suffix w)

end Keeps

end Keeps

section Calls

variable {α : Type} {w : World} {directory d : Nat} {names : List Bytes}

/-- No call fails. -/
def Calm (w : World) : Prop := ∀ e, Outcome.fail e ∉ w.script

theorem Calm.suffix {w' : World} (h : Calm w) (hsuffix : w'.script.IsSuffix w.script) : Calm w' :=
  fun e he => h e (hsuffix.subset he)

theorem attempt_run (fd : Nat) (call : Place → Except Int α → Call) (effect : World → Except Int α × World)
    (w : World) :
    (∃ e, ¬ Calm w ∧ attempt fd call effect w = .ok (.error e) (w.turn.record (call (w.place fd) (.error e)))) ∨
      attempt fd call effect w =
        .ok (effect w.turn).1 ((effect w.turn).2.record (call (w.place fd) (effect w.turn).1)) := by
  unfold attempt takeTurn
  cases hscript : w.script with
  | nil => exact .inr rfl
  | cons outcome script =>
    rw [List.head?_cons, Option.getD_some]
    cases outcome with
    | fail e =>
      refine .inl ⟨e, fun hcalm => hcalm e ?_, rfl⟩
      rw [hscript]
      exact List.mem_cons_self
    | proceed => exact .inr rfl
    | short n => exact .inr rfl

/-- A descriptor that is open stands for a directory that is there to be used. -/
structure Opens (w : World) (directory d : Nat) (names : List Bytes) : Prop where
  descriptor : w.descriptors[directory]? = some { inode := d, names }
  kind : (w.fs.inodes d).kind = .directory

namespace Opens

theorem turn (h : Opens w directory d names) : Opens w.turn directory d names := ⟨h.descriptor, h.kind⟩

theorem record (h : Opens w directory d names) (call : Call) : Opens (w.record call) directory d names :=
  ⟨h.descriptor, h.kind⟩

theorem keeps {w' : World} {c n : Nat} {calls : List Call} (h : Opens w directory d names)
    (hkeeps : Keeps c n w calls w') : Opens w' directory d names :=
  ⟨hkeeps.descriptor h.descriptor, by rw [hkeeps.prunes.kind]; exact h.kind⟩

theorem inode (h : Opens w directory d names) : w.inode? directory = some d := by
  rw [World.inode?, h.descriptor]
  rfl

theorem place (h : Opens w directory d names) : w.place directory = ⟨directory, names⟩ := by
  rw [World.place, h.descriptor]
  rfl

theorem lookup_dot (h : Opens w directory d names) : w.lookup directory (utf8 ".") = .ok (d, d) := by
  unfold World.lookup
  rw [h.inode]
  dsimp only
  rw [if_neg (not_not.mpr h.kind), if_pos rfl]

/-- A name is found as an entry of the directory, or it is not there. -/
theorem lookup {name : Bytes} (h : Opens w directory d names) (hdots : ¬ IsDots name) :
    (w.lookup directory name = .error ENOENT ∧ name ∉ (w.fs.inodes d).entries.map Prod.fst) ∨
      ∃ i, w.lookup directory name = .ok (d, i) ∧ (name, i) ∈ (w.fs.inodes d).entries := by
  unfold World.lookup
  rw [h.inode]
  dsimp only
  rw [if_neg (not_not.mpr h.kind), if_neg fun hdot => hdots (.inl hdot)]
  cases hfind : (w.fs.inodes d).entries.find? (·.1 = name) with
  | none =>
    refine .inl ⟨rfl, fun hmem => ?_⟩
    obtain ⟨entry, hentry, heq⟩ := List.mem_map.mp hmem
    exact absurd (decide_eq_true heq) (List.find?_eq_none.mp hfind entry hentry)
  | some entry =>
    have heq := of_decide_eq_true (List.find?_some (p := fun x : Bytes × Nat => x.1 = name) hfind)
    exact .inr ⟨entry.2, rfl, heq ▸ List.mem_of_find?_eq_some hfind⟩

theorem lookup_eq {w' : World} {c n i : Nat} {calls : List Call} {name : Bytes} (h : Opens w directory d names)
    (hkeeps : Keeps c n w calls w') (hdots : ¬ IsDots name) (hlookup : w'.lookup directory name = .ok (d, i)) :
    w.lookup directory name = .ok (d, i) := by
  unfold World.lookup at hlookup ⊢
  rw [(h.keeps hkeeps).inode] at hlookup
  rw [h.inode]
  dsimp only at hlookup ⊢
  rw [if_neg (not_not.mpr (h.keeps hkeeps).kind), if_neg fun hdot => hdots (.inl hdot)] at hlookup
  rw [if_neg (not_not.mpr h.kind), if_neg fun hdot => hdots (.inl hdot)]
  cases hfind : (w'.fs.inodes d).entries.find? (·.1 = name) with
  | none =>
    rw [hfind] at hlookup
    cases hlookup
  | some entry =>
    rw [hfind] at hlookup
    rw [hkeeps.prunes.find hfind]
    exact hlookup

/-- A descriptor that is new stands for the inode it was opened for. -/
theorem of_opened (w : World) {i : Nat} (hkind : (w.fs.inodes i).kind = .directory) (names : List Bytes) :
    Opens (w.opened i names) w.descriptors.length i names :=
  ⟨List.getElem?_concat_length, hkind⟩

theorem opened (h : Opens w directory d names) (i : Nat) (others : List Bytes) :
    Opens (w.opened i others) directory d names := by
  refine ⟨?_, h.kind⟩
  have hlt := (List.getElem?_eq_some_iff.mp h.descriptor).1
  rw [World.opened, List.getElem?_append_left hlt, h.descriptor]

end Opens

theorem close_run (fd : Nat) (w : World) : ∃ r, close fd w = .ok r (w.closed fd) := by
  unfold close takeTurn World.closed
  cases w.script.head?.getD .proceed with
  | fail e => exact ⟨_, rfl⟩
  | proceed =>
    dsimp only
    split <;> exact ⟨_, rfl⟩
  | short n =>
    dsimp only
    split <;> exact ⟨_, rfl⟩

/-- What an entry is removed as is what it is. -/
def Suits (w : World) (i : Nat) (removeDirectory : Bool) : Prop :=
  if removeDirectory then (w.fs.inodes i).kind = .directory ∧ (w.fs.inodes i).Empty else (w.fs.inodes i).kind ≠ .directory

/-- An entry can be removed. -/
def Removable (w : World) (directory d : Nat) (name : Bytes) (removeDirectory : Bool) : Prop :=
  ∀ i, w.lookup directory name = .ok (d, i) → Suits w i removeDirectory

variable {name : Bytes}

theorem unlinkat_run (h : Opens w directory d names) (hdots : ¬ IsDots name) (removeDirectory : Bool) :
    (∃ status, unlinkat directory name removeDirectory w =
        .ok (.error status) (w.turn.record (.unlinked ⟨directory, names⟩ name removeDirectory (.error status))) ∧
        (Calm w → Removable w directory d name removeDirectory →
          status = ENOENT ∧ name ∉ (w.fs.inodes d).entries.map Prod.fst)) ∨
      unlinkat directory name removeDirectory w = .ok (.ok ())
        ({ w.turn with fs := w.fs.remove d name }.record
          (.unlinked ⟨directory, names⟩ name removeDirectory (.ok ()))) := by
  have hdot : name ≠ utf8 "." := fun hdot => hdots (.inl hdot)
  unfold unlinkat
  rcases attempt_run directory (Call.unlinked · name removeDirectory) _ w with ⟨e, hcalm, hcall⟩ | hcall
  · rw [h.place] at hcall
    exact .inl ⟨e, hcall, fun hc => absurd hc hcalm⟩
  rw [hcall, h.place]
  simp only [if_neg hdot]
  rcases h.turn.lookup hdots with ⟨hlookup, hgone⟩ | ⟨i, hlookup, -⟩
  · rw [hlookup]
    exact .inl ⟨ENOENT, rfl, fun _ _ => ⟨rfl, hgone⟩⟩
  rw [hlookup]
  dsimp only
  have unsuited (status : Int) (hsuits : ¬ Suits w i removeDirectory) (_ : Calm w)
      (hremovable : Removable w directory d name removeDirectory) :
      status = ENOENT ∧ name ∉ (w.fs.inodes d).entries.map Prod.fst := absurd (hremovable i hlookup) hsuits
  cases removeDirectory with
  | true =>
    rw [if_pos rfl]
    by_cases hkind : (w.turn.fs.inodes i).kind = .directory
    · by_cases hempty : (w.turn.fs.inodes i).Empty
      · rw [if_neg (not_not.mpr hkind), if_neg (not_not.mpr hempty)]
        exact .inr rfl
      · rw [if_neg (not_not.mpr hkind), if_pos hempty]
        exact .inl ⟨ENOTEMPTY, rfl, unsuited _ fun hsuits => hempty hsuits.2⟩
    · rw [if_pos hkind]
      exact .inl ⟨ENOTDIR, rfl, unsuited _ fun hsuits => hkind hsuits.1⟩
  | false =>
    rw [if_neg Bool.false_ne_true]
    by_cases hkind : (w.turn.fs.inodes i).kind = .directory
    · rw [if_pos hkind]
      exact .inl ⟨EISDIR, rfl, unsuited _ fun hsuits => hsuits hkind⟩
    · rw [if_neg hkind]
      exact .inr rfl

theorem fstatat_run (h : Opens w directory d names) (hdots : ¬ IsDots name) :
    (∃ status, fstatat directory name w =
        .ok (.error status) (w.turn.record (.inspected ⟨directory, names⟩ name (.error status))) ∧
        (Calm w → status = ENOENT ∧ name ∉ (w.fs.inodes d).entries.map Prod.fst)) ∨
      ∃ i, w.lookup directory name = .ok (d, i) ∧ Entry w.fs d i ∧
        fstatat directory name w = .ok (.ok (stat i (w.fs.inodes i)))
          (w.turn.record (.inspected ⟨directory, names⟩ name (.ok (stat i (w.fs.inodes i))))) := by
  unfold fstatat
  rcases attempt_run directory (Call.inspected · name) _ w with ⟨e, hcalm, hcall⟩ | hcall
  · rw [h.place] at hcall
    exact .inl ⟨e, hcall, fun hc => absurd hc hcalm⟩
  rw [hcall, h.place]
  rcases h.turn.lookup hdots with ⟨hlookup, hgone⟩ | ⟨i, hlookup, hentry⟩
  · rw [hlookup]
    exact .inl ⟨ENOENT, rfl, fun _ => ⟨rfl, hgone⟩⟩
  · rw [hlookup]
    exact .inr ⟨i, hlookup, ⟨name, hdots, hentry⟩, rfl⟩

/-- A name that stands for a directory is opened, under the names of the descriptor and, but for `.`, its own. -/
theorem openat_run {i : Nat} (h : Opens w directory d names) (hlookup : w.lookup directory name = .ok (d, i))
    (hkind : (w.fs.inodes i).kind = .directory) :
    (∃ e, ¬ Calm w ∧ openat directory name true w =
        .ok (.error e) (w.turn.record (.opened ⟨directory, names⟩ name (.error e)))) ∨
      openat directory name true w = .ok (.ok w.descriptors.length)
        ((w.turn.record (.opened ⟨directory, names⟩ name (.ok w.descriptors.length))).opened i
          (names ++ if name = utf8 "." then [] else [name])) := by
  unfold openat
  rcases attempt_run directory (Call.opened · name) _ w with ⟨e, hcalm, hcall⟩ | hcall
  · rw [h.place] at hcall
    exact .inl ⟨e, hcalm, hcall⟩
  right
  have hsame : w.turn.lookup directory name = .ok (d, i) := hlookup
  have hdirectory : (w.turn.fs.inodes i).kind = .directory := hkind
  rw [hcall, h.place, hsame]
  dsimp only
  rw [h.turn.place, if_neg (by rw [hdirectory]; simp), openDirectory, if_pos hdirectory]
  rfl

theorem fdopendir_run (h : Opens w directory d names) :
    (∃ e, ¬ Calm w ∧ fdopendir directory w = .ok (.error e) (w.turn.record (.listed ⟨directory, names⟩ (.error e)))) ∨
      fdopendir directory w = .ok (.ok ((w.fs.inodes d).entries.map Prod.fst))
        (w.turn.record (.listed ⟨directory, names⟩ (.ok ((w.fs.inodes d).entries.map Prod.fst)))) := by
  unfold fdopendir
  rcases attempt_run directory Call.listed _ w with ⟨e, hcalm, hcall⟩ | hcall
  · rw [h.place] at hcall
    exact .inl ⟨e, hcalm, hcall⟩
  · rw [hcall, h.place, h.turn.inode]
    exact .inr rfl

theorem readdir_run (h : Opens w directory d names) (left : List Bytes) :
    (∃ e, ¬ Calm w ∧ readdir directory left w = .ok (.error e) (w.turn.record (.read ⟨directory, names⟩ (.error e)))) ∨
      readdir directory left w = .ok (.ok left.head?) (w.turn.record (.read ⟨directory, names⟩ (.ok left.head?))) := by
  unfold readdir
  rcases attempt_run directory Call.read _ w with ⟨e, hcalm, hcall⟩ | hcall
  · rw [h.place] at hcall
    exact .inl ⟨e, hcalm, hcall⟩
  · rw [hcall, h.place]
    exact .inr rfl

end Calls

section Removal

/-- The result of a loop that keeps the first error. -/
def keepAll : Except Error Unit → List Error → Except Error Unit
  | .error e, _ => .error e
  | .ok _, [] => .ok ()
  | .ok _, e :: _ => .error e

@[simp] theorem keepAll_nil (result : Except Error Unit) : keepAll result [] = result := by
  cases result <;> rfl

theorem keepAll_append (result : Except Error Unit) (errors more : List Error) :
    keepAll (keepAll result errors) more = keepAll result (errors ++ more) := by
  cases result with
  | error e => rfl
  | ok _ => cases errors <;> rfl

theorem keepFirst_eq (result : Except Error Unit) (e : Error) : keepFirst result e = keepAll result [e] := by
  cases result <;> rfl

theorem keepNested_eq (result : Except Error Unit) (errors : List Error) :
    keepNested result (keepAll (.ok ()) errors) = keepAll result errors := by
  cases result with
  | error e => rfl
  | ok _ => cases errors <;> rfl

variable {start : Start} {w w' : World} {directory d n depth : Nat} {names : List Bytes} {path name entryPath : Bytes}
  {result : Except Error Unit} {Clear Clear' : Prop} {gone gone' : Bytes → Prop} {Asks Asks' : List Call → Prop}
  {outcome : EStateM.Result Error World (Except Error Unit)}

/-- What a part of the clean-up does. `Clear` is when nothing goes wrong in it, `gone` are the names that are not in
the directory then. -/
structure Part (start : Start) (d n : Nat) (Clear : Prop) (gone : Bytes → Prop) (w : World) (calls : List Call)
    (w' : World) : Prop where
  keeps : Keeps d n w calls w'
  complete : start.Complete calls
  clears : Clear → start.errors calls = [] ∧ ∀ name, gone name → name ∉ (w'.fs.inodes d).entries.map Prod.fst

/-- A part ends, with the first of the errors of its calls, which are as they are asked to be. -/
def Runs (start : Start) (d n : Nat) (Clear : Prop) (gone : Bytes → Prop) (result : Except Error Unit)
    (Asks : List Call → Prop) (w : World) (outcome : EStateM.Result Error World (Except Error Unit)) : Prop :=
  ∃ calls w', outcome = .ok (keepAll result (start.errors calls)) w' ∧ Part start d n Clear gone w calls w' ∧ Asks calls

theorem errors_cons (call : Call) (calls : List Call) :
    start.errors (call :: calls) = (start.failure call).toList ++ start.errors calls := by
  rw [Start.errors, List.filterMap_cons]
  cases start.failure call <;> rfl

theorem errors_append (calls more : List Call) :
    start.errors (calls ++ more) = start.errors calls ++ start.errors more :=
  List.filterMap_append

/-- A call whose answer is an error ends a part. -/
theorem Runs.failed {call : Call} {e : Error} (hfailure : start.failure call = some e) (hclear : ¬ Clear)
    (hdue : start.Due [] call) (hasks : Asks [call]) :
    Runs start d n Clear gone result Asks w (.ok (keepFirst result e) (w.turn.record call)) := by
  refine ⟨[call], w.turn.record call, ?_,
    ⟨.record w call, Start.Complete.nil.cons hdue, fun hc => absurd hc hclear⟩, hasks⟩
  rw [keepFirst_eq, errors_cons, hfailure]
  rfl

/-- A call after which there is nothing to do. -/
theorem Runs.done {call : Call} (hnone : start.failure call = none) (hdue : start.Due [] call)
    (hgone : Clear → ∀ name, gone name → name ∉ (w.fs.inodes d).entries.map Prod.fst) (hasks : Asks [call]) :
    Runs start d n Clear gone result Asks w (.ok result (w.turn.record call)) := by
  have herrors : start.errors [call] = [] := by
    rw [errors_cons, hnone]
    rfl
  refine ⟨[call], w.turn.record call, ?_,
    ⟨.record w call, Start.Complete.nil.cons hdue, fun hc => ⟨herrors, hgone hc⟩⟩, hasks⟩
  rw [herrors, keepAll_nil]

/-- A call that is no error, and what is done after it. -/
theorem Runs.cons {call : Call} (hnone : start.failure call = none)
    (hrest : Runs start d n Clear' gone' result Asks' (w.turn.record call) outcome) (hclear : Clear → Clear')
    (hgone : ∀ name, gone name → gone' name) (hdue : ∀ calls, Asks' calls → start.Due calls call)
    (hasks : ∀ calls, Asks' calls → Asks (call :: calls)) : Runs start d n Clear gone result Asks w outcome := by
  obtain ⟨calls, w', hrest, hpart, hcalls⟩ := hrest
  have herrors : start.errors (call :: calls) = start.errors calls := by
    rw [errors_cons, hnone]
    rfl
  refine ⟨call :: calls, w', ?_, ⟨(Keeps.record w call).trans hpart.keeps, hpart.complete.cons (hdue calls hcalls),
    fun hc => ?_⟩, hasks calls hcalls⟩
  · rw [hrest, herrors]
  · rw [herrors]
    exact (hpart.clears (hclear hc)).imp_right fun hall name hname => hall name (hgone name hname)

/-- Where an entry is removed from is the directory itself. -/
theorem Keeps.remove (w : World) (name : Bytes) (call : Call) :
    Keeps d n w [call] ({ w.turn with fs := w.fs.remove d name }.record call) := by
  refine ⟨.remove _ _ _, fun i hi => ?_, ⟨[], (List.append_nil _).symm, fun o ho => absurd ho List.not_mem_nil⟩, rfl,
    turn_suffix w⟩
  refine if_neg fun heq : i = d => hi ?_
  rw [heq]
  exact ⟨0, .here d⟩

theorem unlinkEntry_run (h : Opens w directory d names) (hleads : start.Leads names path depth) (hdots : ¬ IsDots name)
    (removeDirectory : Bool) :
    Runs start d n (Calm w ∧ Removable w directory d name removeDirectory) (· = name) result
      (fun calls => ∃ answer, .unlinked ⟨directory, names⟩ name removeDirectory answer ∈ calls) w
      (unlinkEntry start.strerror directory name (path ++ utf8 "/" ++ name) removeDirectory result w) := by
  unfold unlinkEntry
  rcases unlinkat_run h hdots removeDirectory with ⟨status, hcall, hclear⟩ | hcall
  · rw [bind_run_ok _ hcall]
    dsimp only
    by_cases hnone : status = ENOENT
    · rw [if_pos hnone]
      refine .done (if_pos hnone) trivial ?_ ⟨_, List.mem_cons_self⟩
      rintro hc _ rfl
      exact (hclear hc.1 hc.2).2
    · rw [if_neg hnone]
      refine .failed ?_ (fun hc => hnone (hclear hc.1 hc.2).1) trivial ⟨_, List.mem_cons_self⟩
      rw [Start.failure, if_neg hnone, (hleads.child name).path]
  · rw [bind_run_ok _ hcall]
    refine ⟨[.unlinked ⟨directory, names⟩ name removeDirectory (.ok ())], _, ?_, ⟨Keeps.remove w name _,
      Start.Complete.nil.cons trivial, fun _ => ⟨rfl, ?_⟩⟩, _, List.mem_cons_self⟩
    · have herrors : start.errors [.unlinked ⟨directory, names⟩ name removeDirectory (.ok ())] = [] := rfl
      rw [herrors, keepAll_nil]
      rfl
    · rintro _ rfl
      exact gone_remove w.fs d _

/-- What a nested clean-up does, and to which directories it is applied. -/
def CleansBelow (start : Start) (removeContents : Nat → Bytes → SysM (Except Error Unit)) (depth n : Nat) : Prop :=
  ∀ (w : World) (directory d : Nat) (names : List Bytes) (path : Bytes), Opens w directory d names →
    start.Leads names path depth →
      Runs start d n (Calm w ∧ Height w.fs d n) (¬ IsDots ·) (.ok ())
        (fun calls => ∃ answer, .opened ⟨directory, names⟩ (utf8 ".") answer ∈ calls) w
        (removeContents directory path w)

/-- A directory that was opened is removed with its contents. -/
theorem removeChild_run {removeContents : Nat → Bytes → SysM (Except Error Unit)} {i : Nat}
    (hremove : CleansBelow start removeContents (depth + 1) n) (h : Opens w directory d names)
    (hleads : start.Leads names path depth) (hdots : ¬ IsDots name) (hlookup : w.lookup directory name = .ok (d, i))
    (hentry : Entry w.fs d i) (hkind : (w.fs.inodes i).kind = .directory) :
    Runs start d (n + 1) (Calm w ∧ Height w.fs d (n + 1)) (· = name) result
      (fun calls => (∃ answer, .opened ⟨w.descriptors.length, names ++ [name]⟩ (utf8 ".") answer ∈ calls) ∧
        ∃ answer, .unlinked ⟨directory, names⟩ name true answer ∈ calls) w
      (removeChild start.strerror removeContents directory name (path ++ utf8 "/" ++ name) result w.descriptors.length
        (w.opened i (names ++ [name]))) := by
  obtain ⟨calls, w₁, hrun, hpart, hstarted⟩ :=
    hremove _ _ _ _ _ (.of_opened w hkind (names ++ [name])) (hleads.child name)
  obtain ⟨r, hclose⟩ := close_run w.descriptors.length w₁
  have hkeeps := (hpart.keeps.bracket hkind (.here i) (Nat.zero_le n)).child hentry
  obtain ⟨more, w₂, hunlink, hlast, hunlinked⟩ := @unlinkEntry_run start _ _ _ (n + 1) _ _ _ _
    (keepAll result (start.errors calls)) (h.keeps hkeeps) hleads hdots true
  refine ⟨calls ++ more, w₂, ?_, ⟨hkeeps.trans hlast.keeps, hpart.complete.append hlast.complete, ?_⟩, ?_, ?_⟩
  · rw [removeChild, bind_run_ok _ hrun, bind_run_ok _ hclose, keepNested_eq, hunlink, keepAll_append, errors_append]
  · rintro ⟨hcalm, hheight⟩
    obtain ⟨hnone, hgone⟩ := hpart.clears ⟨hcalm, hheight.child hentry⟩
    have hremovable : Removable (w₁.closed w.descriptors.length) directory d name true := by
      intro j hj
      have hsame := h.lookup_eq hkeeps hdots hj
      rw [hlookup] at hsame
      cases hsame
      refine ⟨(hpart.keeps.prunes.kind i).trans hkind, fun entry hmem => ?_⟩
      by_contra hdots
      exact hgone entry.1 hdots (List.mem_map_of_mem hmem)
    obtain ⟨hmore, hlast⟩ := hlast.clears ⟨hcalm.suffix hkeeps.script, hremovable⟩
    exact ⟨by rw [errors_append, hnone, hmore, List.append_nil], hlast⟩
  · obtain ⟨answer, hanswer⟩ := hstarted
    exact ⟨answer, List.mem_append_left _ hanswer⟩
  · obtain ⟨answer, hanswer⟩ := hunlinked
    exact ⟨answer, List.mem_append_right _ hanswer⟩

/-- What is called where a directory is removed: it cannot be opened, or it is cleaned up and unlinked. -/
def Descends (directory : Nat) (names : List Bytes) (name : Bytes) (calls : List Call) : Prop :=
  (∃ e, .opened ⟨directory, names⟩ name (.error e) ∈ calls) ∨
    ∃ child, .opened ⟨directory, names⟩ name (.ok child) ∈ calls ∧
      (∃ answer, .opened ⟨child, names ++ [name]⟩ (utf8 ".") answer ∈ calls) ∧
        ∃ answer, .unlinked ⟨directory, names⟩ name true answer ∈ calls

theorem removeDirectory_run {removeContents : Nat → Bytes → SysM (Except Error Unit)} {i : Nat}
    (hlevels : depth + (n + 1) = maxTemporaryDirectoryDepth) (hremove : CleansBelow start removeContents (depth + 1) n)
    (h : Opens w directory d names) (hleads : start.Leads names path depth) (hdots : ¬ IsDots name)
    (hlookup : w.lookup directory name = .ok (d, i)) (hentry : Entry w.fs d i)
    (hkind : (w.fs.inodes i).kind = .directory) :
    Runs start d (n + 1) (Calm w ∧ Height w.fs d (n + 1)) (· = name) result (Descends directory names name) w
      (removeDirectory start.strerror removeContents directory name (path ++ utf8 "/" ++ name) depth result w) := by
  have hdeep : ¬ maxTemporaryDirectoryDepth ≤ depth := by omega
  have hdot : name ≠ utf8 "." := fun hdot => hdots (.inl hdot)
  unfold removeDirectory
  rw [if_neg hdeep]
  rcases openat_run h hlookup hkind with ⟨e, hcalm, hcall⟩ | hcall
  · rw [bind_run_ok _ hcall]
    refine .failed ?_ (fun hc => hcalm hc.1) trivial (.inl ⟨e, List.mem_cons_self⟩)
    rw [Start.failure, if_neg hdot, (hleads.child name).path]
  · rw [bind_run_ok _ hcall, if_neg hdot]
    have hrest := @removeChild_run start _ _ _ _ _ _ _ _ result _ i hremove (h.turn.record
      (.opened ⟨directory, names⟩ name (.ok w.descriptors.length))) hleads hdots hlookup hentry hkind
    refine Runs.cons rfl hrest (fun hc => ⟨hc.1.suffix (turn_suffix w), hc.2⟩) (fun _ h => h) ?_ ?_
    · exact fun calls _ hdot' => absurd hdot' hdot
    · rintro calls ⟨⟨answer, hstarted⟩, answer', hunlinked⟩
      exact .inr ⟨_, List.mem_cons_self, ⟨answer, List.mem_cons_of_mem _ hstarted⟩, answer',
        List.mem_cons_of_mem _ hunlinked⟩

theorem removeEntry_run {removeContents : Nat → Bytes → SysM (Except Error Unit)}
    (hlevels : depth + n = maxTemporaryDirectoryDepth)
    (hremove : ∀ m, n = m + 1 → CleansBelow start removeContents (depth + 1) m)
    (h : Opens w directory d names) (hleads : start.Leads names path depth) (hdots : ¬ IsDots name) :
    Runs start d n (Calm w ∧ Height w.fs d n) (· = name) result
      (fun calls => ∃ answer, .inspected ⟨directory, names⟩ name answer ∈ calls) w
      (removeEntry start.strerror removeContents directory path depth name result w) := by
  unfold removeEntry
  rcases fstatat_run h hdots with ⟨status, hcall, hclear⟩ | ⟨i, hlookup, hentry, hcall⟩
  · rw [bind_run_ok _ hcall]
    dsimp only
    by_cases hnone : status = ENOENT
    · rw [if_pos hnone]
      refine .done (if_pos hnone) trivial ?_ ⟨_, List.mem_cons_self⟩
      rintro hc _ rfl
      exact (hclear hc.1).2
    · rw [if_neg hnone]
      refine .failed ?_ (fun hc => hnone (hclear hc.1).1) trivial ⟨_, List.mem_cons_self⟩
      rw [Start.failure, if_neg hnone, (hleads.child name).path]
  · rw [bind_run_ok _ hcall]
    dsimp only
    have hopens := h.turn.record (.inspected ⟨directory, names⟩ name (.ok (stat i (w.fs.inodes i))))
    by_cases hkind : (stat i (w.fs.inodes i)).kind = .directory
    · rw [if_pos hkind]
      cases n with
      | zero =>
        -- what is below the last level stays
        have hdeep : maxTemporaryDirectoryDepth ≤ depth := hlevels.ge
        rw [removeDirectory, if_pos hdeep]
        refine .failed ?_ (fun hc => hc.2.not_directory hentry hkind) ?_ ⟨_, List.mem_cons_self⟩
        · simp only [Start.failure, hleads.depth, if_pos (And.intro hkind hdeep), (hleads.child name).path]
        · simp only [Start.Due, if_neg (not_not.mpr hkind), hleads.depth]
          exact fun hlt => absurd hlt (Nat.not_lt.mpr hdeep)
      | succ n =>
        have hdeep : ¬ maxTemporaryDirectoryDepth ≤ depth := by omega
        have hrest := @removeDirectory_run start _ _ _ _ _ _ _ _ result _ i hlevels (hremove n rfl) hopens hleads hdots
          hlookup hentry hkind
        refine Runs.cons ?_ hrest (fun hc => ⟨hc.1.suffix (turn_suffix w), hc.2⟩) (fun _ h => h) (fun calls hasks => ?_)
          fun calls _ => ⟨_, List.mem_cons_self⟩
        · simp only [Start.failure, hleads.depth]
          exact if_neg fun hand => hdeep hand.2
        · rw [Start.Due, if_neg (not_not.mpr hkind)]
          exact fun _ => hasks
    · rw [if_neg hkind]
      have hrest := @unlinkEntry_run start _ _ _ n _ _ _ _ result hopens hleads hdots false
      refine Runs.cons ?_ hrest (fun hc => ⟨hc.1.suffix (turn_suffix w), fun j hj => ?_⟩) (fun _ h => h)
        (fun calls hasks => ?_) fun calls _ => ⟨_, List.mem_cons_self⟩
      · rw [Start.failure, if_neg fun hand => hkind hand.1]
      · have hsame : w.lookup directory name = .ok (d, j) := hj
        rw [hlookup] at hsame
        cases hsame
        exact hkind
      · rw [Start.Due, if_pos hkind]
        exact hasks

/-- What every turn of the loop does. -/
def CleansEntry (start : Start) (turn : Bytes → Except Error Unit → SysM (Except Error Unit)) (directory d : Nat)
    (names : List Bytes) (n : Nat) : Prop :=
  ∀ (w : World) (name : Bytes) (result : Except Error Unit), Opens w directory d names → ¬ IsDots name →
    Runs start d n (Calm w ∧ Height w.fs d n) (· = name) result
      (fun calls => ∃ answer, .inspected ⟨directory, names⟩ name answer ∈ calls) w (turn name result w)

/-- A stream that cannot be read on ends the loop. -/
theorem endEntries_run (hleads : start.Leads names path depth) (hclear : ¬ Clear) {fd : Nat} {e : Int}
    (hasks : Asks [.read ⟨fd, names⟩ (.error e)]) :
    Runs start d n Clear gone result Asks w
      (.ok (endEntries start.strerror path result e) (w.turn.record (.read ⟨fd, names⟩ (.error e)))) := by
  unfold endEntries
  by_cases hzero : e = 0
  · rw [if_pos hzero]
    exact .done (if_pos hzero) trivial (fun hc => absurd hc hclear) hasks
  · rw [if_neg hzero]
    refine .failed ?_ hclear trivial hasks
    rw [Start.failure, if_neg hzero, hleads.path]

theorem removeEntries_run {turn : Bytes → Except Error Unit → SysM (Except Error Unit)} {scan : Nat}
    (hturn : CleansEntry start turn directory d names n) (hleads : start.Leads names path depth) (left : List Bytes)
    (h : Opens w directory d names) (hscan : Opens w scan d names) :
    Runs start d n (Calm w ∧ Height w.fs d n) (fun name => name ∈ left ∧ ¬ IsDots name) result
      (fun calls => (∃ e, .read ⟨scan, names⟩ (.error e) ∈ calls) ∨
        ∀ entry ∈ left, ¬ IsDots entry → ∃ answer, .inspected ⟨directory, names⟩ entry answer ∈ calls) w
      (removeEntries start.strerror turn path scan left result w) := by
  induction left generalizing w result with
  | nil =>
    unfold removeEntries
    rcases readdir_run hscan [] with ⟨e, hcalm, hcall⟩ | hcall
    · rw [bind_run_ok _ hcall]
      exact endEntries_run hleads (fun hc => hcalm hc.1) (.inl ⟨e, List.mem_cons_self⟩)
    · rw [bind_run_ok _ hcall]
      exact .done rfl trivial (fun _ name hname => absurd hname.1 List.not_mem_nil)
        (.inr fun entry hentry => absurd hentry List.not_mem_nil)
  | cons name left ih =>
    unfold removeEntries
    rcases readdir_run hscan (name :: left) with ⟨e, hcalm, hcall⟩ | hcall
    · rw [bind_run_ok _ hcall]
      exact endEntries_run hleads (fun hc => hcalm hc.1) (.inl ⟨e, List.mem_cons_self⟩)
    rw [bind_run_ok _ hcall]
    dsimp only [List.head?_cons]
    have hopens := h.turn.record (.read ⟨scan, names⟩ (.ok (some name)))
    have hscans := hscan.turn.record (.read ⟨scan, names⟩ (.ok (some name)))
    by_cases hdots : IsDots name
    · rw [if_pos hdots]
      refine Runs.cons rfl (ih hopens hscans) (fun hc => ⟨hc.1.suffix (turn_suffix w), hc.2⟩) ?_ (fun _ _ => trivial) ?_
      · rintro other ⟨hmem, hother⟩
        refine ⟨(List.mem_cons.mp hmem).resolve_left ?_, hother⟩
        rintro rfl
        exact hother hdots
      · rintro calls (⟨e, hread⟩ | hall)
        · exact .inl ⟨e, List.mem_cons_of_mem _ hread⟩
        · refine .inr fun entry hentry hother => ?_
          rcases List.mem_cons.mp hentry with rfl | hentry
          · exact absurd hdots hother
          · obtain ⟨answer, hinspected⟩ := hall entry hentry hother
            exact ⟨answer, List.mem_cons_of_mem _ hinspected⟩
    · rw [if_neg hdots]
      obtain ⟨calls, w₁, hrun, hpart, answer, hinspected⟩ := hturn _ name result hopens hdots
      obtain ⟨more, w', hloop, hlast, hothers⟩ :=
        @ih _ (keepAll result (start.errors calls)) (hopens.keeps hpart.keeps) (hscans.keeps hpart.keeps)
      have hrest : Runs start d n (Calm w.turn ∧ Height w.fs d n) (fun other => other ∈ name :: left ∧ ¬ IsDots other)
          result (fun calls => (∃ e, .read ⟨scan, names⟩ (.error e) ∈ calls) ∨
            ∀ entry ∈ name :: left, ¬ IsDots entry → ∃ answer, .inspected ⟨directory, names⟩ entry answer ∈ calls)
          (w.turn.record (.read ⟨scan, names⟩ (.ok (some name))))
          ((turn name result >>= removeEntries start.strerror turn path scan left)
            (w.turn.record (.read ⟨scan, names⟩ (.ok (some name))))) := by
        refine ⟨calls ++ more, w', ?_,
          ⟨hpart.keeps.trans hlast.keeps, hpart.complete.append hlast.complete, fun hc => ?_⟩, ?_⟩
        · rw [bind_run_ok _ hrun, hloop, keepAll_append, errors_append]
        · obtain ⟨hnone, hgone⟩ := hpart.clears hc
          obtain ⟨hmore, hrest⟩ := hlast.clears ⟨hc.1.suffix hpart.keeps.script, hpart.keeps.prunes.height hc.2⟩
          refine ⟨by rw [errors_append, hnone, hmore, List.append_nil], ?_⟩
          rintro other ⟨hmem, hother⟩
          rcases List.mem_cons.mp hmem with rfl | hmem
          · exact hlast.keeps.prunes.gone (hgone other rfl)
          · exact hrest other ⟨hmem, hother⟩
        · rcases hothers with ⟨e, hread⟩ | hall
          · exact .inl ⟨e, List.mem_append_right _ hread⟩
          · refine .inr fun entry hentry hother => ?_
            rcases List.mem_cons.mp hentry with rfl | hentry
            · exact ⟨answer, List.mem_append_left _ hinspected⟩
            · obtain ⟨answer', hinspected'⟩ := hall entry hentry hother
              exact ⟨answer', List.mem_append_right _ hinspected'⟩
      refine Runs.cons rfl hrest (fun hc => ⟨hc.1.suffix (turn_suffix w), hc.2⟩) (fun _ hname => hname)
        (fun _ _ => trivial) ?_
      rintro calls (⟨e, hread⟩ | hall)
      · exact .inl ⟨e, List.mem_cons_of_mem _ hread⟩
      · refine .inr fun entry hentry hother => ?_
        obtain ⟨answer', hinspected'⟩ := hall entry hentry hother
        exact ⟨answer', List.mem_cons_of_mem _ hinspected'⟩

/-- The part of the clean-up that is done with a second descriptor of the directory. -/
theorem closing_run (h : Opens w directory d names) {m : SysM (Except Error Unit)}
    (hm : Runs start d n Clear gone result Asks (w.opened d names) (m (w.opened d names))) :
    Runs start d n Clear gone result Asks w
      ((do
        let result ← m
        let _ ← close w.descriptors.length
        pure result : SysM (Except Error Unit)) (w.opened d names)) := by
  obtain ⟨calls, w', hrun, hpart, hasks⟩ := hm
  obtain ⟨r, hclose⟩ := close_run w.descriptors.length w'
  refine ⟨calls, w'.closed w.descriptors.length, ?_, ⟨?_, hpart.complete, hpart.clears⟩, hasks⟩
  · rw [bind_run_ok _ hrun, bind_run_ok _ hclose]
    rfl
  · exact hpart.keeps.bracket h.kind (.here d) (Nat.zero_le n)

/-- The names of a directory that is open for them are looked at in turn. -/
theorem scanEntries_run {turn : Bytes → Except Error Unit → SysM (Except Error Unit)} {scan : Nat}
    (hturn : CleansEntry start turn directory d names n) (hleads : start.Leads names path depth)
    (h : Opens w directory d names) (hscan : Opens w scan d names) :
    Runs start d n (Calm w ∧ Height w.fs d n) (¬ IsDots ·) (.ok ())
      (fun calls => (∃ e, .listed ⟨scan, names⟩ (.error e) ∈ calls) ∨
        ∃ entries, .listed ⟨scan, names⟩ (.ok entries) ∈ calls ∧ ((∃ e, .read ⟨scan, names⟩ (.error e) ∈ calls) ∨
          ∀ entry ∈ entries, ¬ IsDots entry → ∃ answer, .inspected ⟨directory, names⟩ entry answer ∈ calls)) w
      (scanEntries start.strerror turn path scan w) := by
  unfold scanEntries
  rcases fdopendir_run hscan with ⟨e, hcalm, hcall⟩ | hcall
  · rw [bind_run_ok _ hcall]
    refine Runs.failed (e := callError start.strerror "Failed to enumerate temporary directory " path e) ?_
      (fun hc => hcalm hc.1) trivial (.inl ⟨e, List.mem_cons_self⟩)
    rw [Start.failure, hleads.path]
  · rw [bind_run_ok _ hcall]
    let call : Call := .listed ⟨scan, names⟩ (.ok ((w.fs.inodes d).entries.map Prod.fst))
    obtain ⟨calls, w', hrun, hpart, hasks⟩ :=
      @removeEntries_run start (w.turn.record call) _ _ _ _ _ _ (.ok ()) _ _ hturn
      hleads ((w.fs.inodes d).entries.map Prod.fst) (h.turn.record call) (hscan.turn.record call)
    refine ⟨call :: calls, w', hrun,
      ⟨(Keeps.record w call).trans hpart.keeps, hpart.complete.cons trivial, fun hc => ?_⟩, ?_⟩
    · obtain ⟨hnone, hgone⟩ := hpart.clears ⟨hc.1.suffix (turn_suffix w), hc.2⟩
      refine ⟨hnone, fun name hdots => ?_⟩
      by_cases hname : name ∈ (w.fs.inodes d).entries.map Prod.fst
      · exact hgone name ⟨hname, hdots⟩
      · exact hpart.keeps.prunes.gone hname
    · refine .inr ⟨_, List.mem_cons_self, ?_⟩
      rcases hasks with ⟨e, hread⟩ | hall
      · exact .inl ⟨e, List.mem_cons_of_mem _ hread⟩
      · refine .inr fun entry hentry hother => ?_
        obtain ⟨answer, hinspected⟩ := hall entry hentry hother
        exact ⟨answer, List.mem_cons_of_mem _ hinspected⟩

theorem removeContents_step {fuel : Nat} (hlevels : depth + n = maxTemporaryDirectoryDepth)
    (hnested : ∀ m, n = m + 1 → CleansBelow start
      (fun child entryPath => removeContents start.strerror fuel child entryPath (depth + 1)) (depth + 1) m) :
    CleansBelow start (fun directory path => removeContents start.strerror (fuel + 1) directory path depth) depth n := by
  intro w directory d names path h hleads
  dsimp only
  unfold removeContents
  rcases openat_run h h.lookup_dot h.kind with ⟨e, hcalm, hcall⟩ | hcall
  · rw [bind_run_ok _ hcall]
    refine Runs.failed (e := callError start.strerror "Failed to open temporary directory for cleanup at " path e) ?_
      (fun hc => hcalm hc.1) trivial ⟨_, List.mem_cons_self⟩
    rw [Start.failure, if_pos rfl, hleads.path]
  · rw [bind_run_ok _ hcall, if_pos rfl, List.append_nil]
    let w₀ := w.turn.record (.opened ⟨directory, names⟩ (utf8 ".") (.ok w.descriptors.length))
    have hopens : Opens w₀ directory d names := h.turn.record _
    have hturn : CleansEntry start (removeEntry start.strerror
        (fun child entryPath => removeContents start.strerror fuel child entryPath (depth + 1)) directory path depth)
        directory d names n :=
      fun w name result hw hdots => removeEntry_run hlevels hnested hw hleads hdots
    have hscan := scanEntries_run hturn hleads (hopens.opened d names) (.of_opened w₀ h.kind names)
    refine Runs.cons rfl (closing_run hopens hscan) (fun hc => ⟨hc.1.suffix (turn_suffix w), hc.2⟩) (fun _ h => h)
      (fun calls hasks _ => hasks) fun calls _ => ⟨_, List.mem_cons_self⟩

/-- As many levels are cleaned up as are left. -/
theorem removeContents_run {fuel : Nat} (hlevels : depth + n = maxTemporaryDirectoryDepth) (hfuel : n < fuel) :
    CleansBelow start (fun directory path => removeContents start.strerror fuel directory path depth) depth n := by
  induction n generalizing fuel depth with
  | zero =>
    obtain ⟨fuel, rfl⟩ := Nat.exists_eq_succ_of_ne_zero (Nat.ne_of_gt hfuel)
    exact removeContents_step hlevels fun m hm => absurd hm.symm (Nat.succ_ne_zero m)
  | succ n ih =>
    obtain ⟨fuel, rfl⟩ := Nat.exists_eq_succ_of_ne_zero (Nat.ne_of_gt (Nat.zero_lt_of_lt hfuel))
    refine removeContents_step hlevels fun m hm => ?_
    cases hm
    exact ih (by omega) (by omega)

variable {strerror : Int → Bytes}

/-- At the greatest depth nothing is nested. -/
theorem removeEntry_congr {f g : Nat → Bytes → SysM (Except Error Unit)} (h : depth < maxTemporaryDirectoryDepth → f = g) :
    removeEntry strerror f directory path depth = removeEntry strerror g directory path depth := by
  by_cases hdepth : depth < maxTemporaryDirectoryDepth
  · rw [h hdepth]
  · funext name result
    unfold removeEntry removeDirectory
    simp only [if_pos (Nat.le_of_not_lt hdepth)]

/-- What is nested ends before the fuel does. -/
theorem removeContents_fuel {fuel more : Nat} (hlevels : depth + n = maxTemporaryDirectoryDepth) (hfuel : n < fuel)
    (hmore : n < more) (directory : Nat) (path : Bytes) :
    removeContents strerror fuel directory path depth = removeContents strerror more directory path depth := by
  induction n generalizing fuel more depth directory path with
  | zero =>
    obtain ⟨fuel, rfl⟩ := Nat.exists_eq_succ_of_ne_zero (Nat.ne_of_gt hfuel)
    obtain ⟨more, rfl⟩ := Nat.exists_eq_succ_of_ne_zero (Nat.ne_of_gt hmore)
    unfold removeContents
    rw [removeEntry_congr (g := fun child entryPath => removeContents strerror more child entryPath (depth + 1))]
    intro hdepth
    omega
  | succ n ih =>
    obtain ⟨fuel, rfl⟩ := Nat.exists_eq_succ_of_ne_zero (Nat.ne_of_gt (Nat.zero_lt_of_lt hfuel))
    obtain ⟨more, rfl⟩ := Nat.exists_eq_succ_of_ne_zero (Nat.ne_of_gt (Nat.zero_lt_of_lt hmore))
    unfold removeContents
    rw [removeEntry_congr (g := fun child entryPath => removeContents strerror more child entryPath (depth + 1))]
    intro _
    funext child entryPath
    exact ih (by omega) (by omega) (by omega) child entryPath

/-- What is in a directory that a descriptor stands for, the directory itself included. -/
def InTree (w : World) (directory i : Nat) : Prop := ∃ d, w.inode? directory = some d ∧ Below w.fs d i

/-- What a clean-up of a directory does to the world, and what it returns. -/
structure CleansUp (strerror : Int → Bytes) (w : World) (directory : Nat) (path : Bytes) (result : Except Error Unit)
    (w' : World) : Prop where
  /-- Entries are removed, and that is all. -/
  removes : Prunes w.fs w'.fs
  /-- They are removed from the directory and the directories below it. -/
  contained : ∀ i, ¬ InTree w directory i → w'.fs.inodes i = w.fs.inodes i
  /-- What is opened is a directory of the tree, at most so deep, and is closed once. -/
  opened : ∃ opened, w'.descriptors = w.descriptors ++ opened ∧ ∀ o ∈ opened, o.closes = 1 ∧
    (w.fs.inodes o.inode).kind = .directory ∧
      ∃ d, w.inode? directory = some d ∧ ∃ m ≤ maxTemporaryDirectoryDepth, Reaches w.fs m d o.inode
  /-- The directory is scanned, and after a failure the clean-up goes on; the first answer that is an error is returned. -/
  answers : ∃ calls, w'.calls = w.calls ++ calls ∧
    (∃ answer, .opened (w.place directory) (utf8 ".") answer ∈ calls) ∧
      (Start.mk strerror (w.place directory).names path).Complete calls ∧
        result = keepAll (.ok ()) ((Start.mk strerror (w.place directory).names path).errors calls)
  script : w'.script.IsSuffix w.script
  empties : Calm w → ∀ d, w.inode? directory = some d → (w.fs.inodes d).kind = .directory →
    Height w.fs d maxTemporaryDirectoryDepth → result = .ok () ∧ (w'.fs.inodes d).Empty

theorem opens_of_inode? (hinode : w.inode? directory = some d) (hkind : (w.fs.inodes d).kind = .directory) :
    Opens w directory d (w.place directory).names := by
  refine ⟨?_, hkind⟩
  rw [World.inode?, Option.bind_eq_some_iff] at hinode
  obtain ⟨⟨i, names, closes⟩, hdescriptor, hopen⟩ := hinode
  split_ifs at hopen with hcloses
  cases hopen
  rw [World.place, hdescriptor]
  obtain rfl : closes = 0 := hcloses
  rfl

/-- A descriptor that stands for no directory cannot be used. -/
theorem openat_closed_run (h : ∀ d, w.inode? directory = some d → (w.fs.inodes d).kind ≠ .directory) :
    ∃ e, openat directory (utf8 ".") true w =
      .ok (.error e) (w.turn.record (.opened (w.place directory) (utf8 ".") (.error e))) := by
  unfold openat
  rcases attempt_run directory (Call.opened · (utf8 ".")) _ w with ⟨e, -, hcall⟩ | hcall
  · exact ⟨e, hcall⟩
  · have hlookup : ∃ e, w.turn.lookup directory (utf8 ".") = .error e := by
      unfold World.lookup
      cases hinode : w.turn.inode? directory with
      | none => exact ⟨_, rfl⟩
      | some d =>
        have hkind : (w.turn.fs.inodes d).kind ≠ .directory := h d hinode
        dsimp only
        rw [if_pos hkind]
        exact ⟨_, rfl⟩
    obtain ⟨e, he⟩ := hlookup
    rw [hcall, he]
    exact ⟨e, rfl⟩

/-- A clean-up stays below its directory whatever fails: it removes only entries of the tree, opens only its directories
and closes them once, goes on with the other entries after a failure, and returns the first one; where nothing fails and
no directory is too deep, nothing is left. -/
theorem removeContents_cleansUp (strerror : Int → Bytes) (directory : Nat) (path : Bytes) (w : World) :
    (∀ more, removeContents strerror (maxTemporaryDirectoryDepth + 1 + more) directory path 0 =
        removeContents strerror (maxTemporaryDirectoryDepth + 1) directory path 0) ∧
      ∃ result w', removeContents strerror (maxTemporaryDirectoryDepth + 1) directory path 0 w = .ok result w' ∧
        CleansUp strerror w directory path result w' := by
  refine ⟨fun more => removeContents_fuel (Nat.zero_add _) (by omega) (Nat.lt_succ_self _) directory path, ?_⟩
  let start : Start := ⟨strerror, (w.place directory).names, path⟩
  by_cases h : ∃ d, w.inode? directory = some d ∧ (w.fs.inodes d).kind = .directory
  · obtain ⟨d, hinode, hkind⟩ := h
    have h := opens_of_inode? hinode hkind
    obtain ⟨calls, w', hrun, hpart, hstarted⟩ := @removeContents_run start _ _ _
      (Nat.zero_add maxTemporaryDirectoryDepth) (Nat.lt_succ_self _) w directory d _ path h start.leads_start
    refine ⟨_, w', hrun, hpart.keeps.prunes, fun i hi => hpart.keeps.outside i fun hbelow => hi ⟨d, hinode, hbelow⟩, ?_,
      ⟨calls, hpart.keeps.calls, ?_, hpart.complete, rfl⟩, hpart.keeps.script, ?_⟩
    · obtain ⟨opened, hdescriptors, hopened⟩ := hpart.keeps.opened
      refine ⟨opened, hdescriptors, fun o ho => ?_⟩
      obtain ⟨hclosed, hkind, hreach⟩ := hopened o ho
      exact ⟨hclosed, hkind, d, hinode, hreach⟩
    · rw [h.place]
      exact hstarted
    · intro hcalm d' hinode' _ hheight
      have heq : d = d' := Option.some.inj (hinode.symm.trans hinode')
      subst heq
      obtain ⟨hnone, hgone⟩ := hpart.clears ⟨hcalm, hheight⟩
      refine ⟨by rw [hnone]; rfl, fun entry hentry => ?_⟩
      by_contra hdots
      exact hgone entry.1 hdots (List.mem_map_of_mem hentry)
  · have hnone : ∀ d, w.inode? directory = some d → (w.fs.inodes d).kind ≠ .directory :=
      fun d hinode hkind => h ⟨d, hinode, hkind⟩
    obtain ⟨e, hcall⟩ := openat_closed_run hnone
    have hrun : removeContents strerror (maxTemporaryDirectoryDepth + 1) directory path 0 w =
        .ok (.error (callError strerror "Failed to open temporary directory for cleanup at " path e))
          (w.turn.record (.opened (w.place directory) (utf8 ".") (.error e))) := by
      rw [removeContents, bind_run_ok _ hcall]
      rfl
    rw [hrun]
    refine ⟨_, _, rfl, .refl _, fun i _ => rfl, ⟨[], (List.append_nil _).symm, fun o ho => absurd ho List.not_mem_nil⟩,
      ⟨[_], rfl, ⟨_, List.mem_cons_self⟩, Start.Complete.nil.cons trivial, ?_⟩, turn_suffix w,
      fun _ d hinode hkind => absurd hkind (hnone d hinode)⟩
    rw [errors_cons, Start.failure, if_pos rfl, start.leads_start.path]
    rfl

end Removal

section Remove

variable {strerror : Int → Bytes} {w w' w'' : World} {parent root fd : Nat} {path name : Bytes}

/-- Names were removed from the tree of one descriptor and from the directory of another one, and what was opened besides
was closed. -/
structure Attempts (parent root : Nat) (w w' : World) : Prop where
  removes : Prunes w.fs w'.fs
  contained : ∀ i, ¬ InTree w root i → w.inode? parent ≠ some i → w'.fs.inodes i = w.fs.inodes i
  opened : ∃ opened, w'.descriptors = w.descriptors ++ opened ∧ ∀ o ∈ opened, o.closes = 1
  script : w'.script.IsSuffix w.script

namespace Attempts

theorem of_same (hfs : w'.fs = w.fs) (hdescriptors : w'.descriptors = w.descriptors)
    (hscript : w'.script.IsSuffix w.script) : Attempts parent root w w' := by
  refine ⟨by rw [hfs]; exact .refl _, fun i _ _ => by rw [hfs], ⟨[], ?_, fun o ho => absurd ho List.not_mem_nil⟩, hscript⟩
  rw [hdescriptors, List.append_nil]

/-- A descriptor stands for what it did, and one that was opened meanwhile for nothing. -/
theorem inode? (h : Attempts parent root w w') (fd : Nat) : w'.inode? fd = w.inode? fd := by
  obtain ⟨opened, hdescriptors, hclosed⟩ := h.opened
  rw [World.inode?, World.inode?, hdescriptors]
  rcases Nat.lt_or_ge fd w.descriptors.length with hlt | hge
  · rw [List.getElem?_append_left hlt]
  · rw [List.getElem?_append_right hge, List.getElem?_eq_none hge]
    cases hnew : opened[fd - w.descriptors.length]? with
    | none => rfl
    | some o =>
      rw [Option.bind_some, if_neg]
      · rfl
      · rw [hclosed o (List.mem_of_getElem? hnew)]
        decide

theorem inTree (h : Attempts parent root w w') {i : Nat} (hi : InTree w' root i) : InTree w root i := by
  obtain ⟨d, hinode, hbelow⟩ := hi
  rw [h.inode?] at hinode
  exact ⟨d, hinode, h.removes.below hbelow⟩

theorem trans (h : Attempts parent root w w') (h' : Attempts parent root w' w'') : Attempts parent root w w'' := by
  refine ⟨h.removes.trans h'.removes, fun i hi hparent => ?_, ?_, h'.script.trans h.script⟩
  · rw [h'.contained i (fun hi' => hi (h.inTree hi')) (by rw [h.inode?]; exact hparent), h.contained i hi hparent]
  · obtain ⟨opened, hdescriptors, hclosed⟩ := h.opened
    obtain ⟨opened', hdescriptors', hclosed'⟩ := h'.opened
    refine ⟨opened ++ opened', by rw [hdescriptors', hdescriptors, List.append_assoc], fun o ho => ?_⟩
    exact (List.mem_append.mp ho).elim (hclosed o) (hclosed' o)

end Attempts

theorem lookup_inode? {d i : Nat} (hlookup : w.lookup parent name = .ok (d, i)) : w.inode? parent = some d := by
  unfold World.lookup at hlookup
  cases hinode : w.inode? parent with
  | none =>
    rw [hinode] at hlookup
    cases hlookup
  | some p =>
    rw [hinode] at hlookup
    dsimp only at hlookup
    split_ifs at hlookup
    · cases hlookup
      rfl
    · split at hlookup
      · cases hlookup
      · cases hlookup
        rfl

/-- A call that only asks changes neither the files nor the descriptors. -/
theorem fstat_run (fd : Nat) (w : World) : ∃ r call, fstat fd w = .ok r (w.turn.record call) := by
  unfold fstat
  rcases attempt_run fd Call.examined _ w with ⟨e, -, hcall⟩ | hcall
  · exact ⟨_, _, hcall⟩
  · rw [hcall]
    cases w.turn.inode? fd with
    | none => exact ⟨_, _, rfl⟩
    | some i => exact ⟨_, _, rfl⟩

theorem fstatat_same (parent : Nat) (name : Bytes) (w : World) :
    ∃ r call, fstatat parent name w = .ok r (w.turn.record call) := by
  unfold fstatat
  rcases attempt_run parent (Call.inspected · name) _ w with ⟨e, -, hcall⟩ | hcall
  · exact ⟨_, _, hcall⟩
  · exact ⟨_, _, hcall⟩

/-- A name is removed from the directory of the descriptor, or nothing is. -/
theorem unlinkat_attempts (parent root : Nat) (name : Bytes) (removeDirectory : Bool) (w : World) :
    ∃ r w', unlinkat parent name removeDirectory w = .ok r w' ∧ Attempts parent root w w' := by
  unfold unlinkat
  rcases attempt_run parent (Call.unlinked · name removeDirectory) _ w with ⟨e, -, hcall⟩ | hcall
  · exact ⟨_, _, hcall, .of_same rfl rfl (turn_suffix w)⟩
  have hremoved (d i : Nat) (hlookup : w.turn.lookup parent name = .ok (d, i)) (call : Call) :
      Attempts parent root w ({ w.turn with fs := w.turn.fs.remove d name }.record call) := by
    refine ⟨.remove _ _ _, fun j _ hparent => ?_, ⟨[], (List.append_nil _).symm, ?_⟩, turn_suffix w⟩
    · refine if_neg fun heq : j = d => hparent ?_
      rw [heq]
      exact lookup_inode? hlookup
    · intro o ho
      cases ho
  refine ⟨_, _, hcall, ?_⟩
  split
  · exact .of_same rfl rfl (turn_suffix w)
  split
  · exact .of_same rfl rfl (turn_suffix w)
  rename_i d i hlookup
  split
  · split
    · exact .of_same rfl rfl (turn_suffix w)
    split
    · exact .of_same rfl rfl (turn_suffix w)
    · exact hremoved d i hlookup _
  · split
    · exact .of_same rfl rfl (turn_suffix w)
    · exact hremoved d i hlookup _

theorem CleansUp.attempts {result : Except Error Unit} (h : CleansUp strerror w root path result w') :
    Attempts parent root w w' := by
  refine ⟨h.removes, fun i hi _ => h.contained i hi, ?_, h.script⟩
  obtain ⟨opened, hdescriptors, hopened⟩ := h.opened
  exact ⟨opened, hdescriptors, fun o ho => (hopened o ho).1⟩

/-- Whatever is tried, names are removed from the tree and from the parent only. -/
theorem removeAttempts_run (attempts : Nat) (result : Except Error Unit) (w : World) :
    ∃ result' w', removeAttempts strerror path name parent root attempts result w = .ok result' w' ∧
      Attempts parent root w w' := by
  induction attempts generalizing result w with
  | zero => exact ⟨result, w, rfl, .of_same rfl rfl (List.suffix_refl _)⟩
  | succ attempts ih =>
    unfold removeAttempts
    obtain ⟨r, call, hfstat⟩ := fstat_run root w
    rw [bind_run_ok _ hfstat]
    have hfirst : Attempts parent root w (w.turn.record call) := .of_same rfl rfl (turn_suffix w)
    cases r with
    | error status => exact ⟨_, _, rfl, hfirst⟩
    | ok rootStatus =>
      dsimp only
      obtain ⟨r, call', hfstatat⟩ := fstatat_same parent (cString name) (w.turn.record call)
      rw [bind_run_ok _ hfstatat]
      have hsecond : Attempts parent root (w.turn.record call) ((w.turn.record call).turn.record call') :=
        .of_same rfl rfl (turn_suffix _)
      have hasked := hfirst.trans hsecond
      cases r with
      | error status => exact ⟨_, _, rfl, hasked⟩
      | ok entryStatus =>
        dsimp only
        split_ifs with hreplaced
        · exact ⟨_, _, rfl, hasked⟩
        · obtain ⟨-, contentsRemoved, w₁, hrun, hcleans⟩ :=
            removeContents_cleansUp strerror root path ((w.turn.record call).turn.record call')
          rw [bind_run_ok _ hrun]
          obtain ⟨r, w₂, hunlinkat, hunlinked⟩ := unlinkat_attempts parent root (cString name) true w₁
          rw [bind_run_ok _ hunlinkat]
          have hdone := (hasked.trans hcleans.attempts).trans hunlinked
          cases r with
          | ok _ => exact ⟨_, _, rfl, hdone⟩
          | error status =>
            dsimp only
            split_ifs with hleft
            · exact ⟨_, _, rfl, hdone⟩
            · obtain ⟨result', w', hloop, hagain⟩ := ih _ w₂
              exact ⟨_, w', hloop, hdone.trans hagain⟩

theorem Attempts.opens {p : Nat} {names : List Bytes} (h : Attempts parent root w w') (hopens : Opens w fd p names) :
    Opens w' fd p names := by
  refine ⟨?_, by rw [h.removes.kind]; exact hopens.kind⟩
  obtain ⟨opened, hdescriptors, -⟩ := h.opened
  have hlt := (List.getElem?_eq_some_iff.mp hopens.descriptor).1
  rw [hdescriptors, List.getElem?_append_left hlt, hopens.descriptor]

/-- A name that refers to something is in the directory. -/
theorem Opens.lookup_absent {p : Nat} {names : List Bytes} (h : Opens w parent p names) (hdots : ¬ IsDots name)
    (habsent : name ∉ (w.fs.inodes p).entries.map Prod.fst) : w.lookup parent name = .error ENOENT := by
  rcases h.lookup hdots with ⟨herror, -⟩ | ⟨i, -, hmem⟩
  · exact herror
  · exact absurd (List.mem_map_of_mem hmem) habsent

theorem fstat_calm {d : Nat} (hcalm : Calm w) (hinode : w.inode? fd = some d) :
    ∃ call, fstat fd w = .ok (.ok (stat d (w.fs.inodes d))) (w.turn.record call) := by
  unfold fstat
  rcases attempt_run fd Call.examined _ w with ⟨e, hnot, -⟩ | hcall
  · exact absurd hcalm hnot
  · have hturn : w.turn.inode? fd = some d := hinode
    rw [hcall, hturn]
    exact ⟨_, rfl⟩

/-- A directory that its name still refers to is removed by the first attempt where nothing fails. -/
theorem removeAttempts_calm {p d : Nat} {names : List Bytes} (hcalm : Calm w) (hparent : Opens w parent p names)
    (hroot : w.inode? root = some d) (hkind : (w.fs.inodes d).kind = .directory) (hdots : ¬ IsDots (cString name))
    (hlookup : w.lookup parent (cString name) = .ok (p, d)) (hheight : Height w.fs d maxTemporaryDirectoryDepth)
    (houtside : ¬ Below w.fs d p) (attempts : Nat) (result : Except Error Unit) :
    ∃ w', removeAttempts strerror path name parent root (attempts + 1) result w = .ok (.ok ()) w' ∧
      cString name ∉ (w'.fs.inodes p).entries.map Prod.fst := by
  obtain ⟨call, hfstat⟩ := fstat_calm hcalm hroot
  have hopens := hparent.turn.record call
  have hcalm₁ : Calm (w.turn.record call) := hcalm.suffix (turn_suffix w)
  have hfound : (w.turn.record call).lookup parent (cString name) = .ok (p, d) := hlookup
  unfold removeAttempts
  rw [bind_run_ok _ hfstat]
  dsimp only
  rcases fstatat_run hopens hdots with ⟨status, -, hclear⟩ | ⟨i, hentry, -, hfstatat⟩
  · have habsent := hopens.lookup_absent hdots (hclear hcalm₁).2
    rw [hfound] at habsent
    cases habsent
  rw [hfound] at hentry
  cases hentry
  rw [bind_run_ok _ hfstatat]
  dsimp only
  have hinode : ¬ (stat d (w.fs.inodes d)).inode ≠ (stat d ((w.turn.record call).fs.inodes d)).inode := not_not.mpr rfl
  rw [if_neg hinode]
  obtain ⟨-, contentsRemoved, w₁, hrun, hcleans⟩ := removeContents_cleansUp strerror root path
    ((w.turn.record call).turn.record (.inspected ⟨parent, names⟩ (cString name)
      (.ok (stat d ((w.turn.record call).fs.inodes d)))))
  obtain ⟨rfl, hempty⟩ := hcleans.empties (hcalm₁.suffix (turn_suffix _)) d hroot hkind hheight
  rw [bind_run_ok _ hrun]
  have hattempts : Attempts parent root _ w₁ := hcleans.attempts
  have hopens₁ := hattempts.opens (hopens.turn.record _)
  have hsame : w₁.fs.inodes p = w.fs.inodes p := by
    refine hcleans.contained p ?_
    rintro ⟨d', hinode, hbelow⟩
    rw [show d' = d from Option.some.inj (hinode.symm.trans hroot)] at hbelow
    exact houtside hbelow
  have hfound₁ : w₁.lookup parent (cString name) = .ok (p, d) := by
    rw [← hlookup]
    unfold World.lookup
    rw [hopens₁.inode, hparent.inode]
    dsimp only
    rw [hsame]
  have hremovable : Removable w₁ parent p (cString name) true := by
    intro i hi
    rw [hfound₁] at hi
    cases hi
    exact ⟨(hcleans.removes.kind d).trans hkind, hempty⟩
  rcases unlinkat_run hopens₁ hdots true with ⟨status, -, hclear⟩ | hunlinkat
  · have habsent := hopens₁.lookup_absent hdots
      (hclear ((hcalm₁.suffix (turn_suffix _)).suffix hcleans.script) hremovable).2
    rw [hfound₁] at habsent
    cases habsent
  · rw [bind_run_ok _ hunlinkat]
    exact ⟨_, rfl, gone_remove w₁.fs p _⟩

/-- A directory is removed once at most, and the descriptors that it has are closed then, whatever was removed. -/
theorem remove_spec (t : TemporaryDirectory) (w : World) :
    ∃ result t' w', remove strerror t w = .ok (result, t') w' ∧ t'.owned = none ∧
      (t.owned = none → w' = w ∧ ∃ e, result = .error e ∧ e.code = EALREADY) ∧
        ∀ parent root, t.owned = some (parent, root) →
          ∃ w₁, Attempts parent root w w₁ ∧ w' = (w₁.closed root).closed parent := by
  unfold remove
  cases howned : t.owned with
  | none =>
    exact ⟨_, _, _, rfl, howned, fun _ => ⟨rfl, _, rfl, rfl⟩, fun _ _ h => absurd h (Option.some_ne_none _).symm⟩
  | some owned =>
    obtain ⟨parent, root⟩ := owned
    dsimp only
    obtain ⟨result, w₁, hrun, hattempts⟩ := @removeAttempts_run strerror parent root t.path t.name 2 (.ok ()) w
    obtain ⟨r, hroot⟩ := close_run root w₁
    obtain ⟨r', hparent⟩ := close_run parent (w₁.closed root)
    rw [bind_run_ok _ hrun, bind_run_ok _ hroot, bind_run_ok _ hparent]
    refine ⟨_, _, _, rfl, rfl, fun h => absurd h (Option.some_ne_none _), ?_⟩
    rintro _ _ ⟨⟩
    exact ⟨w₁, hattempts, rfl⟩

/-- A directory that is still under its name, and not above its parent, is removed where nothing fails. -/
theorem remove_gone (t : TemporaryDirectory) {p d : Nat} {names : List Bytes} (howned : t.owned = some (parent, root))
    (hcalm : Calm w) (hparent : Opens w parent p names) (hroot : w.inode? root = some d)
    (hkind : (w.fs.inodes d).kind = .directory) (hdots : ¬ IsDots (cString t.name))
    (hlookup : w.lookup parent (cString t.name) = .ok (p, d)) (hheight : Height w.fs d maxTemporaryDirectoryDepth)
    (houtside : ¬ Below w.fs d p) :
    ∃ w', remove strerror t w = .ok (.ok (), { t with owned := none }) w' ∧
      cString t.name ∉ (w'.fs.inodes p).entries.map Prod.fst := by
  unfold remove
  rw [howned]
  dsimp only
  obtain ⟨w₁, hrun, hgone⟩ :=
    @removeAttempts_calm strerror w parent root t.path t.name p d names hcalm hparent hroot hkind
    hdots hlookup hheight houtside 1 (.ok ())
  obtain ⟨r, hclose⟩ := close_run root w₁
  obtain ⟨r', hclose'⟩ := close_run parent (w₁.closed root)
  rw [bind_run_ok _ hrun, bind_run_ok _ hclose, bind_run_ok _ hclose']
  exact ⟨_, rfl, hgone⟩

end Remove

end Kompli.TemporaryDirectory
