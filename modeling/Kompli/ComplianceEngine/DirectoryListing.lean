import Kompli.ComplianceEngine.ListDirectory
import Kompli.Foundation.Resumption
import Kompli.Foundation.Split

/-! What the iterator of `ce.ListDirectory` gives of a tree that does not change. -/
namespace Kompli.ListDirectory
open Foundation Loop Resumption

/-- What is in a directory, without `.` and `..`; whether `readdir` knows the type. -/
inductive Node where
  | file (name : Bytes) (known : Bool)
  | directory (name : Bytes) (known : Bool) (entries : List Node)

namespace Node

def name : Node → Bytes
  | file name _ => name
  | directory name _ _ => name

def dirent : Node → Dirent
  | file name known => { name, type := if known then .other else .unknown }
  | directory name known _ => { name, type := if known then .directory else .unknown }

def isDirectory : Node → Bool
  | file _ _ => false
  | directory _ _ _ => true

def known : Node → Bool
  | file _ known => known
  | directory _ known _ => known

end Node

section Listing

variable (selected : Bytes → Bool) (recursive : Bool)

mutual

/-- The files that an entry of the directory stands for. -/
def listingOf (relPath : Bytes) : Node → List Bytes
  | .file name _ => if selected name then [child relPath name] else []
  | .directory name _ entries => if recursive then listing (child relPath name) entries else []

def listing (relPath : Bytes) : List Node → List Bytes
  | [] => []
  | node :: nodes => listingOf relPath node ++ listing relPath nodes

end

end Listing

section Shows

variable {W : Type} (system : System W) (basePath : Bytes) (recursive : Bool)

/-- The directory is opened whenever it is asked for, and lists the entries. -/
def Opens (full : Bytes) (nodes : List Node) : Prop :=
  ∀ w, ∃ stream world, system.opendir full w = (.ok stream, world) ∧ stream.endErrno = 0 ∧
    stream.entries.filter (fun entry => ! isDots entry.name) = nodes.map Node.dirent

mutual

/-- The calls that are made for an entry do not fail, whatever has happened before. -/
def ShowsNode (relPath : Bytes) : Node → Prop
  | .file name known =>
    isDots name = false ∧
      (known = false → ∀ w, (system.lstat (basePath ++ slash :: child relPath name) w).1 = some false)
  | .directory name known entries =>
    isDots name = false ∧ name ≠ [] ∧
      (known = false → ∀ w, (system.lstat (basePath ++ slash :: child relPath name) w).1 = some true) ∧
      (recursive = true → Opens system (basePath ++ slash :: child relPath name) entries ∧
        ShowsNodes (child relPath name) entries)

def ShowsNodes (relPath : Bytes) : List Node → Prop
  | [] => True
  | node :: nodes => ShowsNode relPath node ∧ ShowsNodes relPath nodes

end

/-- The system has the tree at the path. -/
def Shows (nodes : List Node) : Prop := Opens system basePath nodes ∧ ShowsNodes system basePath recursive [] nodes

end Shows

section Emitting

variable {W : Type} {system : System W} {basePath pattern : Bytes} {recursive : Bool}

def isSelected (system : System W) (pattern name : Bytes) : Bool := pattern = [] || system.fnmatch pattern name

/-- The iterator with these frames on its stack. -/
def standing (basePath pattern : Bytes) (recursive : Bool) (stack : List Frame) (s : Script W) : Script W :=
  { s with holder := some { basePath, pattern, recursive, stack } }

variable {frames : List Frame} {dir : Nat} {relPath : Bytes} {unread : List Dirent} {s : Script W}

/-- A turn that reads an entry is that entry's. -/
theorem iteratorTurn_entry (entry : Dirent) :
    iteratorTurn system (standing basePath pattern recursive
      ({ dir, unread := entry :: unread, endErrno := 0, relPath } :: frames) s) =
    entryTurn system
      { basePath, pattern, recursive, stack := { dir, unread, endErrno := 0, relPath } :: frames } relPath entry
      (standing basePath pattern recursive ({ dir, unread, endErrno := 0, relPath } :: frames) s) := rfl

theorem emits_dots {before : List Dirent} (h : ∀ entry ∈ before, isDots entry.name = true) :
    Emits (iteratorTurn system)
      (standing basePath pattern recursive ({ dir, unread := before ++ unread, endErrno := 0, relPath } :: frames) s) []
      (standing basePath pattern recursive ({ dir, unread, endErrno := 0, relPath } :: frames) s) := by
  induction before with
  | nil => exact .refl _
  | cons entry before ih =>
    rw [List.forall_mem_cons] at h
    refine .again ?_ (ih h.2)
    rw [List.cons_append, iteratorTurn_entry, entryTurn, if_pos h.1]

/-- The end of a directory. -/
theorem emits_end : ∃ t : Script W, Emits (iteratorTurn system)
    (standing basePath pattern recursive ({ dir, unread := [], endErrno := 0, relPath } :: frames) s) []
    (standing basePath pattern recursive frames t) :=
  ⟨{ s with closed := s.closed ++ [dir] }, .again rfl (.refl _)⟩

theorem entryIsDir_node {node : Node} {full : Bytes}
    (h : node.known = false → ∀ w, (system.lstat full w).1 = some node.isDirectory) (t : Script W) :
    ∃ world, entryIsDir system node.dirent full t = (node.isDirectory, { t with world }) := by
  rw [entryIsDir]
  cases node with
  | file name known =>
    cases known with
    | true => exact ⟨t.world, rfl⟩
    | false =>
      refine ⟨(system.lstat full t.world).2, ?_⟩
      show ((system.lstat full t.world).1.getD false, _) = _
      rw [h rfl t.world]
      rfl
  | directory name known entries =>
    cases known with
    | true => exact ⟨t.world, rfl⟩
    | false =>
      refine ⟨(system.lstat full t.world).2, ?_⟩
      show ((system.lstat full t.world).1.getD false, _) = _
      rw [h rfl t.world]
      rfl

theorem child_ne_nil {relPath name : Bytes} (h : name ≠ []) : child relPath name ≠ [] := by
  rw [child]
  split_ifs
  · exact h
  · exact fun hnil => List.cons_ne_nil slash name (List.append_eq_nil_iff.mp hnil).2

theorem emits_file {name : Bytes} {known : Bool} (h : ShowsNode system basePath recursive relPath (.file name known)) :
    ∃ t : Script W, Emits (iteratorTurn system)
      (standing basePath pattern recursive
        ({ dir, unread := (Node.file name known).dirent :: unread, endErrno := 0, relPath } :: frames) s)
      ((listingOf (isSelected system pattern) recursive relPath (.file name known)).map .yields)
      (standing basePath pattern recursive ({ dir, unread, endErrno := 0, relPath } :: frames) t) := by
  rw [ShowsNode] at h
  have hlstat : (Node.file name known).known = false →
      ∀ w, (system.lstat (basePath ++ slash :: child relPath name) w).1 = some (Node.file name known).isDirectory := h.2
  obtain ⟨world, hdir⟩ := entryIsDir_node hlstat
    (standing basePath pattern recursive ({ dir, unread, endErrno := 0, relPath } :: frames) s)
  have hdots : isDots (Node.file name known).dirent.name = false := h.1
  refine ⟨{ s with world }, ?_⟩
  rw [listingOf]
  by_cases hselected : isSelected system pattern name = true
  · rw [if_pos hselected]
    exact .leave ((iteratorTurn_entry _).trans ((entryTurn_other hdots hdir).trans (if_pos hselected))) (.refl _)
  · rw [if_neg hselected]
    exact .again ((iteratorTurn_entry _).trans ((entryTurn_other hdots hdir).trans (if_neg hselected))) (.refl _)

variable {name : Bytes} {known : Bool} {entries : List Node}

theorem entryIsDir_directory (h : ShowsNode system basePath recursive relPath (.directory name known entries))
    (t : Script W) : ∃ world, entryIsDir system (Node.directory name known entries).dirent
      (basePath ++ slash :: child relPath (Node.directory name known entries).dirent.name) t =
        (true, { t with world }) := by
  rw [ShowsNode] at h
  have hlstat : (Node.directory name known entries).known = false →
      ∀ w, (system.lstat (basePath ++ slash :: child relPath name) w).1 =
        some (Node.directory name known entries).isDirectory := h.2.2.1
  exact entryIsDir_node hlstat t

/-- A directory that is not entered. -/
theorem emits_passed (hrecursive : recursive = false)
    (h : ShowsNode system basePath recursive relPath (.directory name known entries)) :
    ∃ t : Script W, Emits (iteratorTurn system)
      (standing basePath pattern recursive
        ({ dir, unread := (Node.directory name known entries).dirent :: unread, endErrno := 0, relPath } :: frames) s) []
      (standing basePath pattern recursive ({ dir, unread, endErrno := 0, relPath } :: frames) t) := by
  obtain ⟨world, hdir⟩ := entryIsDir_directory h
    (standing basePath pattern recursive ({ dir, unread, endErrno := 0, relPath } :: frames) s)
  rw [ShowsNode] at h
  have hdots : isDots (Node.directory name known entries).dirent.name = false := h.1
  have hturn := (iteratorTurn_entry _).trans (entryTurn_passed hdots hrecursive hdir)
  exact ⟨{ s with world }, .again hturn (.refl _)⟩

/-- A directory that is entered lies on the stack, above the one that it is in. -/
theorem emits_entered (hrecursive : recursive = true)
    (h : ShowsNode system basePath recursive relPath (.directory name known entries)) :
    ∃ (t : Script W) (inner : Nat) (opened : List Dirent),
      opened.filter (fun entry => ! isDots entry.name) = entries.map Node.dirent ∧
      Emits (iteratorTurn system)
        (standing basePath pattern recursive
          ({ dir, unread := (Node.directory name known entries).dirent :: unread, endErrno := 0, relPath } :: frames) s) []
        (standing basePath pattern recursive
          ({ dir := inner, unread := opened, endErrno := 0, relPath := child relPath name } ::
            { dir, unread, endErrno := 0, relPath } :: frames) t) := by
  obtain ⟨world, hdir⟩ := entryIsDir_directory h
    (standing basePath pattern recursive ({ dir, unread, endErrno := 0, relPath } :: frames) s)
  rw [ShowsNode] at h
  obtain ⟨hdots, hname, -, hinside⟩ := h
  have hdirent : isDots (Node.directory name known entries).dirent.name = false := hdots
  obtain ⟨⟨opened, endErrno⟩, world', hopen, hend, hentries⟩ := (hinside hrecursive).1 world
  obtain rfl : endErrno = 0 := hend
  have hturn := (iteratorTurn_entry _).trans
    (entryTurn_entered hdirent hrecursive hdir (pushDir_ok (child_ne_nil hname) hopen))
  exact ⟨{ s with world := world', opened := s.opened + 1 }, s.opened, opened, hentries, .again hturn (.refl _)⟩

mutual

/-- An entry is gone through, and all below it. -/
theorem emits_node (node : Node) {frames : List Frame} {dir : Nat} {relPath : Bytes} {unread : List Dirent} (s : Script W)
    (h : ShowsNode system basePath recursive relPath node) :
    ∃ t : Script W, Emits (iteratorTurn system)
      (standing basePath pattern recursive ({ dir, unread := node.dirent :: unread, endErrno := 0, relPath } :: frames) s)
      ((listingOf (isSelected system pattern) recursive relPath node).map .yields)
      (standing basePath pattern recursive ({ dir, unread, endErrno := 0, relPath } :: frames) t) := by
  match node with
  | .file name known => exact emits_file h
  | .directory name known entries =>
    rw [listingOf]
    by_cases hrecursive : recursive = true
    · obtain ⟨t, inner, opened, hentries, hentered⟩ := emits_entered hrecursive h
      rw [ShowsNode] at h
      obtain ⟨u, hinside⟩ := emits_nodes entries t (h.2.2.2 hrecursive).2 hentries
      rw [if_pos hrecursive]
      exact ⟨u, hentered.trans hinside⟩
    · rw [if_neg hrecursive]
      exact emits_passed (Bool.eq_false_iff.mpr hrecursive) h

/-- A directory is gone through, and all below it. -/
theorem emits_nodes (nodes : List Node) {frames : List Frame} {dir : Nat} {relPath : Bytes} {unread : List Dirent}
    (s : Script W) (h : ShowsNodes system basePath recursive relPath nodes)
    (hunread : unread.filter (fun entry => ! isDots entry.name) = nodes.map Node.dirent) :
    ∃ t : Script W, Emits (iteratorTurn system)
      (standing basePath pattern recursive ({ dir, unread, endErrno := 0, relPath } :: frames) s)
      ((listing (isSelected system pattern) recursive relPath nodes).map .yields)
      (standing basePath pattern recursive frames t) := by
  match nodes with
  | [] =>
    have hdots : ∀ entry ∈ unread, isDots entry.name = true := by
      intro entry hentry
      have hnot := List.filter_eq_nil_iff.mp hunread entry hentry
      simpa using hnot
    have hskip : Emits (iteratorTurn system)
        (standing basePath pattern recursive ({ dir, unread := unread ++ [], endErrno := 0, relPath } :: frames) s) []
        (standing basePath pattern recursive ({ dir, unread := [], endErrno := 0, relPath } :: frames) s) :=
      emits_dots hdots
    rw [List.append_nil] at hskip
    obtain ⟨t, hend⟩ := emits_end
    exact ⟨t, hskip.trans hend⟩
  | node :: nodes =>
    rw [ShowsNodes] at h
    obtain ⟨before, rest, rfl, hbefore, -, hrest⟩ := List.filter_eq_cons_iff.mp hunread
    have hdots : ∀ entry ∈ before, isDots entry.name = true := by
      intro entry hentry
      simpa using hbefore entry hentry
    obtain ⟨t, hnode⟩ := emits_node node s h.1
    obtain ⟨u, hnodes⟩ := emits_nodes nodes t h.2 hrest
    rw [listing, List.map_append]
    exact ⟨u, (emits_dots hdots).trans (hnode.trans hnodes)⟩

end

end Emitting

section Distinct

/-- What a name in a directory can be. -/
def IsEntryName (name : Bytes) : Prop := name ≠ [] ∧ slash ∉ name

mutual

def WellNamedNode : Node → Prop
  | .file name _ => IsEntryName name
  | .directory name _ entries => IsEntryName name ∧ WellNamed entries

/-- In each directory the names are different. -/
def WellNamed : List Node → Prop
  | [] => True
  | node :: nodes => WellNamedNode node ∧ (∀ other ∈ nodes, node.name ≠ other.name) ∧ WellNamed nodes

end

variable {selected : Bytes → Bool} {recursive : Bool} {relPath path : Bytes}

theorem WellNamedNode.isEntryName {node : Node} (h : WellNamedNode node) : IsEntryName node.name := by
  cases node with
  | file name known =>
    rw [WellNamedNode] at h
    exact h
  | directory name known entries =>
    rw [WellNamedNode] at h
    exact h.1

theorem child_injective {x y : Bytes} (h : child relPath x = child relPath y) : x = y := by
  rw [child, child] at h
  split_ifs at h
  · exact h
  · exact List.tail_eq_of_cons_eq (List.append_cancel_left h)

theorem child_child {name : Bytes} (h : name ≠ []) (x : Bytes) :
    child (child relPath name) x = child relPath (name ++ slash :: x) := by
  rw [child, if_neg (child_ne_nil h), child, child]
  split_ifs
  · rfl
  · rw [List.append_assoc, List.cons_append]

mutual

/-- The first name in a path is that of the entry. -/
theorem exists_rest (node : Node) {relPath : Bytes} (hnamed : WellNamedNode node)
    (h : path ∈ listingOf selected recursive relPath node) :
    ∃ rest, path = child relPath (node.name ++ rest) ∧ (rest = [] ∨ ∃ more, rest = slash :: more) := by
  match node with
  | .file name known =>
    rw [listingOf] at h
    split_ifs at h
    · exact ⟨[], by rw [List.mem_singleton.mp h, List.append_nil]; rfl, .inl rfl⟩
    · exact absurd h List.not_mem_nil
  | .directory name known entries =>
    rw [listingOf] at h
    rw [WellNamedNode] at hnamed
    split_ifs at h
    · obtain ⟨x, rfl⟩ := exists_child entries hnamed.2 h
      exact ⟨slash :: x, child_child hnamed.1.1 x, .inr ⟨x, rfl⟩⟩
    · exact absurd h List.not_mem_nil

theorem exists_child (nodes : List Node) {relPath : Bytes} (hnamed : WellNamed nodes)
    (h : path ∈ listing selected recursive relPath nodes) : ∃ x, path = child relPath x := by
  match nodes with
  | [] =>
    rw [listing] at h
    exact absurd h List.not_mem_nil
  | node :: nodes =>
    rw [listing, List.mem_append] at h
    rw [WellNamed] at hnamed
    obtain h | h := h
    · obtain ⟨rest, hpath, -⟩ := exists_rest node hnamed.1 h
      exact ⟨node.name ++ rest, hpath⟩
    · exact exists_child nodes hnamed.2.2 h

end

theorem exists_node {nodes : List Node} (hnamed : WellNamed nodes) (h : path ∈ listing selected recursive relPath nodes) :
    ∃ node ∈ nodes, WellNamedNode node ∧ path ∈ listingOf selected recursive relPath node := by
  induction nodes with
  | nil =>
    rw [listing] at h
    exact absurd h List.not_mem_nil
  | cons node nodes ih =>
    rw [listing, List.mem_append] at h
    rw [WellNamed] at hnamed
    obtain h | h := h
    · exact ⟨node, List.mem_cons_self, hnamed.1, h⟩
    · obtain ⟨other, hother, hpath⟩ := ih hnamed.2.2 h
      exact ⟨other, List.mem_cons_of_mem node hother, hpath⟩

/-- A name ends where its path goes on. -/
theorem takeWhile_name {name rest : Bytes} (h : IsEntryName name) (hrest : rest = [] ∨ ∃ more, rest = slash :: more) :
    (name ++ rest).takeWhile (· ≠ slash) = name := by
  obtain rfl | ⟨more, rfl⟩ := hrest
  · rw [List.append_nil, List.takeWhile_eq_self_iff]
    intro c hc
    rw [decide_eq_true_eq]
    rintro rfl
    exact h.2 hc
  · exact takeWhile_cut h.2 more

theorem listing_disjoint {node other : Node} (hnode : WellNamedNode node) (hother : WellNamedNode other)
    (hne : node.name ≠ other.name) (h : path ∈ listingOf selected recursive relPath node) :
    path ∉ listingOf selected recursive relPath other := by
  intro h'
  obtain ⟨rest, hpath, hrest⟩ := exists_rest node hnode h
  obtain ⟨rest', hpath', hrest'⟩ := exists_rest other hother h'
  have heq : node.name ++ rest = other.name ++ rest' := child_injective (hpath.symm.trans hpath')
  apply hne
  calc node.name = (node.name ++ rest).takeWhile (· ≠ slash) := (takeWhile_name hnode.isEntryName hrest).symm
    _ = (other.name ++ rest').takeWhile (· ≠ slash) := by rw [heq]
    _ = other.name := takeWhile_name hother.isEntryName hrest'

mutual

theorem nodup_listingOf (node : Node) {relPath : Bytes} (hnamed : WellNamedNode node) :
    (listingOf selected recursive relPath node).Nodup := by
  match node with
  | .file name known =>
    rw [listingOf]
    split_ifs
    · exact List.nodup_cons.mpr ⟨List.not_mem_nil, List.nodup_nil⟩
    · exact List.nodup_nil
  | .directory name known entries =>
    rw [listingOf]
    rw [WellNamedNode] at hnamed
    split_ifs
    · exact nodup_listing entries hnamed.2
    · exact List.nodup_nil

/-- No path is listed twice. -/
theorem nodup_listing (nodes : List Node) {relPath : Bytes} (hnamed : WellNamed nodes) :
    (listing selected recursive relPath nodes).Nodup := by
  match nodes with
  | [] =>
    rw [listing]
    exact List.nodup_nil
  | node :: nodes =>
    rw [listing]
    rw [WellNamed] at hnamed
    refine List.nodup_append.mpr ⟨nodup_listingOf node hnamed.1, nodup_listing nodes hnamed.2.2, ?_⟩
    rintro path h _ h' rfl
    obtain ⟨other, hother, hwell, hpath⟩ := exists_node hnamed.2.2 h'
    exact listing_disjoint hnamed.1 hwell (hnamed.2.1 other hother) h hpath

end

end Distinct

/-- The iterator lists the files of every tree, call by call, each once, and ends; and it closes what it opens. -/
structure ListsOnce {W : Type} (system : System W) (path : CString) (pattern : Option CString) (recursive : Option Bool) :
    Prop where
  lists : ∀ nodes world, Shows system path.val (recursive.getD false) nodes →
    ∃ s, luaListDirectory system path pattern recursive { world } = (.ok (), s) ∧
      (∀ calls, ∃ t, Calls (iteratorTurn system) s
        (expected ((listing (isSelected system (pattern.elim [] Subtype.val)) (recursive.getD false) [] nodes).map .yields)
          .done calls) t) ∧
      ∀ outcomes t, Calls (iteratorTurn system) s outcomes t → outcomes =
        expected ((listing (isSelected system (pattern.elim [] Subtype.val)) (recursive.getD false) [] nodes).map .yields)
          .done outcomes.length
  once : ∀ nodes, WellNamed nodes →
    (listing (isSelected system (pattern.elim [] Subtype.val)) (recursive.getD false) [] nodes).Nodup
  closes : ∀ world t, History system (luaListDirectory system path pattern recursive { world }).2 t →
    (listDirectoryGC t).closed.Perm (List.range t.opened)

theorem gc_opened {W : Type} (s : Script W) : (listDirectoryGC s).opened = s.opened := by
  rw [listDirectoryGC]
  split <;> rfl

/-- The iterator gives the files of the directory that the pattern selects, or of the whole tree, each exactly once, then
ends and stays at its end; every stream is closed once, however the script goes on and whatever fails. -/
theorem luaListDirectory_listsOnce {W : Type} (system : System W) (path : CString) (pattern : Option CString)
    (recursive : Option Bool) : ListsOnce system path pattern recursive where
  lists := by
    rintro nodes world ⟨hopens, hshows⟩
    obtain ⟨⟨entries, endErrno⟩, world', hopen, hend, hentries⟩ := hopens world
    obtain rfl : endErrno = 0 := hend
    have hstart : luaListDirectory system path pattern recursive { world } =
        (.ok (), standing path.val (pattern.elim [] Subtype.val) (recursive.getD false)
          [{ dir := 0, unread := entries, endErrno := 0, relPath := [] }] { world := world', opened := 1 }) := by
      rw [luaListDirectory, pushDir]
      dsimp only
      rw [if_pos rfl, hopen]
      rfl
    obtain ⟨t, hemits⟩ := emits_nodes nodes { world := world', opened := 1 } hshows hentries
    refine ⟨_, hstart, ?_, ?_⟩
    · exact hemits.calls rfl
    · intro outcomes u hcalls
      obtain ⟨final, hexpected⟩ := hemits.calls rfl outcomes.length
      exact (hcalls.unique hexpected (length_expected _ _).symm).1
  once nodes := nodup_listing nodes
  closes world t hhistory := by
    have howned := gc_owned (hhistory.owned (luaListDirectory_owned world))
    rw [Owned, gc_openStreams, List.append_nil, gc_opened] at howned
    exact howned

/-- `/t` has a file whose type is not known, and a directory with another file. -/
def nested : List Node :=
  [.directory (utf8 "d") true [.file (utf8 "b") true], .file (utf8 "a") false]

def nestedPath : CString := ⟨utf8 "/t", by decide⟩

def nestedSystem : System Unit where
  opendir path w :=
    if path = utf8 "/t" then
      (.ok { entries := { name := utf8 ".", type := .directory } :: nested.map Node.dirent, endErrno := 0 }, w)
    else if path = utf8 "/t/d" then (.ok { entries := [{ name := utf8 "b", type := .other }], endErrno := 0 }, w)
    else (.error 2, w)
  lstat path w := (if path = utf8 "/t/a" then some false else none, w)
  fnmatch _ _ := false
  strerror _ := utf8 "No such file or directory"

theorem History.calls {W : Type} {system : System W} {s t u : Script W} {outcomes : List Outcome}
    (h : History system s t) (hcalls : Calls (iteratorTurn system) t outcomes u) : History system s u := by
  induction hcalls with
  | nil => exact h
  | cons hrun _ ih => exact ih (h.call hrun)

/-- Each file of the tree once, then nothing but the end; the streams of both directories are closed. -/
theorem luaListDirectory_listsOnce_nested : ∃ s t,
    luaListDirectory nestedSystem nestedPath none (some true) { world := () } = (.ok (), s) ∧
      Calls (iteratorTurn nestedSystem) s [.yields (utf8 "d/b"), .yields (utf8 "a"), .done, .done] t ∧
        WellNamed nested ∧ (listDirectoryGC t).closed.Perm (List.range t.opened) := by
  have hlists := luaListDirectory_listsOnce nestedSystem nestedPath none (some true)
  have hfile : ShowsNode nestedSystem (utf8 "/t") true (utf8 "d") (.file (utf8 "b") true) := by
    rw [ShowsNode]
    exact ⟨rfl, fun h => absurd h (by decide)⟩
  have hunknown : ShowsNode nestedSystem (utf8 "/t") true [] (.file (utf8 "a") false) := by
    rw [ShowsNode]
    exact ⟨rfl, fun _ w => rfl⟩
  have hdirectory : ShowsNode nestedSystem (utf8 "/t") true [] (.directory (utf8 "d") true [.file (utf8 "b") true]) := by
    rw [ShowsNode]
    refine ⟨rfl, by decide, fun h => absurd h (by decide), fun _ => ⟨fun w => ⟨_, _, rfl, rfl, rfl⟩, ?_⟩⟩
    rw [ShowsNodes, ShowsNodes]
    exact ⟨hfile, trivial⟩
  have hshows : Shows nestedSystem (utf8 "/t") true nested := by
    refine ⟨fun w => ⟨_, _, rfl, rfl, rfl⟩, ?_⟩
    rw [nested, ShowsNodes, ShowsNodes, ShowsNodes]
    exact ⟨hdirectory, hunknown, trivial⟩
  obtain ⟨s, hstart, hcalls, -⟩ := hlists.lists nested () hshows
  obtain ⟨t, hrun⟩ := hcalls 4
  refine ⟨s, t, hstart, hrun, ?_, hlists.closes () t ?_⟩
  · have hname {name : Bytes} (h : name ≠ [] ∧ slash ∉ name) : IsEntryName name := h
    simp only [nested, WellNamed, WellNamedNode, List.forall_mem_cons, List.not_mem_nil, false_implies, implies_true,
      and_true]
    exact ⟨⟨hname (by decide), hname (by decide)⟩, by decide, hname (by decide)⟩
  · rw [hstart]
    exact History.start.calls hrun

end Kompli.ListDirectory
