import Kompli.AtomicFile.Custody

/-! What each system call does to what is held and to the files. -/
namespace Kompli.AtomicFile
open Foundation

variable {held : List (Nat × Nat)} {F : FileSystem → List Failure → Prop}

theorem Holds.openInode {h : Host} (hh : Holds held F h) (i : Nat) :
    Holds ((h.descriptors.length, i) :: held) F (h.openInode i).2 :=
  ⟨hh.1.openNew i, hh.2⟩

theorem openRoot_call {root : Nat} (hroot : ∀ g failures, F g failures → g.root = root) :
    Call (Holds held F) openRoot (fun fd => Holds ((fd, root) :: held) F) fun _ => Holds held F := by
  refine attempt_call (fun _ _ h => h) fun h hh => ?_
  rw [← hroot h.fs h.failures hh.2]
  exact hh.openInode h.fs.root

/-- What a name that is found refers to. -/
def Finds (g : FileSystem) (d : Nat) (name : Bytes) (i : Nat) (node : Inode) : Prop :=
  g.entries d (cString name) = some i ∧ g.inodes i = some node

theorem Holds.lookup_eq {h : Host} (hh : Holds held F h) {parent d : Nat} (hparent : (parent, d) ∈ held)
    {name : Bytes} {i : Nat} {node : Inode} (hlookup : h.lookup parent name = .ok (i, node)) :
    Finds h.fs d name i node := by
  unfold Host.lookup at hlookup
  rw [hh.inode? hparent] at hlookup
  dsimp only at hlookup
  split at hlookup
  · cases hlookup
  rename_i j hentry
  split at hlookup
  · cases hlookup
  rename_i found hinode
  cases hlookup
  exact ⟨hentry, hinode⟩

theorem Holds.lookup_ok {h : Host} (hh : Holds held F h) {parent d : Nat} (hparent : (parent, d) ∈ held)
    {name : Bytes} {i : Nat} {node : Inode} (hfinds : Finds h.fs d name i node) :
    h.lookup parent name = .ok (i, node) := by
  simp only [Host.lookup, hh.inode? hparent, hfinds.1, hfinds.2]

theorem openat_call {parent d : Nat} (hparent : (parent, d) ∈ held) (name : Bytes) (onlyDirectory : Bool) :
    Call (Holds held F) (openat parent name onlyDirectory)
      (fun fd h => ∃ i node, Finds h.fs d name i node ∧ (onlyDirectory → node.kind = .directory) ∧
        Holds ((fd, i) :: held) F h)
      fun _ => Holds held F := by
  refine attempt_call (fun _ _ h => h) fun h hh => ?_
  cases hlookup : h.lookup parent name with
  | error e => exact hh
  | ok found =>
    obtain ⟨i, node⟩ := found
    dsimp only
    split
    · exact hh
    split
    · exact hh
    · rename_i hkind
      refine ⟨i, node, hh.lookup_eq hparent hlookup, fun honly => ?_, hh.openInode i⟩
      by_contra hne
      exact hkind ⟨honly, hne⟩

theorem fstatat_call {parent d : Nat} (hparent : (parent, d) ∈ held) (name : Bytes) :
    Call (Holds held F) (fstatat parent name)
      (fun st h => (∃ i node, Finds h.fs d name i node ∧ st = stat i node) ∧ Holds held F h)
      fun _ => Holds held F := by
  refine attempt_call (fun _ _ h => h) fun h hh => ?_
  dsimp only
  cases hlookup : h.lookup parent name with
  | error e => exact hh
  | ok found =>
    obtain ⟨i, node⟩ := found
    exact ⟨⟨i, node, hh.lookup_eq hparent hlookup, rfl⟩, hh⟩

theorem fstat_call {fd i : Nat} (hfd : (fd, i) ∈ held) :
    Call (Holds held F) (fstat fd) (fun st h => st.inode = i ∧ Holds held F h) fun _ => Holds held F := by
  refine attempt_call (fun _ _ h => h) fun h hh => ?_
  rw [Host.withInode, hh.inode? hfd]
  dsimp only
  cases h.fs.inodes i with
  | none => exact hh
  | some node => exact ⟨rfl, hh⟩

theorem fsync_call (fd : Nat) :
    Call (Holds held F) (fsync fd) (fun _ => Holds held F) fun _ => Holds held F :=
  attempt_call (fun _ _ h => h) fun _ h => h

theorem close_call (before after : List (Nat × Nat)) (fd i : Nat) :
    Call (Holds (before ++ (fd, i) :: after) F) (close fd) (fun _ => Holds (before ++ after) F)
      fun _ => Holds (before ++ after) F := by
  refine syscall_call fun outcome h hh => ?_
  have hclosed : Holds (before ++ after) F
      { h with descriptors := h.descriptors.modify fd fun d => { d with closes := d.closes + 1 } } :=
    ⟨hh.1.close, hh.2⟩
  cases outcome with
  | fail e => exact hclosed
  | proceed =>
    dsimp only
    split <;> exact hclosed
  | short n =>
    dsimp only
    split <;> exact hclosed

/-! With a temporary file -/

section
variable {fs : FileSystem} {t : Temporary}

abbrev With (fs : FileSystem) (t : Temporary) : FileSystem → List Failure → Prop :=
  fun g _ => Beside fs (some t) g

theorem openExclusive_call (uid gid : Nat) {parent d : Nat} (hparent : (parent, d) ∈ held) (name : Bytes) :
    Call (Holds held fun g _ => Beside fs none g) (openExclusive uid gid parent name)
      (fun fd h => ∃ number,
        Holds ((fd, number) :: held)
          (With fs ⟨d, cString name, number, { uid, gid, permissions := 0o600, attributes := fs.inherited d }⟩) h)
      fun _ => Holds held fun g _ => Beside fs none g := by
  refine attempt_call (fun _ _ h => h) fun h hh => ?_
  rw [Host.withNewName, hh.inode? hparent]
  dsimp only
  split
  · exact hh
  split
  · exact hh
  rename_i hentry
  obtain ⟨howns, hbeside⟩ := hh
  have hentry : fs.entries d (cString name) = none := by
    rw [hbeside.entries] at hentry
    simpa [withTemporary] using hentry
  refine ⟨h.fs.next, howns.openNew _, hbeside.root, fun i node hi => ?_, ?_, hbeside.inherited, ?_, ?_⟩
  · have hne : i ≠ h.fs.next := by
      rintro rfl
      have hfresh := h.fs.fresh h.fs.next (Nat.le_refl _)
      rw [hbeside.inodes _ _ hi] at hfresh
      cases hfresh
    exact (if_neg hne).trans (hbeside.inodes i node hi)
  · funext e n
    simp only [Host.openInode, FileSystem.setEntry, FileSystem.addInode, withTemporary, hbeside.entries]
  · exact Nat.le_succ_of_le hbeside.next
  · rintro t ht
    cases ht
    rw [← hbeside.inherited]
    exact ⟨hentry, fs.fresh _ hbeside.next, if_pos rfl⟩

/-- The new inode can be changed. -/
theorem Beside.modify {g : FileSystem} (h : Beside fs (some t) g) (f : Inode → Inode) :
    Beside fs (some { t with node := f t.node }) (g.modifyInode t.number f) where
  root := h.root
  inodes := by
    intro i node hi
    have hne : i ≠ t.number := by
      rintro rfl
      rw [(h.temporary t rfl).2.1] at hi
      cases hi
    exact (if_neg hne).trans (h.inodes i node hi)
  entries := h.entries
  inherited := h.inherited
  next := h.next
  temporary := by
    rintro _ ⟨⟩
    obtain ⟨hentry, hnew, hnode⟩ := h.temporary t rfl
    refine ⟨hentry, hnew, ?_⟩
    simp only [FileSystem.modifyInode, if_pos, hnode, Option.map_some]

theorem write_call {fd : Nat} (hfd : (fd, t.number) ∈ held) (contents : Bytes) :
    Call (Holds held (With fs t)) (write fd contents)
      (fun n => Holds held
        (With fs { t with node := { t.node with contents := t.node.contents ++ contents.take n } }))
      fun _ => Holds held (With fs t) := by
  refine syscall_call fun outcome h hh => ?_
  have happend (written : Bytes) (n : Nat) (hwritten : written = contents.take written.length) :
      Ends (fun n => Holds held
          (With fs { t with node := { t.node with contents := t.node.contents ++ contents.take n } }))
        (fun _ => Holds held (With fs t))
        (h.withInode fd fun i _ => (.ok written.length,
          h.fs.modifyInode i fun node => { node with contents := node.contents ++ written })).1
        (h.withInode fd fun i _ => (.ok written.length,
          h.fs.modifyInode i fun node => { node with contents := node.contents ++ written })).2 := by
    obtain ⟨-, -, hnode⟩ := hh.2.temporary t rfl
    rw [Host.withInode, hh.inode? hfd]
    dsimp only
    rw [hnode]
    refine ⟨hh.1, ?_⟩
    rw [← hwritten]
    exact hh.2.modify fun node => { node with contents := node.contents ++ written }
  cases outcome with
  | fail e => exact hh
  | short n => exact happend (contents.take n) n (by simp [List.take_eq_take_iff])
  | proceed => exact happend contents 0 (by simp)

theorem changeInode_call {fd : Nat} (hfd : (fd, t.number) ∈ held) (f : Inode → Inode) :
    Call (Holds held (With fs t)) (changeInode fd f)
      (fun _ => Holds held (With fs { t with node := f t.node }))
      fun _ => Holds held (With fs t) := by
  refine attempt_call (fun _ _ h => h) fun h hh => ?_
  obtain ⟨-, -, hnode⟩ := hh.2.temporary t rfl
  rw [Host.withInode, hh.inode? hfd]
  dsimp only
  rw [hnode]
  exact ⟨hh.1, hh.2.modify f⟩

theorem flistxattr_call {fd i : Nat} (hfd : (fd, i) ∈ held) {node : Inode} (hnode : fs.inodes i = some node) :
    Call (Holds held (With fs t)) (flistxattr fd)
      (fun names h => names = node.attributes.nameList ∧ Holds held (With fs t) h)
      fun e => Holds held fun g failures => Beside fs (some t) g ∧ Failure.flistxattr i e ∈ failures := by
  refine syscall_call fun outcome h hh => ?_
  have hlist : (h.withInode fd fun _ node => (.ok node.attributes.nameList, h.fs)) =
      (.ok node.attributes.nameList, h) := by
    rw [Host.withInode, hh.inode? hfd]
    dsimp only
    rw [hh.2.inodes i node hnode]
  cases outcome with
  | proceed =>
    dsimp only
    rw [hlist]
    exact ⟨rfl, hh⟩
  | short n =>
    dsimp only
    rw [hlist]
    exact ⟨rfl, hh⟩
  | fail e =>
    dsimp only
    rw [hh.inode? hfd]
    exact ⟨hh.1, hh.2, List.mem_append_right _ List.mem_cons_self⟩

theorem fgetxattr_call {fd i : Nat} (hfd : (fd, i) ∈ held) {node : Inode} (hnode : fs.inodes i = some node)
    (name : Bytes) :
    Call (Holds held (With fs t)) (fgetxattr fd name)
      (fun value h => node.attributes.values[cString name]? = some value ∧ Holds held (With fs t) h)
      fun _ => Holds held (With fs t) := by
  refine attempt_call (fun _ _ h => h) fun h hh => ?_
  rw [Host.withInode, hh.inode? hfd]
  dsimp only
  rw [hh.2.inodes i node hnode]
  dsimp only
  cases node.attributes.values[cString name]? with
  | none => exact hh
  | some value => exact ⟨rfl, hh⟩

/-- The name of the temporary file refers to it. -/
theorem Beside.finds {g : FileSystem} (h : Beside fs (some t) g) {name : Bytes} (hname : t.name = cString name) :
    Finds g t.directory name t.number t.node := by
  refine ⟨?_, (h.temporary t rfl).2.2⟩
  rw [h.entries, withTemporary, if_pos ⟨rfl, hname.symm⟩]

theorem unlinkat_call {parent : Nat} (hparent : (parent, t.directory) ∈ held) {name : Bytes}
    (hname : t.name = cString name) :
    Call (Holds held (With fs t)) (unlinkat parent name)
      (fun _ => Holds held fun g _ => Beside fs none g)
      fun _ => Holds held fun g failures => Beside fs (some t) g ∧ Failure.unlinkat t.directory t.name ∈ failures := by
  refine syscall_call fun outcome h hh => ?_
  obtain ⟨howns, hbeside⟩ := hh
  obtain ⟨hentry, hnew, hnode⟩ := hbeside.temporary t rfl
  have hfailed : Holds held (fun g failures => Beside fs (some t) g ∧ Failure.unlinkat t.directory t.name ∈ failures)
      { h with failures := h.failures ++ [.unlinkat t.directory (cString name)] } := by
    refine ⟨howns, hbeside, ?_⟩
    rw [hname]
    exact List.mem_append_right _ List.mem_cons_self
  have hremoved : Beside fs none
      ((h.fs.modifyInode t.number fun node => { node with nlink := node.nlink - 1 }).setEntry t.directory
        (cString name) none) := by
    have hmodified := hbeside.modify fun node => { node with nlink := node.nlink - 1 }
    refine ⟨hmodified.root, hmodified.inodes, ?_, hmodified.inherited, hmodified.next, by rintro _ ⟨⟩⟩
    funext e n
    by_cases hat : e = t.directory ∧ n = t.name
    · simp only [FileSystem.setEntry, withTemporary, ← hname, hat, and_self, if_true, hentry]
    · simp only [FileSystem.setEntry, withTemporary, ← hname, if_neg hat, hmodified.entries]
  rw [Holds.inode? ⟨howns, hbeside⟩ hparent]
  cases outcome with
  | fail e => exact hfailed
  | proceed =>
    dsimp only
    rw [(hbeside.finds hname).1]
    exact ⟨howns, hremoved⟩
  | short n =>
    dsimp only
    rw [(hbeside.finds hname).1]
    exact ⟨howns, hremoved⟩

/-- The temporary file has a second name, under which nothing was. -/
structure Linked (fs : FileSystem) (t : Temporary) (target : Bytes) (g : FileSystem) : Prop where
  inodes : ∀ (i : Nat) (node : Inode), fs.inodes i = some node → g.inodes i = some node
  entries : g.entries = fun e n =>
    if e = t.directory ∧ n = target then some t.number else withTemporary fs.entries (some t) e n
  absent : fs.entries t.directory target = none
  ne : target ≠ t.name
  new : fs.inodes t.number = none
  node : g.inodes t.number = some { t.node with nlink := t.node.nlink + 1 }

theorem linkat_call {parent : Nat} (hparent : (parent, t.directory) ∈ held) {old : Bytes}
    (hname : t.name = cString old) (new : Bytes) :
    Call (Holds held (With fs t)) (linkat parent old new)
      (fun _ => Holds held fun g _ => Linked fs t (cString new) g)
      fun _ => Holds held (With fs t) := by
  refine attempt_call (fun _ _ h => h) fun h hh => ?_
  rw [hh.lookup_ok hparent (hh.2.finds hname)]
  dsimp only
  rw [Host.withNewName, hh.inode? hparent]
  dsimp only
  split
  · exact hh
  split
  · exact hh
  rename_i hentry
  obtain ⟨howns, hbeside⟩ := hh
  obtain ⟨-, hnew, hnode⟩ := hbeside.temporary t rfl
  have hmodified := hbeside.modify fun node => { node with nlink := node.nlink + 1 }
  rw [hbeside.entries, withTemporary, Option.not_isSome_iff_eq_none] at hentry
  have hne : ¬ cString new = t.name := by
    intro heq
    rw [if_pos ⟨rfl, heq⟩] at hentry
    cases hentry
  rw [if_neg fun h => hne h.2] at hentry
  refine ⟨howns, hmodified.inodes, ?_, hentry, hne, hnew, ?_⟩
  · funext e n
    simp only [FileSystem.setEntry, hmodified.entries]
    rfl
  · exact (hmodified.temporary _ rfl).2.2

/-- The file that the temporary one replaces, and what is left of it. -/
structure Renamed (fs : FileSystem) (t : Temporary) (target : Bytes) (g : FileSystem) : Prop where
  inodes : ∀ (i : Nat) (node : Inode), fs.inodes i = some node → fs.entries t.directory target ≠ some i →
    g.inodes i = some node
  entries : g.entries = fun e n => if e = t.directory ∧ n = target then some t.number else fs.entries e n
  new : fs.inodes t.number = none
  node : g.inodes t.number = some t.node

theorem renameat_call {parent : Nat} (hparent : (parent, t.directory) ∈ held) {old : Bytes}
    (hname : t.name = cString old) {new : Bytes} {i : Nat} {node : Inode} (hfinds : Finds fs t.directory new i node)
    (K : List Failure → Prop) :
    Call (Holds held fun g failures => Beside fs (some t) g ∧ K failures) (renameat parent old new)
      (fun _ => Holds held fun g failures => Renamed fs t (cString new) g ∧ K failures)
      fun _ => Holds held fun g failures => Beside fs (some t) g ∧ K failures := by
  refine attempt_call (fun _ _ h => h) fun h hh => ?_
  rw [hh.inode? hparent, hh.lookup_ok hparent (hh.2.1.finds hname)]
  dsimp only
  split
  · exact hh
  obtain ⟨howns, hbeside, hfailures⟩ := hh
  obtain ⟨hentry, hnew, hnode⟩ := hbeside.temporary t rfl
  have hne : ¬ cString new = t.name := by
    intro heq
    rw [← heq, hfinds.1] at hentry
    cases hentry
  have hreplaced : h.fs.entries t.directory (cString new) = some i := by
    rw [hbeside.entries, withTemporary, if_neg fun h => hne h.2]
    exact hfinds.1
  rw [hreplaced]
  refine ⟨howns, ⟨fun j other hj hother => ?_, ?_, hnew, ?_⟩, hfailures⟩
  · have hji : j ≠ i := by
      rintro rfl
      exact hother hfinds.1
    exact (if_neg hji).trans (hbeside.inodes j other hj)
  · funext e n
    by_cases htarget : e = t.directory ∧ n = cString new
    · simp only [FileSystem.setEntry, htarget, and_self, if_true]
    · simp only [FileSystem.setEntry, FileSystem.modifyInode, if_neg htarget, hbeside.entries, withTemporary,
        ← hname]
      split
      · rename_i hat
        rw [hat.1, hat.2, hentry]
      · rfl
  · have hti : t.number ≠ i := by
      intro heq
      rw [heq, hfinds.2] at hnew
      cases hnew
    exact (if_neg hti).trans hnode

end
end Kompli.AtomicFile
