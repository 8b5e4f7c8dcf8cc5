import Kompli.AtomicFile.Functions

/-! Replacing and creating a file is all or nothing. -/
namespace Kompli.AtomicFile
open Foundation

/-- A run that starts with nothing open. -/
def runOn {α : Type} (m : SysM α) (fs : FileSystem) (script : List Outcome) (sequence : UInt64) :
    Except Error α × Host :=
  match m { host := { fs }, script, sequence } with
  | .ok a w => (.ok a, w.host)
  | .error e w => (.error e, w.host)

def IsTemporaryName (process : Process) (name : Bytes) : Prop :=
  ∃ sequence, name = cString (temporaryName process sequence)

/-- Every name refers to what it did, and that is as it was; there may be a temporary file
more whose unlinking failed. -/
structure Unchanged (process : Process) (fs : FileSystem) (g : FileSystem)
    (failures : List Failure) : Prop where
  inodes : ∀ (i : Nat) (node : Inode), fs.inodes i = some node → g.inodes i = some node
  kept : ∀ (d : Nat) (name : Bytes) (i : Nat), fs.entries d name = some i → g.entries d name = some i
  absent : ∀ (d : Nat) (name : Bytes), fs.entries d name = none →
    g.entries d name = none ∨ IsTemporaryName process name ∧ Failure.unlinkat d name ∈ failures

/-- The path's name refers to a new inode, which is as the original one but for the contents, and for the attributes
that it inherited. -/
structure Replaced (fs : FileSystem) (path contents : Bytes) (g : FileSystem) (failures : List Failure) (d : Nat)
    (name : Bytes) (i number : Nat) (original : Inode) (attributes : ExtendedAttributes) : Prop where
  resolved : fs.resolve path = some (d, name)
  finds : fs.entries d name = some i ∧ fs.inodes i = some original
  new : fs.inodes number = none
  entries : g.entries = fun e n => if e = d ∧ n = name then some number else fs.entries e n
  node : g.inodes number = some { original with contents, attributes }
  copied : original.attributes.CopiedOver (fs.inherited d) i attributes failures
  others : ∀ (j : Nat) (node : Inode), fs.inodes j = some node → j ≠ i → g.inodes j = some node

/-- The path's name, which was free, refers to a new inode. -/
structure Created (process : Process) (fs : FileSystem) (path contents : Bytes) (permissions : BitVec 12)
    (g : FileSystem) (failures : List Failure) (d : Nat) (name : Bytes) (number : Nat)
    (made : Inode) : Prop where
  resolved : fs.resolve path = some (d, name)
  free : fs.entries d name = none
  new : fs.inodes number = none
  entry : g.entries d name = some number
  inode : g.inodes number = some made
  regular : made.kind = .regular
  contents : made.contents = contents
  permissions : made.permissions = permissions
  attributes : made.attributes = fs.inherited d
  inodes : ∀ (j : Nat) (other : Inode), fs.inodes j = some other → g.inodes j = some other
  others : ∀ (e : Nat) (n : Bytes), ¬ (e = d ∧ n = name) → g.entries e n = fs.entries e n ∨
    fs.entries e n = none ∧ IsTemporaryName process n ∧ Failure.unlinkat e n ∈ failures

def ClosedOnce (h : Host) : Prop := ∀ d ∈ h.descriptors, d.closes = 1

variable {process : Process} {fs : FileSystem} {F : FileSystem → List Failure → Prop} {t : Temporary}

theorem Holds.closedOnce {h : Host} (hh : Holds [] F h) : ClosedOnce h := by
  intro d hd
  obtain ⟨fd, hfd⟩ := List.mem_iff_getElem?.mp hd
  exact (hh.1.closed fd d hfd).resolve_left List.not_mem_nil

theorem Beside.unchanged_none {g : FileSystem} (h : Beside fs none g) (failures : List Failure) :
    Unchanged process fs g failures := by
  refine ⟨h.inodes, fun d name i hi => ?_, fun d name hnone => .inl ?_⟩
  · rw [h.entries]
    exact hi
  · rw [h.entries]
    exact hnone

theorem Beside.unchanged_some {g : FileSystem} (h : Beside fs (some t) g) {failures : List Failure}
    (hname : IsTemporaryName process t.name) (hfailed : Failure.unlinkat t.directory t.name ∈ failures) :
    Unchanged process fs g failures := by
  refine ⟨h.inodes, fun d name i hi => ?_, fun d name hnone => ?_⟩
  · rw [h.entries, withTemporary, if_neg]
    · exact hi
    · rintro ⟨rfl, rfl⟩
      rw [(h.temporary t rfl).1] at hi
      cases hi
  · rw [h.entries, withTemporary]
    split
    · rename_i hat
      rw [hat.1, hat.2]
      exact .inr ⟨hname, hfailed⟩
    · exact .inl hnone

theorem closeAll_spec {E : Host → Prop} (descriptors rest : List (Nat × Nat)) :
    Spec (Holds (descriptors ++ rest) F)
      ((descriptors.map Prod.fst).forM fun descriptor => do
        let _ ← close descriptor)
      (fun _ => Holds rest F) E := by
  induction descriptors with
  | nil => exact Spec.pure fun _ h => h
  | cons x descriptors ih =>
    have hclose := close_call (F := F) [] (descriptors ++ rest) x.1 x.2
    refine Spec.bind (Q := fun _ => Holds (descriptors ++ rest) F) ?_ fun _ => ih
    exact Spec.bindCall hclose (fun _ => Spec.pure fun _ h => h) fun _ => Spec.pure fun _ h => h

theorem closeParent_spec {α : Type} {Q : α → Host → Prop} (parent d : Nat) (e : Error) :
    Spec (Holds [(parent, d)] F)
      (do
        let _ ← close parent
        throw e)
      Q (Holds [] F) :=
  Spec.bindCall (close_call [] [] parent d) (fun _ => Spec.throw fun _ h => h) fun _ => Spec.throw fun _ h => h

/-- Giving up before there is a temporary file. -/
theorem abandon_spec {α : Type} {Q : α → Host → Prop} (descriptors : List (Nat × Nat)) (parent d : Nat)
    (e : Error) :
    Spec (Holds (descriptors ++ [(parent, d)]) F) (abandon (descriptors.map Prod.fst) none parent e) Q
      (Holds [] F) :=
  Spec.bind (closeAll_spec descriptors [(parent, d)]) fun _ => closeParent_spec parent d e

/-- Giving up a temporary file. -/
theorem abandonTemporary_spec {α : Type} {Q : α → Host → Prop} (descriptors : List (Nat × Nat)) (parent : Nat)
    {name : Bytes} (hname : t.name = cString name) (htemporary : IsTemporaryName process t.name) (e : Error) :
    Spec (Holds (descriptors ++ [(parent, t.directory)]) (Scratch fs t))
      (abandon (descriptors.map Prod.fst) (some name) parent e) Q (Holds [] (Unchanged process fs)) := by
  refine Spec.bind (closeAll_spec descriptors [(parent, t.directory)]) fun _ => ?_
  have hunlink (node : Inode) : Spec (Holds [(parent, t.directory)] (With fs { t with node }))
      (unlinkTemporary parent (some name))
      (fun _ => Holds [(parent, t.directory)] (Unchanged process fs)) (Holds [] (Unchanged process fs)) := by
    have hcall := @unlinkat_call [(parent, t.directory)] fs { t with node } parent List.mem_cons_self name hname
    refine Spec.bindCall hcall (fun _ => Spec.pure fun _ h => ?_) fun _ => Spec.pure fun _ h => ?_
    · exact ⟨h.1, h.2.unchanged_none _⟩
    · exact ⟨h.1, h.2.1.unchanged_some htemporary h.2.2⟩
  refine Spec.bind ?_ fun _ => closeParent_spec parent t.directory e
  intro w ⟨howns, node, hbeside⟩
  exact hunlink node w ⟨howns, hbeside⟩

/-- `fstatat` before anything was changed. -/
theorem fstatat_same {held : List (Nat × Nat)} {parent d : Nat} (hparent : (parent, d) ∈ held) (name : Bytes) :
    Call (Holds held (Same fs)) (fstatat parent name)
      (fun st h => (∃ i node, Finds fs d name i node ∧ st = stat i node) ∧ Holds held (Same fs) h)
      fun _ => Holds held (Same fs) := by
  intro E
  refine Spec.mono (fstatat_call hparent name E) (fun _ h => h) (fun r h hr => ?_) fun _ h => h
  cases r with
  | error e => exact hr
  | ok st =>
    obtain ⟨⟨i, node, hfinds, hst⟩, hh⟩ := hr
    rw [hh.2] at hfinds
    exact ⟨⟨i, node, hfinds, hst⟩, hh⟩

section
variable {parent source temporary i : Nat} {tname : Bytes} {node : Inode}

/-- A copy of the original one but for the contents, with the attributes that it has by now. -/
def Temporary.filled (t : Temporary) (contents : Bytes) (original : FileStat) (attributes : ExtendedAttributes) :
    Temporary :=
  { t with node := { t.node with
    contents := t.node.contents ++ contents, uid := original.uid, gid := original.gid,
    permissions := original.permissions, attributes } }

/-- The temporary file becomes a copy of the original one but for the contents. -/
theorem fillReplacement_spec (hname : t.name = cString tname) (htemporary : IsTemporaryName process t.name)
    (hnode : fs.inodes i = some node) (path contents : Bytes) (original : FileStat) :
    Spec (Holds [(temporary, t.number), (source, i), (parent, t.directory)] (With fs t))
      (fillReplacement process path contents parent source temporary tname original)
      (fun _ h => ∃ attributes, Holds [(temporary, t.number), (source, i), (parent, t.directory)]
        (fun g failures => Beside fs (some (t.filled contents original attributes)) g ∧
          node.attributes.CopiedOver t.node.attributes i attributes failures) h)
      (Holds [] (Unchanged process fs)) := by
  have giveUp {α : Type} {Q : α → Host → Prop} (e : Error) :
      Spec (Holds [(temporary, t.number), (source, i), (parent, t.directory)] (Scratch fs t))
        (abandon [temporary, source] (some tname) parent e) Q (Holds [] (Unchanged process fs)) :=
    abandonTemporary_spec [(temporary, t.number), (source, i)] parent hname htemporary e
  have giveUpWith {α : Type} {Q : α → Host → Prop} (node : Inode) (e : Error) :
      Spec (Holds [(temporary, t.number), (source, i), (parent, t.directory)] (With fs { t with node }))
        (abandon [temporary, source] (some tname) parent e) Q (Holds [] (Unchanged process fs)) :=
    Spec.mono (giveUp e) (fun _ h => ⟨h.1, node, h.2⟩) (fun _ _ h => h) fun _ h => h
  let written : Inode := { t.node with contents := t.node.contents ++ contents }
  let owned : Inode := { written with uid := original.uid, gid := original.gid }
  let permitted : Inode := { owned with permissions := original.permissions }
  unfold fillReplacement
  refine Spec.bind (Spec.orHandle (writeContents_spec List.mem_cons_self path contents) fun e => giveUp _)
    fun _ => ?_
  refine Spec.bind (Spec.orElse (changeInode_call (t := { t with node := written }) List.mem_cons_self _)
    fun e => giveUpWith written _) fun _ => ?_
  refine Spec.bind (Spec.orElse (changeInode_call (t := { t with node := owned }) List.mem_cons_self _)
    fun e => giveUpWith owned _) fun _ => ?_
  refine Spec.bind (Spec.orHandle (copyExtendedAttributes_spec (t := { t with node := permitted })
    (List.mem_cons_of_mem _ List.mem_cons_self) hnode List.mem_cons_self path) fun e => giveUp _) fun _ => ?_
  refine Spec.of_exists fun attributes => ?_
  refine Spec.mono (Spec.orElse (fsync_call temporary) fun e => ?_) (fun _ h => h) (fun _ _ h => ⟨attributes, h⟩)
    fun _ h => h
  exact Spec.mono (giveUpWith { permitted with attributes } _) (fun _ h => ⟨h.1, h.2.1⟩) (fun _ _ h => h) fun _ h => h

theorem installReplacement_spec (hname : t.name = cString tname) (htemporary : IsTemporaryName process t.name)
    {name : Bytes} (hfinds : Finds fs t.directory name i node) (K : List Failure → Prop) (path : Bytes)
    (original : FileStat) :
    Spec (Holds [(temporary, t.number), (source, i), (parent, t.directory)]
        fun g failures => Beside fs (some t) g ∧ K failures)
      (installReplacement process path name parent source temporary tname original)
      (fun _ => Holds [] fun g failures => Renamed fs t (cString name) g ∧ K failures)
      (Holds [] (Unchanged process fs)) := by
  have giveUp {α : Type} {Q : α → Host → Prop} (descriptors : List (Nat × Nat)) (e : Error) :
      Spec (Holds (descriptors ++ [(parent, t.directory)]) fun g failures => Beside fs (some t) g ∧ K failures)
        (abandon (descriptors.map Prod.fst) (some tname) parent e) Q (Holds [] (Unchanged process fs)) :=
    Spec.mono (abandonTemporary_spec descriptors parent hname htemporary e) (fun _ h => ⟨h.1, t.node, h.2.1⟩)
      (fun _ _ h => h) fun _ h => h
  unfold installReplacement
  refine Spec.bind (Spec.orElse
    (close_call [(temporary, t.number)] [(parent, t.directory)] source i) fun e => ?_) fun _ => ?_
  · exact giveUp [(temporary, t.number)] _
  refine Spec.bind (Spec.orElse
    (close_call [] [(parent, t.directory)] temporary t.number) fun e => ?_) fun _ => ?_
  · exact giveUp [] _
  refine Spec.bind (Spec.orElse (fstatat_call List.mem_cons_self name) fun e => giveUp [] _) fun current => ?_
  refine Spec.mono (P := Holds [(parent, t.directory)] fun g failures => Beside fs (some t) g ∧ K failures) ?_
    (fun _ h => h.2) (fun _ _ h => h) fun _ h => h
  split
  · exact giveUp [] _
  refine Spec.bind (Spec.orElse (renameat_call List.mem_cons_self hname hfinds K) fun e => giveUp [] _) fun _ => ?_
  exact Spec.bindCall (close_call [] [] parent t.directory) (fun _ => Spec.pure fun _ h => h)
    fun _ => Spec.pure fun _ h => h

end

theorem replaceFileContentsAtomic_spec (path contents : Bytes) :
    Spec (Holds [] (Same fs)) (replaceFileContentsAtomic process path contents)
      (fun _ h => (∃ d name i number original attributes,
        Replaced fs path contents h.fs h.failures d name i number original attributes) ∧ ClosedOnce h)
      (Holds [] (Unchanged process fs)) := by
  have hsame (h : Host) (hh : Holds [] (Same fs) h) : Holds [] (Unchanged process fs) h := by
    refine ⟨hh.1, ?_⟩
    rw [hh.2]
    exact (Beside.refl fs).unchanged_none _
  unfold replaceFileContentsAtomic
  refine Spec.bind (Spec.mono (resolveParentNoFollow_spec path) (fun _ h => h) (fun _ _ h => h) hsame) ?_
  rintro ⟨parent, name⟩
  dsimp only
  refine Spec.of_exists fun d => Spec.of_and fun hresolved => ?_
  have giveUp {α : Type} {Q : α → Host → Prop} (e : Error) :
      Spec (Holds [(parent, d)] (Same fs)) (abandon [] none parent e) Q (Holds [] (Unchanged process fs)) :=
    Spec.mono (abandon_spec [] parent d e) (fun _ h => h) (fun _ _ h => h) hsame
  refine Spec.bind (Spec.orElse (fstatat_same List.mem_cons_self name) fun e => giveUp _) fun st => ?_
  refine Spec.of_and fun ⟨i, original, hfinds, hst⟩ => ?_
  split
  · exact giveUp _
  rename_i hregular
  split
  · exact giveUp _
  rename_i hnlink
  rw [not_not, hst] at hregular hnlink
  refine Spec.bind (Spec.orElse (openat_call List.mem_cons_self name false) fun e => giveUp _) fun source => ?_
  refine Spec.of_exists fun j => Spec.of_exists fun opened => ?_
  refine Spec.mono (P := Holds [(source, j), (parent, d)] (Same fs)) ?_ (fun _ h => h.2.2) (fun _ _ h => h)
    fun _ h => h
  have giveUpSource {α : Type} {Q : α → Host → Prop} (e : Error) :
      Spec (Holds [(source, j), (parent, d)] (Same fs)) (abandon [source] none parent e) Q
        (Holds [] (Unchanged process fs)) :=
    Spec.mono (abandon_spec [(source, j)] parent d e) (fun _ h => h) (fun _ _ h => h) hsame
  refine Spec.bind (Spec.orElse (fstat_call List.mem_cons_self) fun e => giveUpSource _) fun opened => ?_
  refine Spec.of_and fun hopened => ?_
  split
  · exact giveUpSource _
  rename_i hinode
  rw [not_not, hst, hopened] at hinode
  obtain rfl : i = j := hinode.symm
  have hbeside (h : Host) (hh : Holds [(source, i), (parent, d)] (Same fs) h) :
      Holds [(source, i), (parent, d)] (fun g _ => Beside fs none g) h := by
    refine ⟨hh.1, ?_⟩
    rw [hh.2]
    exact Beside.refl fs
  have hcreate : Spec (Holds [(source, i), (parent, d)] fun g _ => Beside fs none g)
      (createTemporaryFile process parent path 100) _ _ :=
    createTemporaryFile_spec (List.mem_cons_of_mem _ List.mem_cons_self) path 100
  refine Spec.bind (Spec.orHandle (Spec.mono hcreate hbeside (fun _ _ h => h) fun _ h => h) fun e => ?_) ?_
  · refine Spec.mono (abandon_spec [(source, i)] parent d e) (fun _ h => h) (fun _ _ h => h) fun h hh => ?_
    exact ⟨hh.1, hh.2.unchanged_none _⟩
  rintro ⟨temporary, temporaryName⟩
  dsimp only
  refine Spec.of_exists fun number => Spec.of_exists fun sequence => Spec.of_and fun htname => ?_
  have htemporary : IsTemporaryName process (cString temporaryName) := ⟨sequence, by rw [htname]⟩
  let t : Temporary := ⟨d, cString temporaryName, number,
    { uid := process.uid, gid := process.gid, permissions := 0o600, attributes := fs.inherited d }⟩
  refine Spec.bind (fillReplacement_spec (t := t) rfl htemporary hfinds.2 path contents st) fun _ => ?_
  refine Spec.of_exists fun attributes => ?_
  refine Spec.mono (installReplacement_spec (t := t.filled contents st attributes) rfl htemporary hfinds
    (original.attributes.CopiedOver (fs.inherited d) i attributes) path st)
    (fun _ h => h) (fun _ h hh => ?_) fun _ h => h
  obtain ⟨howns, hrenamed, hcopied⟩ := hh
  refine ⟨⟨d, cString name, i, number, original, attributes, hresolved, hfinds, hrenamed.new, hrenamed.entries, ?_,
    hcopied, ?_⟩, Holds.closedOnce (F := fun _ _ => True) ⟨howns, trivial⟩⟩
  · have hfilled : (t.filled contents st attributes).node = { original with contents, attributes } := by
      subst hst
      obtain ⟨kind, old, uid, gid, permissions, nlink, _⟩ := original
      obtain rfl : kind = .regular := hregular
      obtain rfl : nlink = 1 := hnlink
      rfl
    rw [← hfilled]
    exact hrenamed.node
  · intro j other hj hne
    exact hrenamed.inodes j other hj fun heq => hne (Option.some.inj (heq.symm.trans hfinds.1))

section
variable {parent temporary : Nat} {tname : Bytes}

theorem fillNew_spec (hname : t.name = cString tname) (htemporary : IsTemporaryName process t.name)
    (path contents : Bytes) (mode : Nat) :
    Spec (Holds [(temporary, t.number), (parent, t.directory)] (With fs t))
      (fillNew process path contents mode parent temporary tname)
      (fun _ => Holds [(parent, t.directory)]
        (With fs { t with node := { t.node with
          contents := t.node.contents ++ contents, permissions := BitVec.ofNat 12 mode } }))
      (Holds [] (Unchanged process fs)) := by
  have giveUp {α : Type} {Q : α → Host → Prop} (descriptors : List (Nat × Nat)) (e : Error) :
      Spec (Holds (descriptors ++ [(parent, t.directory)]) (Scratch fs t))
        (abandon (descriptors.map Prod.fst) (some tname) parent e) Q (Holds [] (Unchanged process fs)) :=
    abandonTemporary_spec descriptors parent hname htemporary e
  have giveUpWith {α : Type} {Q : α → Host → Prop} (descriptors : List (Nat × Nat)) (node : Inode) (e : Error) :
      Spec (Holds (descriptors ++ [(parent, t.directory)]) (With fs { t with node }))
        (abandon (descriptors.map Prod.fst) (some tname) parent e) Q (Holds [] (Unchanged process fs)) :=
    Spec.mono (giveUp descriptors e) (fun _ h => ⟨h.1, node, h.2⟩) (fun _ _ h => h) fun _ h => h
  let permitted : Inode := { t.node with permissions := BitVec.ofNat 12 mode }
  let written : Inode := { permitted with contents := t.node.contents ++ contents }
  unfold fillNew
  refine Spec.bind (Spec.orElse (changeInode_call List.mem_cons_self _)
    fun e => giveUpWith [(temporary, t.number)] t.node _) fun _ => ?_
  refine Spec.bind (Spec.orHandle (writeContents_spec (t := { t with node := permitted }) List.mem_cons_self
    path contents) fun e => giveUp [(temporary, t.number)] _) fun _ => ?_
  refine Spec.bind (Spec.orElse (fsync_call temporary) fun e => giveUpWith [(temporary, t.number)] written _)
    fun _ => ?_
  refine Spec.bind (Spec.orElse (close_call [] [(parent, t.directory)] temporary t.number)
    fun e => giveUpWith [] written _) fun _ => ?_
  refine Spec.orElse ?_ fun e => giveUpWith [] written _
  intro E
  refine Spec.mono (fstatat_call List.mem_cons_self tname E) (fun _ h => h) (fun r h hr => ?_) fun _ h => h
  cases r with
  | ok st => exact hr.2
  | error e => exact hr

/-- After the link, whether the temporary name can be removed or not. -/
theorem unlinkat_linked (parent : Nat) (hname : t.name = cString tname)
    (htemporary : IsTemporaryName process t.name) {path : Bytes} {target : Bytes}
    (hresolved : fs.resolve path = some (t.directory, target)) (hregular : t.node.kind = .regular)
    (hattributes : t.node.attributes = fs.inherited t.directory) (hnone : fs.entries t.directory t.name = none) :
    Call (Holds [(parent, t.directory)] fun g _ => Linked fs t target g) (unlinkat parent tname)
      (fun _ => Holds [(parent, t.directory)] fun g failures => ∃ made,
        Created process fs path t.node.contents t.node.permissions g failures t.directory target t.number made)
      fun _ => Holds [(parent, t.directory)] fun g failures => ∃ made,
        Created process fs path t.node.contents t.node.permissions g failures t.directory target t.number made := by
  refine syscall_call fun outcome h hh => ?_
  obtain ⟨howns, hlinked⟩ := hh
  have hother (e : Nat) (n : Bytes) (hne : ¬ (e = t.directory ∧ n = target)) :
      h.fs.entries e n = withTemporary fs.entries (some t) e n := by
    rw [hlinked.entries]
    exact if_neg hne
  have htarget : h.fs.entries t.directory target = some t.number := by
    rw [hlinked.entries]
    exact if_pos ⟨rfl, rfl⟩
  have hfailed : Created process fs path t.node.contents t.node.permissions h.fs
      (h.failures ++ [.unlinkat t.directory (cString tname)]) t.directory target t.number
      { t.node with nlink := t.node.nlink + 1 } := by
    refine ⟨hresolved, hlinked.absent, hlinked.new, htarget, hlinked.node, hregular, rfl, rfl, hattributes,
      hlinked.inodes, fun e n hne => ?_⟩
    rw [hother e n hne, withTemporary]
    split
    · rename_i hat
      rw [hat.1, hat.2]
      refine .inr ⟨hnone, htemporary, List.mem_append_right _ ?_⟩
      rw [hname]
      exact List.mem_cons_self
    · exact .inl rfl
  have hentry : h.fs.entries t.directory (cString tname) = some t.number := by
    rw [← hname, hother t.directory t.name fun hat => hlinked.ne hat.2.symm, withTemporary, if_pos ⟨rfl, rfl⟩]
  have hremoved : Created process fs path t.node.contents t.node.permissions
      ((h.fs.modifyInode t.number fun node => { node with nlink := node.nlink - 1 }).setEntry t.directory
        (cString tname) none)
      h.failures t.directory target t.number { t.node with nlink := t.node.nlink + 1 - 1 } := by
    refine ⟨hresolved, hlinked.absent, hlinked.new, ?_, ?_, hregular, rfl, rfl, hattributes, fun j node hj => ?_, ?_⟩
    · exact (if_neg fun hat => hlinked.ne (hat.2.trans hname.symm)).trans htarget
    · simp only [FileSystem.setEntry, FileSystem.modifyInode, if_true, hlinked.node, Option.map_some]
    · have hne : j ≠ t.number := by
        rintro rfl
        rw [hlinked.new] at hj
        cases hj
      exact (if_neg hne).trans (hlinked.inodes j node hj)
    · intro e n hne
      left
      simp only [FileSystem.setEntry, FileSystem.modifyInode, hother e n hne, withTemporary, ← hname]
      split
      · rename_i hat
        rw [hat.1, hat.2, hnone]
      · rfl
  rw [Holds.inode? (F := fun g _ => Linked fs t target g) ⟨howns, hlinked⟩ List.mem_cons_self]
  cases outcome with
  | fail e => exact ⟨howns, _, hfailed⟩
  | proceed =>
    dsimp only
    rw [hentry]
    exact ⟨howns, _, hremoved⟩
  | short n =>
    dsimp only
    rw [hentry]
    exact ⟨howns, _, hremoved⟩

theorem installNew_spec (hname : t.name = cString tname) (htemporary : IsTemporaryName process t.name)
    {path name : Bytes} (hresolved : fs.resolve path = some (t.directory, cString name))
    (hregular : t.node.kind = .regular) (hattributes : t.node.attributes = fs.inherited t.directory)
    (created : FileStat) :
    Spec (Holds [(parent, t.directory)] (With fs t))
      (installNew process path name parent tname created)
      (fun _ => Holds [] fun g failures => ∃ made, Created process fs path t.node.contents t.node.permissions
        g failures t.directory (cString name) t.number made)
      (Holds [] (Unchanged process fs)) := by
  have giveUp {α : Type} {Q : α → Host → Prop} (e : Error) :
      Spec (Holds [(parent, t.directory)] (With fs t)) (abandon [] (some tname) parent e) Q
        (Holds [] (Unchanged process fs)) :=
    Spec.mono (abandonTemporary_spec [] parent hname htemporary e) (fun _ h => h.scratch) (fun _ _ h => h)
      fun _ h => h
  unfold installNew
  refine Spec.bindCall (fstatat_call List.mem_cons_self name) (fun st => ?_) fun status => ?_
  · exact Spec.mono (giveUp _) (fun _ h => h.2) (fun _ _ h => h) fun _ h => h
  dsimp only
  split
  · exact giveUp _
  -- that the temporary name was free is known as long as the temporary file is there
  have hlink : Call (Holds [(parent, t.directory)] (With fs t)) (linkat parent tname name) _ _ :=
    linkat_call List.mem_cons_self hname name
  intro w hw
  have hnone := (hw.2.temporary t rfl).1
  have hunlink := unlinkat_linked parent hname htemporary hresolved hregular hattributes hnone
  refine Spec.bind (Spec.orElse hlink fun e => giveUp _) (fun _ => ?_) w hw
  have hclose := close_call (F := fun g failures => ∃ made, Created process fs path t.node.contents
    t.node.permissions g failures t.directory (cString name) t.number made) [] [] parent t.directory
  refine Spec.bindCall hunlink (fun _ => ?_) fun _ => ?_
  · exact Spec.bindCall hclose (fun _ => Spec.pure fun _ h => h) fun _ => Spec.pure fun _ h => h
  · exact Spec.bindCall hclose (fun _ => Spec.pure fun _ h => h) fun _ => Spec.pure fun _ h => h

end

theorem createFileContentsAtomic_spec (path contents : Bytes) (mode : Nat) :
    Spec (Holds [] (Same fs)) (createFileContentsAtomic process path contents mode)
      (fun _ h => (∃ d name number made, Created process fs path contents (BitVec.ofNat 12 mode) h.fs
        h.failures d name number made) ∧ ClosedOnce h)
      (Holds [] (Unchanged process fs)) := by
  have hsame (h : Host) (hh : Holds [] (Same fs) h) : Holds [] (Unchanged process fs) h := by
    refine ⟨hh.1, ?_⟩
    rw [hh.2]
    exact (Beside.refl fs).unchanged_none _
  unfold createFileContentsAtomic
  refine Spec.bind (Spec.mono (resolveParentNoFollow_spec path) (fun _ h => h) (fun _ _ h => h) hsame) ?_
  rintro ⟨parent, name⟩
  dsimp only
  refine Spec.of_exists fun d => Spec.of_and fun hresolved => ?_
  have giveUp {α : Type} {Q : α → Host → Prop} (e : Error) :
      Spec (Holds [(parent, d)] (Same fs)) (abandon [] none parent e) Q (Holds [] (Unchanged process fs)) :=
    Spec.mono (abandon_spec [] parent d e) (fun _ h => h) (fun _ _ h => h) hsame
  refine Spec.bindCall (fstatat_same List.mem_cons_self name) (fun st => ?_) fun status => ?_
  · exact Spec.of_and fun _ => giveUp _
  dsimp only
  split
  · exact giveUp _
  have hbeside (h : Host) (hh : Holds [(parent, d)] (Same fs) h) :
      Holds [(parent, d)] (fun g _ => Beside fs none g) h := by
    refine ⟨hh.1, ?_⟩
    rw [hh.2]
    exact Beside.refl fs
  have hcreate : Spec (Holds [(parent, d)] fun g _ => Beside fs none g)
      (createTemporaryFile process parent path 100) _ _ :=
    createTemporaryFile_spec List.mem_cons_self path 100
  refine Spec.bind (Spec.orHandle (Spec.mono hcreate hbeside (fun _ _ h => h) fun _ h => h) fun e => ?_) ?_
  · refine Spec.mono (abandon_spec [] parent d e) (fun _ h => h) (fun _ _ h => h) fun h hh => ?_
    exact ⟨hh.1, hh.2.unchanged_none _⟩
  rintro ⟨temporary, temporaryName⟩
  dsimp only
  refine Spec.of_exists fun number => Spec.of_exists fun sequence => Spec.of_and fun htname => ?_
  have htemporary : IsTemporaryName process (cString temporaryName) := ⟨sequence, by rw [htname]⟩
  let t : Temporary := ⟨d, cString temporaryName, number,
    { uid := process.uid, gid := process.gid, permissions := 0o600, attributes := fs.inherited d }⟩
  refine Spec.bind (fillNew_spec (t := t) rfl htemporary path contents mode) fun created => ?_
  let filled : Inode := { t.node with contents := contents, permissions := BitVec.ofNat 12 mode }
  refine Spec.mono (installNew_spec (t := { t with node := filled }) rfl htemporary hresolved rfl rfl created)
    (fun _ h => h) (fun _ h hh => ?_) fun _ h => h
  obtain ⟨howns, made, hmade⟩ := hh
  exact ⟨⟨d, cString name, number, made, hmade⟩, Holds.closedOnce (F := fun _ _ => True) ⟨howns, trivial⟩⟩

theorem runOn_spec {α : Type} {m : SysM α} {Q : α → Host → Prop} {E : Host → Prop}
    (h : Spec (Holds [] (Same fs)) m Q E) (script : List Outcome) (sequence : UInt64) :
    match runOn m fs script sequence with
    | (.ok a, host) => Q a host
    | (.error _, host) => E host := by
  have hstart : Holds [] (Same fs) { fs } :=
    ⟨⟨List.nodup_nil, fun _ hx => absurd hx List.not_mem_nil, fun fd d hd => by simp at hd⟩, rfl⟩
  have hrun := h { host := { fs }, script, sequence } hstart
  unfold runOn
  cases hm : m { host := { fs }, script, sequence } with
  | ok a w =>
    rw [hm] at hrun
    exact hrun
  | error e w =>
    rw [hm] at hrun
    exact hrun

/-- Whatever the outcomes of the system calls: after an error nothing was replaced, and no
file is left but a temporary one whose unlinking failed; after a success the new file is in its
place; and what was opened was closed once. -/
theorem atomic_all_or_nothing (process : Process) (fs : FileSystem) (script : List Outcome) (sequence : UInt64)
    (path contents : Bytes) (mode : Nat) :
    (match runOn (replaceFileContentsAtomic process path contents) fs script sequence with
      | (.ok _, h) =>
        (∃ d name i number original attributes,
          Replaced fs path contents h.fs h.failures d name i number original attributes) ∧ ClosedOnce h
      | (.error _, h) => Unchanged process fs h.fs h.failures ∧ ClosedOnce h) ∧
    (match runOn (createFileContentsAtomic process path contents mode) fs script sequence with
      | (.ok _, h) =>
        (∃ d name number made, Created process fs path contents (BitVec.ofNat 12 mode) h.fs h.failures
          d name number made) ∧ ClosedOnce h
      | (.error _, h) => Unchanged process fs h.fs h.failures ∧ ClosedOnce h) := by
  have hend (h : Host) (hh : Holds [] (Unchanged process fs) h) :
      Unchanged process fs h.fs h.failures ∧ ClosedOnce h := ⟨hh.2, hh.closedOnce⟩
  constructor
  · have hreplace : Spec (Holds [] (Same fs)) (replaceFileContentsAtomic process path contents) _ _ :=
      Spec.mono (replaceFileContentsAtomic_spec path contents) (fun _ h => h) (fun _ _ h => h) hend
    have hrun := runOn_spec hreplace script sequence
    generalize runOn (replaceFileContentsAtomic process path contents) fs script sequence = r at hrun ⊢
    rcases r with ⟨_ | _, h⟩
    · exact hrun
    · exact hrun
  · have hcreate : Spec (Holds [] (Same fs)) (createFileContentsAtomic process path contents mode) _ _ :=
      Spec.mono (createFileContentsAtomic_spec path contents mode) (fun _ h => h) (fun _ _ h => h) hend
    have hrun := runOn_spec hcreate script sequence
    generalize runOn (createFileContentsAtomic process path contents mode) fs script sequence = r at hrun ⊢
    rcases r with ⟨_ | _, h⟩
    · exact hrun
    · exact hrun

private def emptyRoot : FileSystem where
  root := 0
  inodes i := if i = 0 then some { kind := .directory, uid := 0, gid := 0, permissions := 0o755 } else none
  entries _ _ := none
  inherited _ := {}
  next := 1
  fresh i hi := if_neg (by omega)

private def clashingPath : Bytes := utf8 "/.kompli.1.0"

/-- The unlinking of the temporary file fails. -/
private def clashingRun : Except Error FileStat × Host :=
  runOn (createFileContentsAtomic ⟨1, 0, 0, fun _ => []⟩ clashingPath [] 0o600) emptyRoot
    (List.replicate 8 .proceed ++ [.fail EIO]) 0

private def oneFile (inherited attributes : ExtendedAttributes) : FileSystem where
  root := 0
  inodes i :=
    if i = 0 then some { kind := .directory, uid := 0, gid := 0, permissions := 0o755 }
    else if i = 1 then some { uid := 0, gid := 0, permissions := 0o644, attributes }
    else none
  entries d name := if d = 0 ∧ name = utf8 "a" then some 1 else none
  inherited _ := inherited
  next := 2
  fresh i hi := by rw [if_neg (by omega), if_neg (by omega)]

private def oneAttribute : ExtendedAttributes := ({} : ExtendedAttributes).set (utf8 "user.a") []

private def replacingRun (inherited attributes : ExtendedAttributes) (script : List Outcome) :
    Except Error Unit × Host :=
  runOn (replaceFileContentsAtomic ⟨1, 0, 0, fun _ => []⟩ (utf8 "/a") []) (oneFile inherited attributes) script 0

/-- An attribute is lost where listing is not supported, and one that is inherited stays; a path that has the temporary
file's own name stays behind when that cannot be unlinked. -/
theorem not_all_or_nothing :
    ((replacingRun {} oneAttribute (List.replicate 7 .proceed ++ [.fail ENOTSUP])).1.isOk = true ∧
      ((replacingRun {} oneAttribute (List.replicate 7 .proceed ++ [.fail ENOTSUP])).2.fs.inodes 2).map
        (·.attributes.values[utf8 "user.a"]?) = some none) ∧
    ((replacingRun oneAttribute {} []).1.isOk = true ∧
      ((replacingRun oneAttribute {} []).2.fs.inodes 2).map
        (·.attributes.values[utf8 "user.a"]?) = some (some [])) ∧
    emptyRoot.resolve clashingPath = some (0, utf8 ".kompli.1.0") ∧
    emptyRoot.entries 0 (utf8 ".kompli.1.0") = none ∧
    clashingRun.1.isOk = false ∧ clashingRun.2.fs.entries 0 (utf8 ".kompli.1.0") = some 1 := by
  decide +kernel

end Kompli.AtomicFile
