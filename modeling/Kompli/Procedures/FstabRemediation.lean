import Kompli.Procedures.FstabRewrite

/-! What the remediation of a mount point's options leaves behind: what the new table says, and whether there is one. -/
namespace Kompli.FilesystemMountOption
open Foundation Streams

variable {params : Params} {entry : FstabEntry} {contents : Bytes} {before after : List Bytes}

section Text

private theorem ofNat_inj {n k : Nat} (hn : n < 2 ^ 31) (hk : k < 2 ^ 31) : Int32.ofNat n = Int32.ofNat k ↔ n = k := by
  constructor
  · intro h
    have hn' := Int32.toInt_ofNat_of_lt hn
    have hk' := Int32.toInt_ofNat_of_lt hk
    rw [h] at hn'
    omega
  · rintro rfl
    rfl

theorem rewriteLines_past {n c : Nat} {ls : List Bytes} (hentry : entry.lineno = Int32.ofNat c) (hpast : c ≤ n)
    (hsize : n + ls.length < 2 ^ 31) :
    rewriteLines params entry (Int32.ofNat n) ls = ls.flatMap fun line => line ++ [newline] := by
  induction ls generalizing n with
  | nil => rfl
  | cons line rest ih =>
    rw [List.length_cons] at hsize
    have hnot : ¬ Int32.ofNat (n + 1) = Int32.ofNat c := by
      rw [ofNat_inj (by omega) (by omega)]
      omega
    rw [rewriteLines, List.flatMap_cons, ofNat_succ, hentry, if_neg hnot, ih (by omega) (by omega)]

/-- Only the line with the entry's number is written anew. -/
theorem rewriteLines_split {n c : Nat} {line : Bytes} (hentry : entry.lineno = Int32.ofNat c)
    (hnumber : n + before.length + 1 = c) (hsize : c + after.length < 2 ^ 31) :
    rewriteLines params entry (Int32.ofNat n) (before ++ line :: after) =
      (before ++ fstabLine params entry :: after).flatMap fun line => line ++ [newline] := by
  induction before generalizing n with
  | nil =>
    rw [List.length_nil, Nat.add_zero] at hnumber
    subst hnumber
    rw [List.nil_append, List.nil_append, rewriteLines, List.flatMap_cons, ofNat_succ, hentry, if_pos rfl,
      rewriteLines_past hentry le_rfl hsize]
  | cons first before ih =>
    rw [List.length_cons] at hnumber
    have hnot : ¬ Int32.ofNat (n + 1) = Int32.ofNat c := by
      rw [ofNat_inj (by omega) (by omega)]
      omega
    rw [List.cons_append, List.cons_append, rewriteLines, List.flatMap_cons, ofNat_succ, hentry, if_neg hnot,
      ih (by omega)]

/-- The lines of a text that has been written line by line. -/
theorem lines_written {text : Bytes} (hbefore : ∀ line ∈ before, newline ∉ line) (hafter : ∀ line ∈ after, newline ∉ line) :
    lines ((before ++ text :: after).flatMap fun line => line ++ [newline]) =
      before ++ text.splitOn newline ++ after := by
  induction before with
  | nil =>
    rw [List.nil_append, List.nil_append, List.flatMap_cons, List.append_assoc, List.singleton_append,
      lines_append_newline, lines_flatMap after hafter, List.map_id']
  | cons first before ih =>
    rw [List.forall_mem_cons] at hbefore
    rw [List.cons_append, List.flatMap_cons, List.append_assoc, List.singleton_append, lines_append hbefore.1,
      ih hbefore.2]
    rfl

private theorem two_le_splitOn {text : Bytes} (h : newline ∈ text) : 2 ≤ (text.splitOn newline).length := by
  have hcut := cut_append h
  rw [← hcut, splitOn_append_cons (not_mem_takeWhile text), List.length_cons]
  have hne := List.splitOn_ne_nil newline (text.dropWhile (· ≠ newline)).tail
  have hpos := List.length_pos_iff.mpr hne
  omega

theorem newline_not_mem_lines {line : Bytes} (h : line ∈ lines contents) : newline ∉ line :=
  not_mem_of_mem_splitOn (mem_lines h)

end Text

section Options

/-- The new table has the old entry with the wanted options, and the old lines but for the one of the mount point. The
lines are counted by an `int`, which must not overflow. -/
structure OnlyOptionsChange (params : Params) (entry : FstabEntry) (contents new : Bytes) : Prop where
  counted : (lines contents).length < 2 ^ 31
  read_again : ∃ fuel fstabMap, parseFstab fuel new = some fstabMap ∧
    fstabMap[params.mountpoint]? = some { entry with options := wantedOptions params entry.options }
  others : ∃ number mnt, ((physicalEntries contents).reverse.find? fun x => x.2.dir = params.mountpoint) =
    some (number, mnt) ∧ ∀ i, i + 1 ≠ number → (lines new)[i]? = (lines contents)[i]?

/-- The entry that is rewritten is the one that the table has for the mount point. -/
def ToRewrite (params : Params) (entry : FstabEntry) (contents : Bytes) : Prop :=
  ∃ fuel fstabMap, parseFstab fuel contents = some fstabMap ∧ entryToRewrite params fstabMap = some entry

variable {fstabMap : ByteMap FstabEntry} {line : Bytes} {mnt : Mntent}

theorem entryToRewrite_some (h : entryToRewrite params fstabMap = some entry) :
    fstabMap[params.mountpoint]? = some entry ∧ wantedOptions params entry.options ≠ entry.options := by
  rw [entryToRewrite, Option.filter_eq_some_iff, decide_eq_true_eq] at h
  exact ⟨h.1, wantedOptions_ne h.2⟩

/-- Where the entry comes from. -/
theorem ToRewrite.lastNaming (h : ToRewrite params entry contents) :
    wantedOptions params entry.options ≠ entry.options ∧
      ∃ before line after mnt, LastNaming params.mountpoint (lines contents) before line after mnt ∧
        entry = fstabEntry mnt (Int32.ofNat (numberAfter 0 false before)) := by
  obtain ⟨fuel, fstabMap, hparse, hentry⟩ := h
  obtain ⟨-, rfl⟩ := parseFstab_some_iff.mp ⟨fuel, hparse⟩
  obtain ⟨hfound, hwanted⟩ := entryToRewrite_some hentry
  refine ⟨hwanted, ?_⟩
  rw [getElem?_insertEntries, Option.map_eq_some_iff] at hfound
  obtain ⟨x, hx, rfl⟩ := hfound
  obtain ⟨before, line, after, hlast, hnumber⟩ := lastNaming_of_counted hx
  exact ⟨before, line, after, x.2, hlast, by rw [hnumber]⟩

/-- A mount point is read again with what its last line says. -/
theorem parsed_lastNaming (h : LastNaming params.mountpoint (lines contents) before line after mnt)
    (hend : contents.getLast? = some newline) : ∃ fuel fstabMap, parseFstab fuel contents = some fstabMap ∧
      fstabMap[params.mountpoint]? = some (fstabEntry mnt (Int32.ofNat (numberAfter 0 false before))) := by
  have hnot : ¬ Stuck false contents := by
    rintro ⟨_, _, _, _, hlast, _⟩
    exact hlast hend
  obtain ⟨fuel, hparse⟩ := parseFstab_some_iff.mpr ⟨hnot, rfl⟩
  refine ⟨fuel, _, hparse, ?_⟩
  rw [getElem?_insertEntries, h.find_counted, Option.map_some]

private theorem getLast_written (xs : List Bytes) (hne : xs ≠ []) :
    (xs.flatMap fun line => line ++ [newline]).getLast? = some newline := by
  obtain ⟨front, last, rfl⟩ := (List.eq_nil_or_concat xs).resolve_left hne
  simp

private theorem getElem?_middle (front back : List Bytes) (line : Bytes) : (front ++ line :: back)[front.length]? = some line := by
  rw [List.getElem?_append_right le_rfl, Nat.sub_self, List.getElem?_cons_zero]

private theorem getElem?_replaced (old new : Bytes) {i : Nat} (h : i ≠ before.length) :
    (before ++ new :: after)[i]? = (before ++ old :: after)[i]? := by
  rcases lt_or_gt_of_ne h with hbefore | hafter
  · rw [List.getElem?_append_left hbefore, List.getElem?_append_left hbefore]
  · obtain ⟨k, hk⟩ := Nat.exists_eq_add_of_lt hafter
    rw [List.getElem?_append_right hafter.le, List.getElem?_append_right hafter.le, hk, Nat.add_assoc, Nat.add_sub_cancel_left,
      List.getElem?_cons_succ, List.getElem?_cons_succ]

theorem rewriteFstab_lines (hlines : lines contents = before ++ line :: after)
    (hlineno : entry.lineno = Int32.ofNat (before.length + 1)) (hsize : (lines contents).length < 2 ^ 31) :
    (rewriteFstab params entry contents).getLast? = some newline ∧
      lines (rewriteFstab params entry contents) = before ++ (fstabLine params entry).splitOn newline ++ after := by
  rw [hlines, List.length_append, List.length_cons] at hsize
  have hwritten : rewriteFstab params entry contents =
      (before ++ fstabLine params entry :: after).flatMap fun line => line ++ [newline] := by
    rw [rewriteFstab, hlines]
    exact @rewriteLines_split params entry before after 0 _ line hlineno (by omega) (by omega)
  have hclean : ∀ other ∈ before ++ line :: after, newline ∉ other := fun other hother =>
    newline_not_mem_lines (hlines ▸ hother)
  rw [hwritten]
  refine ⟨getLast_written _ (by simp), lines_written (fun other hother => ?_) fun other hother => ?_⟩
  · exact hclean other (by simp [hother])
  · exact hclean other (by simp [hother])

/-- A newline in the new line would add lines at the end. -/
theorem newline_not_mem_fstabLine (hlines : lines contents = before ++ line :: after)
    (hlineno : entry.lineno = Int32.ofNat (before.length + 1)) (hsize : (lines contents).length < 2 ^ 31) {number : Nat}
    (hnumber : number ≤ (lines contents).length) (hothers : ∀ i, i + 1 ≠ number →
      (lines (rewriteFstab params entry contents))[i]? = (lines contents)[i]?) : newline ∉ fstabLine params entry := by
  intro hnewline
  have hlonger := two_le_splitOn hnewline
  have hnew := hothers (lines contents).length (by omega)
  rw [(rewriteFstab_lines hlines hlineno hsize).2, List.getElem?_eq_none le_rfl, List.getElem?_eq_none_iff, hlines] at hnew
  simp only [List.length_append, List.length_cons] at hnew
  omega

private theorem exists_split {ls : List Bytes} {i : Nat} (h : i < ls.length) :
    ∃ before line after, ls = before ++ line :: after ∧ before.length = i := by
  obtain ⟨line, after, hdrop⟩ := List.exists_cons_of_ne_nil (List.ne_nil_of_length_pos (by rw [List.length_drop]; omega) :
    ls.drop i ≠ [])
  refine ⟨ls.take i, line, after, ?_, List.length_take_of_le h.le⟩
  rw [← hdrop, List.take_append_drop]

/-- A line that is read again for the mount point under the old number is the new one. -/
theorem lastNaming_eq {ls front back : List Bytes} {other : Bytes} {read : Mntent} {text : Bytes}
    (hread : LastNaming params.mountpoint ls front other back read) (hls : ls = before ++ text :: after)
    (hlast : ∀ other ∈ after, ¬ Names params.mountpoint other) (hnumber : before.length + 1 ≤ front.length + 1) :
    front = before ∧ other = text := by
  have hsplit : before ++ text :: after = front ++ other :: back := hls.symm.trans hread.split
  rcases List.append_eq_append_iff.mp hsplit with ⟨middle, rfl, hafter⟩ | ⟨middle, rfl, hback⟩
  · cases middle with
    | nil => exact ⟨List.append_nil _, (List.cons.inj hafter).1.symm⟩
    | cons first middle =>
      refine absurd ⟨read, hread.read, hread.names⟩ (hlast other ?_)
      rw [(List.cons.inj hafter).2]
      simp
  · cases middle with
    | nil => exact ⟨(List.append_nil _).symm, (List.cons.inj hback).1⟩
    | cons first middle =>
      simp only [List.length_append, List.length_cons] at hnumber
      omega

/-- The remediation changes nothing but the options just where no line that slips comes before the mount point's, and
what it writes can be read again as it was meant. -/
theorem onlyOptionsChange_iff (h : ToRewrite params entry contents) :
    OnlyOptionsChange params entry contents (rewriteFstab params entry contents) ↔
      (lines contents).length < 2 ^ 31 ∧ CountedFor params.mountpoint (lines contents) ∧ Writable params entry := by
  obtain ⟨hwanted, before, line, after, mnt, hlast, hentry⟩ := h.lastNaming
  have hlineno : entry.lineno = Int32.ofNat (numberAfter 0 false before) := by rw [hentry]; rfl
  have hlength : (lines contents).length = before.length + (after.length + 1) := by
    rw [hlast.split, List.length_append, List.length_cons]
  obtain ⟨hlow, hhigh⟩ := @numberAfter_bounds 0 false before
  simp only [Bool.false_eq_true, if_false] at hlow hhigh
  rw [hlast.countedFor_iff, ← @numberAfter_eq_iff 0]
  constructor
  · rintro ⟨hsize, ⟨fuel, fstabMap, hparse, hread⟩, number, mnt', hfind, hothers⟩
    rw [physicalEntries, hlast.find_physical] at hfind
    cases hfind
    obtain ⟨front, replaced, back, hlines, hfront⟩ := @exists_split _ (numberAfter 0 false before - 1)
      (show _ < (lines contents).length by omega)
    have hlineno' : entry.lineno = Int32.ofNat (front.length + 1) := by
      rw [hlineno, hfront, Nat.sub_add_cancel hlow]
    have hnewline := newline_not_mem_fstabLine hlines hlineno' hsize (by omega) hothers
    have hnew : lines (rewriteFstab params entry contents) = front ++ fstabLine params entry :: back := by
      rw [(rewriteFstab_lines hlines hlineno' hsize).2, List.splitOn_eq_singleton hnewline, List.append_assoc,
        List.singleton_append]
    obtain ⟨-, rfl⟩ := parseFstab_some_iff.mp ⟨fuel, hparse⟩
    rw [getElem?_insertEntries, Option.map_eq_some_iff] at hread
    obtain ⟨x, hx, hsame⟩ := hread
    have hown : numberAfter 0 false before = before.length + 1 := by
      by_contra hne
      have hline := hothers front.length (by omega)
      rw [hnew, hlines, getElem?_middle, getElem?_middle] at hline
      have hunchanged : lines (rewriteFstab params entry contents) = lines contents := by
        rw [hnew, hlines, Option.some.inj hline]
      rw [hunchanged, hlast.find_counted] at hx
      cases hx
      exact hwanted ((congrArg FstabEntry.options hsame).symm.trans (congrArg FstabEntry.options hentry).symm)
    obtain ⟨rfl, htail⟩ := List.append_inj (hlast.split.symm.trans hlines) (by omega)
    obtain ⟨rfl, rfl⟩ := List.cons.inj htail
    obtain ⟨front, other, back, hlast', hnumber⟩ := lastNaming_of_counted hx
    have hbounds := @numberAfter_bounds 0 false front
    have hlength' := congrArg List.length hlast'.split
    rw [hnew] at hlength'
    simp only [List.length_append, List.length_cons, Bool.false_eq_true, if_false] at hlength' hbounds
    have hsameNumber : x.1 = before.length + 1 := by
      rw [← hown, ← ofNat_inj (by omega) (by omega), ← hlineno]
      exact congrArg FstabEntry.lineno hsame
    obtain ⟨rfl, rfl⟩ := lastNaming_eq hlast' hnew hlast.last (by omega)
    have hread : ReadsBack params entry x.2 := ⟨hlast'.read, congrArg FstabEntry.device hsame, hlast'.names,
      congrArg FstabEntry.filesystem hsame, congrArg FstabEntry.options hsame, congrArg FstabEntry.dump hsame,
      congrArg FstabEntry.pass hsame⟩
    exact ⟨hsize, by rw [hown, Nat.zero_add, Nat.add_comm], hread.writable hnewline⟩
  · rintro ⟨hsize, hnumber, hwritable⟩
    rw [hnumber] at hlineno
    obtain ⟨hnewline, mnt', hread⟩ := hwritable.readsBack
    obtain ⟨hend, hnew⟩ := rewriteFstab_lines hlast.split (by rw [hlineno, Nat.zero_add, Nat.add_comm]) hsize
    rw [List.splitOn_eq_singleton hnewline, List.append_assoc, List.singleton_append] at hnew
    have hlast' : LastNaming params.mountpoint (lines (rewriteFstab params entry contents)) before (fstabLine params entry)
        after mnt' := ⟨hnew, hread.read, hread.dir, hlast.last⟩
    obtain ⟨fuel, fstabMap, hparse, hfound⟩ := parsed_lastNaming hlast' hend
    refine ⟨hsize, ⟨fuel, fstabMap, hparse, ?_⟩, before.length + 1, mnt, hlast.find_physical, fun i hi => ?_⟩
    · rw [hfound, hnumber, ← hlineno, fstabEntry, hread.fsname, hread.type, hread.opts, hread.freq, hread.passno]
    · rw [hnew, hlast.split]
      exact getElem?_replaced line (fstabLine params entry) (by omega)

end Options

section Calls

variable {host : Host}

/-- The table that is read is rewritten for a mount point, and every call succeeds. -/
structure Rewrites (host : Host) (params : Params) (entry : FstabEntry) : Prop where
  no_pattern : params.mountpointIsPattern = false
  fstab : ∃ fuel fstabMap, parseFstab fuel host.fstab = some fstabMap ∧ host.fstabEntries = .ok fstabMap ∧
    entryToRewrite params fstabMap = some entry
  mtab : ∃ mtabEntries, host.mtabEntries = .ok mtabEntries
  read : host.fstab.length ≤ host.readBytes
  opened : host.tempOpened = true
  written : (rewriteFstab params entry host.fstab).length ≤ host.writtenBytes
  backup : host.backupError = none
  replace : host.replaceError = none

theorem Rewrites.toRewrite (h : Rewrites host params entry) : ToRewrite params entry host.fstab := by
  obtain ⟨fuel, fstabMap, hparse, -, hentry⟩ := h.fstab
  exact ⟨fuel, fstabMap, hparse, hentry⟩

theorem Rewrites.fstab_eq (h : Rewrites host params entry) :
    (remediateFilesystemMountOption host params).fstab = some (rewriteFstab params entry host.fstab) := by
  obtain ⟨fuel, fstabMap, -, hfstab, hentry⟩ := h.fstab
  obtain ⟨mtabEntries, hmtab⟩ := h.mtab
  have htemp : host.temp (rewriteFstab params entry (host.fstab.take host.readBytes)) =
      some (rewriteFstab params entry host.fstab) := by
    rw [List.take_of_length_le h.read, Host.temp, if_pos h.opened, List.take_of_length_le h.written]
  simp only [remediateFilesystemMountOption, h.no_pattern, Bool.false_eq_true, if_false, hfstab, hmtab, hentry, replaceFstab,
    h.backup, htemp, h.replace]

/-- The table that the remediation leaves has the old entry with the wanted options, and the other lines as they were, just
where no line that slips comes before the mount point's, and what is written can be read again as it was meant. -/
theorem remediation_changes_options_iff (h : Rewrites host params entry) :
    (∃ new, (remediateFilesystemMountOption host params).fstab = some new ∧
      OnlyOptionsChange params entry host.fstab new) ↔
      (lines host.fstab).length < 2 ^ 31 ∧ CountedFor params.mountpoint (lines host.fstab) ∧ Writable params entry := by
  rw [h.fstab_eq, ← onlyOptionsChange_iff h.toRewrite]
  constructor
  · rintro ⟨new, hnew, hchange⟩
    cases hnew
    exact hchange
  · intro hchange
    exact ⟨_, rfl, hchange⟩

/-- A host where all goes well, for a table that is read in a few steps. -/
def quietHost (contents : Bytes) : Host where
  fstabPath := utf8 "/etc/fstab"
  fstab := contents
  fstabEntries :=
    match parseFstab 100 contents with
    | some fstabMap => .ok fstabMap
    | none => .error { message := utf8 "still reading" }
  mtabEntries := .ok ∅
  readBytes := contents.length
  tempOpened := true
  staleTemp := none
  writtenBytes := 1000
  backupError := none
  replaceError := none
  mountPath := utf8 "mount"
  executeCommand _ := .ok []

private theorem quietHost_rewrites (hpattern : params.mountpointIsPattern = false)
    (hentry : (parseFstab 100 contents).bind (entryToRewrite params) = some entry)
    (hlength : (rewriteFstab params entry contents).length ≤ 1000) : Rewrites (quietHost contents) params entry := by
  obtain ⟨fstabMap, hparse, hentry⟩ := Option.bind_eq_some_iff.mp hentry
  refine ⟨hpattern, ⟨100, fstabMap, hparse, ?_, hentry⟩, ⟨∅, rfl⟩, le_rfl, rfl, hlength, rfl, rfl⟩
  rw [quietHost, hparse]

def nodev (mountpoint : String) : Params := { mountpoint := utf8 mountpoint, optionsSet := some [utf8 "nodev"] }

def sda1 (lineno : Int32) : FstabEntry where
  device := utf8 "/dev/sda1"
  filesystem := utf8 "ext4"
  options := [utf8 "rw"]
  dump := 0
  pass := 1
  lineno

theorem root_remediated : ∃ new,
    (remediateFilesystemMountOption (quietHost (utf8 "# the root\n/dev/sda1 / ext4 rw 0 1\n")) (nodev "/")).fstab = some new ∧
      OnlyOptionsChange (nodev "/") (sda1 2) (utf8 "# the root\n/dev/sda1 / ext4 rw 0 1\n") new := by
  have hlast : LastNaming (utf8 "/") (lines (utf8 "# the root\n/dev/sda1 / ext4 rw 0 1\n")) [utf8 "# the root"]
      (utf8 "/dev/sda1 / ext4 rw 0 1") [] ⟨utf8 "/dev/sda1", utf8 "/", utf8 "ext4", utf8 "rw", 0, 1⟩ :=
    ⟨by decide +kernel, by decide +kernel, rfl, by simp⟩
  have hcounted := hlast.countedFor_iff.mpr (by decide +kernel)
  have hwritable : Writable (nodev "/") (sda1 2) := by
    constructor <;> decide +kernel
  exact (remediation_changes_options_iff (quietHost_rewrites rfl (by decide +kernel) (by decide +kernel))).mpr
    ⟨by decide +kernel, hcounted, hwritable⟩

/-- An escape of the mount point is not written again: it is lost from the new table. -/
theorem escape_lost :
    Rewrites (quietHost (utf8 "/dev/sda1 /mnt/my\\040disk ext4 rw 0 1\n")) (nodev "/mnt/my disk") (sda1 1) ∧
      (remediateFilesystemMountOption (quietHost (utf8 "/dev/sda1 /mnt/my\\040disk ext4 rw 0 1\n"))
        (nodev "/mnt/my disk")).fstab = some (utf8 "/dev/sda1 /mnt/my disk ext4 rw,nodev 0 1\n") ∧
      ∀ fuel fstabMap, parseFstab fuel (utf8 "/dev/sda1 /mnt/my disk ext4 rw,nodev 0 1\n") = some fstabMap →
        fstabMap[utf8 "/mnt/my disk"]? = none := by
  have hrewrites := @quietHost_rewrites (nodev "/mnt/my disk") (sda1 1) (utf8 "/dev/sda1 /mnt/my\\040disk ext4 rw 0 1\n")
    rfl (by decide +kernel) (by decide +kernel)
  refine ⟨hrewrites, ?_, fun fuel fstabMap hparse => ?_⟩
  · rw [hrewrites.fstab_eq]
    decide +kernel
  · obtain ⟨-, rfl⟩ := parseFstab_some_iff.mp ⟨fuel, hparse⟩
    decide +kernel

end Calls

section Failures

variable {host : Host}

/-- The entry that the remediation is about to write anew. -/
def ToReplace (host : Host) (params : Params) (entry : FstabEntry) : Prop :=
  params.mountpointIsPattern = false ∧ ∃ fstabEntries mtabEntries, host.fstabEntries = .ok fstabEntries ∧
    host.mtabEntries = .ok mtabEntries ∧ entryToRewrite params fstabEntries = some entry

/-- What makes the remediation return before it gets to the mounted file systems. -/
inductive FailsBeforeRemount (host : Host) (params : Params) : Prop where
  | pattern : params.mountpointIsPattern = true → FailsBeforeRemount host params
  | fstab {e : Error} : host.fstabEntries = .error e → FailsBeforeRemount host params
  | mtab {e : Error} : host.mtabEntries = .error e → FailsBeforeRemount host params
  | replace {entry : FstabEntry} {e : Error} : ToReplace host params entry → (replaceFstab host params entry).1 = some e →
      FailsBeforeRemount host params

/-- The table is there, the old one or the whole new one, and the old one where the remediation has failed. -/
structure LeavesUsable (host : Host) (params : Params) : Prop where
  complete : (remediateFilesystemMountOption host params).fstab = some host.fstab ∨
    ∃ entry, ToReplace host params entry ∧
      (remediateFilesystemMountOption host params).fstab = some (rewriteFstab params entry host.fstab)
  unchanged : FailsBeforeRemount host params → (remediateFilesystemMountOption host params).fstab = some host.fstab

/-- The old table cannot be moved away; or it is replaced by a file that nothing of the text is missing from (or by one
that happens to be the old table). -/
def Replaceable (host : Host) (params : Params) (entry : FstabEntry) : Prop :=
  host.backupError ≠ none ∨ host.replaceError = none ∧
    (host.temp (rewriteFstab params entry (host.fstab.take host.readBytes)) = some (rewriteFstab params entry host.fstab) ∨
      host.temp (rewriteFstab params entry (host.fstab.take host.readBytes)) = some host.fstab)

theorem remediate_of_toReplace (h : ToReplace host params entry) :
    (remediateFilesystemMountOption host params).fstab = (replaceFstab host params entry).2 := by
  obtain ⟨hpattern, fstabEntries, mtabEntries, hfstab, hmtab, hentry⟩ := h
  simp only [remediateFilesystemMountOption, hpattern, Bool.false_eq_true, if_false, hfstab, hmtab, hentry]
  rcases replaceFstab host params entry with ⟨_ | e, fstab⟩ <;> rfl

/-- Where there is nothing to be written the table is not touched. -/
theorem remediate_of_forall (h : ∀ entry, ¬ ToReplace host params entry) :
    (remediateFilesystemMountOption host params).fstab = some host.fstab := by
  rw [remediateFilesystemMountOption]
  split_ifs with hpattern
  · rfl
  · cases hfstab : host.fstabEntries with
    | error e => rfl
    | ok fstabEntries =>
      cases hmtab : host.mtabEntries with
      | error e => rfl
      | ok mtabEntries =>
        cases hentry : entryToRewrite params fstabEntries with
        | none => simp only [hentry]
        | some entry => exact absurd ⟨by simpa using hpattern, _, _, hfstab, hmtab, hentry⟩ (h entry)

theorem ToReplace.unique {other : FstabEntry} (h : ToReplace host params entry) (hother : ToReplace host params other) :
    entry = other := by
  obtain ⟨-, fstabEntries, mtabEntries, hfstab, -, hentry⟩ := h
  obtain ⟨-, fstabEntries', mtabEntries', hfstab', -, hentry'⟩ := hother
  obtain rfl := Except.ok.inj (hfstab.symm.trans hfstab')
  exact Option.some.inj (hentry.symm.trans hentry')

/-- Once an entry is to be written it is only the writing that can fail. -/
theorem FailsBeforeRemount.replaceFstab_error (h : FailsBeforeRemount host params) (hentry : ToReplace host params entry) :
    ∃ e, (replaceFstab host params entry).1 = some e := by
  have hread := hentry
  obtain ⟨hpattern, fstabEntries, mtabEntries, hfstab, hmtab, -⟩ := hread
  cases h with
  | pattern hfails =>
    rw [hpattern] at hfails
    cases hfails
  | fstab hfails =>
    rw [hfstab] at hfails
    cases hfails
  | mtab hfails =>
    rw [hmtab] at hfails
    cases hfails
  | @replace other e hother herror =>
    obtain rfl := hentry.unique hother
    exact ⟨e, herror⟩

/-- What the copy and the renames leave. -/
theorem replaceFstab_cases (host : Host) (params : Params) (entry : FstabEntry) :
    (host.backupError ≠ none ∧ (replaceFstab host params entry).2 = some host.fstab) ∨
      (host.backupError = none ∧ (replaceFstab host params entry).2 = none ∧
        (host.replaceError = none → host.temp (rewriteFstab params entry (host.fstab.take host.readBytes)) = none)) ∨
      (host.backupError = none ∧ host.replaceError = none ∧ (replaceFstab host params entry).1 = none ∧
        (replaceFstab host params entry).2 = host.temp (rewriteFstab params entry (host.fstab.take host.readBytes))) := by
  rw [replaceFstab]
  cases host.backupError with
  | some errno => exact .inl ⟨by simp, rfl⟩
  | none =>
    right
    cases host.temp (rewriteFstab params entry (host.fstab.take host.readBytes)) with
    | none => exact .inl ⟨rfl, rfl, fun _ => rfl⟩
    | some temp =>
      cases host.replaceError with
      | none => exact .inr ⟨rfl, rfl, rfl, rfl⟩
      | some errno => exact .inl ⟨rfl, rfl, fun h => (nomatch h)⟩

/-- A usable table is left just where nothing is to be written, or it can be replaced. -/
theorem leavesUsable_iff (host : Host) (params : Params) :
    LeavesUsable host params ↔ ∀ entry, ToReplace host params entry → Replaceable host params entry := by
  constructor
  · intro h entry hentry
    have hcomplete := h.complete
    rw [remediate_of_toReplace hentry] at hcomplete
    rcases replaceFstab_cases host params entry with ⟨hbackup, -⟩ | ⟨-, hnone, -⟩ | ⟨-, hreplace, -, htemp⟩
    · exact .inl hbackup
    · rw [hnone] at hcomplete
      rcases hcomplete with hold | ⟨_, _, hnew⟩
      · cases hold
      · cases hnew
    · rw [htemp] at hcomplete
      rcases hcomplete with hold | ⟨other, hother, hnew⟩
      · exact .inr ⟨hreplace, .inr hold⟩
      · obtain rfl := hentry.unique hother
        exact .inr ⟨hreplace, .inl hnew⟩
  · intro h
    by_cases hsome : ∃ entry, ToReplace host params entry
    · obtain ⟨entry, hentry⟩ := hsome
      have hfstab := remediate_of_toReplace hentry
      rcases replaceFstab_cases host params entry with ⟨-, hold⟩ | ⟨hbackup, -, htemp⟩ | ⟨hbackup, -, hdone, htemp⟩
      · rw [hold] at hfstab
        exact ⟨.inl hfstab, fun _ => hfstab⟩
      · rcases h entry hentry with hfails | ⟨hreplace, hnew⟩
        · exact absurd hbackup hfails
        · rw [htemp hreplace] at hnew
          rcases hnew with hnew | hnew <;> cases hnew
      · rcases h entry hentry with hfails | ⟨-, hnew⟩
        · exact absurd hbackup hfails
        · rw [htemp] at hfstab
          refine ⟨?_, fun hfails => ?_⟩
          · rw [hfstab]
            exact hnew.symm.imp_right fun hnew => ⟨entry, hentry, hnew⟩
          · obtain ⟨e, herror⟩ := hfails.replaceFstab_error hentry
            rw [hdone] at herror
            cases herror
    · have hfstab := remediate_of_forall (not_exists.mp hsome)
      exact ⟨.inl hfstab, fun _ => hfstab⟩

/-- After a second rename that fails there is no table, and where the disk is full it is cut off. -/
theorem table_lost :
    (remediateFilesystemMountOption { quietHost (utf8 "/dev/sda1 / ext4 rw 0 1\n") with replaceError := some 5 }
      (nodev "/")).fstab = none ∧
      (remediateFilesystemMountOption { quietHost (utf8 "/dev/sda1 / ext4 rw 0 1\n") with writtenBytes := 12 }
        (nodev "/")).fstab = some (utf8 "/dev/sda1 / ") ∧
      ¬ LeavesUsable { quietHost (utf8 "/dev/sda1 / ext4 rw 0 1\n") with replaceError := some 5 } (nodev "/") := by
  have hnone : (remediateFilesystemMountOption { quietHost (utf8 "/dev/sda1 / ext4 rw 0 1\n") with replaceError := some 5 }
      (nodev "/")).fstab = none := by decide +kernel
  refine ⟨hnone, by decide +kernel, fun h => ?_⟩
  have hcomplete := h.complete
  rw [hnone] at hcomplete
  rcases hcomplete with hold | ⟨_, _, hnew⟩
  · cases hold
  · cases hnew

end Failures

end Kompli.FilesystemMountOption
