import Kompli.Foundation.MapEntries
import Kompli.Foundation.Streams

/-! The cache of a scan of the file system: how the entries are written to its file, and read back. -/
namespace Kompli
open Foundation Streams

/-- What is kept of a `struct stat`. -/
structure Stat where
  dev : UInt64
  ino : UInt64
  mode : UInt32
  nlink : UInt64
  uid : UInt32
  gid : UInt32
  size : Int64
  blksize : Int64
  blocks : Int64
  deriving DecidableEq

namespace FilesystemScanner

structure FSCache where
  scanStartTime : Int64
  scanEndTime : Int64
  entries : ByteMap Stat

abbrev space : UInt8 := 0x20

section Write

def header (start stop : Int64) : Bytes :=
  utf8 "# FilesystemScanCache-V1 " ++ (printSigned start.toInt ++ space :: printSigned stop.toInt)

/-- The numbers of an entry, each cast to the type it is printed as. -/
def numbers (st : Stat) : List Bytes :=
  [printUnsigned st.dev.toNat, printUnsigned st.ino.toNat, printUnsigned st.mode.toNat,
    printUnsigned st.nlink.toUInt32.toNat, printSigned st.uid.toNat, printSigned st.gid.toNat,
    printSigned st.size.toInt, printSigned st.blksize.toInt, printSigned st.blocks.toInt]

def entryLine (entry : Bytes × Stat) : Bytes := entry.1 ++ (numbers entry.2).flatMap (space :: ·)

/-- The file that `BackgroundScan` writes. -/
def cacheText (start stop : Int64) (entries : ByteMap Stat) : Bytes :=
  header start stop ++ newline :: entries.toList.flatMap fun entry => entryLine entry ++ [newline]

end Write

section Read

def readEntry (line : Bytes) : Option (Bytes × Stat) := do
  let (name, s) ← word line
  let (dev, s) ← unsigned 64 s
  let (ino, s) ← unsigned 64 s
  let (mode, s) ← unsigned 32 s
  let (nlink, s) ← unsigned 32 s
  let (uid, s) ← signed 64 s
  let (gid, s) ← signed 64 s
  let (size, s) ← signed 64 s
  let (blksize, s) ← signed 64 s
  let (blocks, _) ← signed 64 s
  some (name, { dev := .ofNat dev, ino := .ofNat ino, mode := .ofNat mode, nlink := .ofNat nlink, uid := .ofInt uid
                gid := .ofInt gid, size := .ofInt size, blksize := .ofInt blksize, blocks := .ofInt blocks })

/-- The magic words, and the times of the scan. -/
def readHeader (line : Bytes) : Option (Int × Int) := do
  let (hash, s) ← word line
  let (magic, s) ← word s
  let (start, s) ← signed 64 s
  let (stop, _) ← signed 64 s
  if hash ≠ utf8 "#" ∨ magic ≠ utf8 "FilesystemScanCache-V1" then none else some (start, stop)

/-- A scan that ended too long ago is not used; a timeout of 0 is none. -/
def Expired (now hardTimeout stop : Int) : Prop := 0 < hardTimeout ∧ 0 < stop ∧ hardTimeout ≤ now - stop

instance (now hardTimeout stop : Int) : Decidable (Expired now hardTimeout stop) :=
  inferInstanceAs (Decidable (_ ∧ _ ∧ _))

/-- Lines that cannot be read are left out, and a path that is there already keeps its entry. -/
def readEntries (content : List Bytes) : ByteMap Stat :=
  (content.filterMap readEntry).foldl (fun entries entry => entries.insertIfNew entry.1 entry.2) ∅

def loadCache (now hardTimeout : Int) (content : Bytes) : Option FSCache :=
  match lines content with
  | [] => none
  | first :: rest =>
    match readHeader first with
    | none => none
    | some (start, stop) =>
      if Expired now hardTimeout stop then none
      else if (readEntries rest).isEmpty then none
      else some { scanStartTime := .ofInt start, scanEndTime := .ofInt stop, entries := readEntries rest }

end Read

section RoundTrip

/-- A path and numbers that come through. -/
def Kept (entry : Bytes × Stat) : Prop := (∀ c ∈ entry.1, blank c = false) ∧ entry.2.nlink.toNat < 2 ^ 32

/-- What is read of a line is a word and numbers of their types. -/
theorem readEntry_kept {line : Bytes} {entry : Bytes × Stat} (h : readEntry line = some entry) : Kept entry := by
  simp only [readEntry, Option.bind_eq_bind, Option.bind_eq_some_iff] at h
  obtain ⟨⟨name, s⟩, hname, _, -, _, -, _, -, ⟨nlink, _⟩, hnlink, _, -, _, -, _, -, _, -, _, -, ⟨⟩⟩ := h
  refine ⟨(word_some hname).2, ?_⟩
  have hlt := unsigned_lt hnlink
  change (UInt64.ofNat nlink).toNat < 2 ^ 32
  rwa [UInt64.toNat_ofNat', Nat.mod_eq_of_lt (by omega)]

private theorem stops_field (s : Bytes) : Stops (space :: s) := by
  intro c hc
  cases hc
  rfl

private theorem stops_nil : Stops [] := by
  intro c hc
  cases hc

private theorem uint32_bounds (n : UInt32) : -2 ^ (64 - 1) ≤ (n.toNat : Int) ∧ (n.toNat : Int) < 2 ^ (64 - 1) := by
  have h := n.toNat_lt
  omega

private theorem ofInt_toNat (n : UInt32) : UInt32.ofInt (n.toNat : Int) = n := by
  have h := n.toNat_lt
  rw [UInt32.ofInt, show (n.toNat : Int) % 2 ^ 32 = n.toNat by omega, Int.toNat_natCast, UInt32.ofNat_toNat]

/-- The fields after the path are read one by one. -/
theorem readEntry_entryLine {entry : Bytes × Stat} (hne : entry.1 ≠ []) (h : Kept entry) :
    readEntry (entryLine entry) = some entry := by
  obtain ⟨path, st⟩ := entry
  obtain ⟨hpath, hnlink⟩ := h
  have hname (s : Bytes) : word (path ++ space :: s) = some (path, space :: s) :=
    word_append hne hpath (by
      intro c hc
      cases hc
      rfl)
  have hblank : blank space = true := rfl
  have hdev (s : Bytes) := unsigned_print st.dev.toNat_lt (stops_field s)
  have hino (s : Bytes) := unsigned_print st.ino.toNat_lt (stops_field s)
  have hmode (s : Bytes) := unsigned_print st.mode.toNat_lt (stops_field s)
  have hlinks (s : Bytes) := unsigned_print st.nlink.toUInt32.toNat_lt (stops_field s)
  have huid (s : Bytes) := signed_print (uint32_bounds st.uid).1 (uint32_bounds st.uid).2 (stops_field s)
  have hgid (s : Bytes) := signed_print (uint32_bounds st.gid).1 (uint32_bounds st.gid).2 (stops_field s)
  have hsize (s : Bytes) := @signed_print 64 _ st.size.le_toInt st.size.toInt_lt _ (stops_field s)
  have hblksize (s : Bytes) := @signed_print 64 _ st.blksize.le_toInt st.blksize.toInt_lt _ (stops_field s)
  have hblocks := @signed_print 64 _ st.blocks.le_toInt st.blocks.toInt_lt _ stops_nil
  rw [List.append_nil] at hblocks
  simp only [readEntry, entryLine, numbers, List.flatMap_cons, List.flatMap_nil, List.cons_append, List.append_nil,
    hname, Option.bind_eq_bind, Option.bind_some, unsigned_blank hblank, signed_blank hblank, hdev, hino, hmode,
    hlinks, huid, hgid, hsize, hblksize, hblocks]
  rw [UInt64.toNat_toUInt32, Nat.mod_eq_of_lt hnlink]
  simp only [UInt64.ofNat_toNat, UInt32.ofNat_toNat, ofInt_toNat, Int64.ofInt_toInt]

private theorem readHeader_header (start stop : Int64) :
    readHeader (header start stop) = some (start.toInt, stop.toInt) := by
  have hmagic : utf8 "# FilesystemScanCache-V1 " =
      utf8 "#" ++ space :: (utf8 "FilesystemScanCache-V1" ++ [space]) := by decide
  have hword (text s : Bytes) (hne : text ≠ []) (htext : ∀ c ∈ text, blank c = false) :
      word (text ++ space :: s) = some (text, space :: s) :=
    word_append hne htext (by
      intro c hc
      cases hc
      rfl)
  have hblank : blank space = true := rfl
  have hstart (s : Bytes) := @signed_print 64 _ start.le_toInt start.toInt_lt _ (stops_field s)
  have hstop := @signed_print 64 _ stop.le_toInt stop.toInt_lt _ stops_nil
  rw [List.append_nil] at hstop
  rw [readHeader, header, hmagic]
  simp only [List.append_assoc, List.cons_append, List.nil_append, Option.bind_eq_bind, Option.bind_some,
    hword (utf8 "#") _ (by decide) (by decide +kernel), word_blank hblank,
    hword (utf8 "FilesystemScanCache-V1") _ (by decide) (by decide +kernel), signed_blank hblank, hstart, hstop]
  rw [if_neg (by simp)]

private theorem newline_not_mem_header (start stop : Int64) : newline ∉ header start stop := by
  rw [header, List.mem_append, List.mem_append, List.mem_cons]
  rintro (h | h | h | h)
  · exact absurd h (by decide)
  · exact newline_not_mem_printSigned _ h
  · exact absurd h (by decide)
  · exact newline_not_mem_printSigned _ h

private theorem newline_not_mem_entryLine {entry : Bytes × Stat} (h : Kept entry) : newline ∉ entryLine entry := by
  rw [entryLine, List.mem_append, List.mem_flatMap]
  rintro (hpath | ⟨number, hnumber, hmem⟩)
  · exact absurd (h.1 _ hpath) (by decide)
  · rw [List.mem_cons] at hmem
    rcases hmem with hspace | hmem
    · exact absurd hspace (by decide)
    · simp only [numbers, List.mem_cons, List.not_mem_nil, or_false] at hnumber
      rcases hnumber with rfl | rfl | rfl | rfl | rfl | rfl | rfl | rfl | rfl
      all_goals first
        | exact newline_not_mem_printUnsigned _ hmem
        | exact newline_not_mem_printSigned _ hmem

/-- Whatever a file holds, what is read of it can be written and read again. -/
theorem readEntries_kept {content : List Bytes} {path : Bytes} {st : Stat}
    (h : (readEntries content)[path]? = some st) : Kept (path, st) := by
  rw [readEntries, getElem?_foldl_insertIfNew Prod.fst Prod.snd, Std.ExtTreeMap.getElem?_empty, Option.none_or] at h
  obtain ⟨entry, hentry, rfl⟩ := Option.map_eq_some_iff.mp h
  obtain ⟨line, -, hline⟩ := List.mem_filterMap.mp (List.mem_of_find?_eq_some hentry)
  obtain rfl : entry.1 = path := by simpa using List.find?_some hentry
  exact readEntry_kept hline

private theorem readEntries_written {entries : ByteMap Stat}
    (h : ∀ entry ∈ entries.toList, entry.1 ≠ [] ∧ Kept entry) :
    readEntries (entries.toList.map entryLine) = entries := by
  have hread : (entries.toList.map entryLine).filterMap readEntry = entries.toList := by
    rw [List.filterMap_map]
    refine (List.filterMap_congr fun entry hentry => ?_).trans List.filterMap_some
    exact readEntry_entryLine (h entry hentry).1 (h entry hentry).2
  rw [readEntries, hread, foldl_insertIfNew_toList]

/-- Whatever the file holds, a path that is loaded has no white space in it. -/
theorem loadCache_kept {now hardTimeout : Int} {content path : Bytes} {cache : FSCache} {st : Stat}
    (hload : loadCache now hardTimeout content = some cache) (hst : cache.entries[path]? = some st) :
    Kept (path, st) := by
  rw [loadCache] at hload
  split at hload
  · cases hload
  · split at hload
    · cases hload
    · split_ifs at hload
      cases hload
      exact readEntries_kept hst

/-- The cache of a scan is restored just when no path has white space in it, and no file has more links than
the type they are printed as can count. -/
theorem cache_restores_iff {now hardTimeout : Int} {start stop : Int64} {entries : ByteMap Stat}
    (hne : entries.isEmpty = false) (hpaths : ∀ path ∈ entries, path ≠ [] ∧ NulFree path)
    (hfresh : ¬ Expired now hardTimeout stop.toInt) :
    (∃ cache, loadCache now hardTimeout (cacheText start stop entries) = some cache ∧ cache.entries = entries) ↔
      ∀ (path : Bytes) (st : Stat), entries[path]? = some st →
        (∀ c ∈ path, blank c = false) ∧ st.nlink.toNat < 2 ^ 32 := by
  constructor
  · rintro ⟨cache, hload, rfl⟩ path st hst
    exact loadCache_kept hload hst
  · intro h
    have hkept : ∀ entry ∈ entries.toList, entry.1 ≠ [] ∧ Kept entry := by
      intro entry hentry
      have hvalue := Std.ExtTreeMap.mem_toList_iff_getElem?_eq_some.mp hentry
      exact ⟨(hpaths _ (Std.ExtTreeMap.mem_iff_isSome_getElem?.mpr (by simp [hvalue]))).1, h _ _ hvalue⟩
    refine ⟨{ scanStartTime := start, scanEndTime := stop, entries }, ?_, rfl⟩
    rw [loadCache, cacheText, lines_append (newline_not_mem_header start stop),
      lines_flatMap _ fun entry hentry => newline_not_mem_entryLine (hkept entry hentry).2]
    simp only [readHeader_header, if_neg hfresh, readEntries_written hkept, hne, Bool.false_eq_true, if_false,
      Int64.ofInt_toInt]

private def regularFile : Stat :=
  { dev := 2049, ino := 131, mode := 0o100644, nlink := 1, uid := 0, gid := 0, size := 7, blksize := 4096, blocks := 8 }

private def scanned (path : Bytes) : ByteMap Stat := (∅ : ByteMap Stat).insert path regularFile

private theorem getElem?_scanned {path other : Bytes} {st : Stat} (h : (scanned path)[other]? = some st) :
    other = path ∧ st = regularFile := by
  rw [scanned, Std.ExtTreeMap.getElem?_insert] at h
  split_ifs at h with hpath
  · exact ⟨(Std.compare_eq_iff_eq.mp hpath).symm, (Option.some.inj h).symm⟩
  · exact absurd h (by simp)

/-- A file whose name has no white space in it is there after a restart. -/
theorem cache_restores_iff_passwd :
    ∃ cache, loadCache 1700000100 86400 (cacheText 1700000000 1700000060 (scanned (utf8 "/etc/passwd"))) = some cache ∧
      cache.entries = scanned (utf8 "/etc/passwd") := by
  refine (cache_restores_iff (by simp [scanned]) ?_ (by decide)).mpr ?_
  · intro path hpath
    obtain ⟨st, hst⟩ := Option.isSome_iff_exists.mp (Std.ExtTreeMap.mem_iff_isSome_getElem?.mp hpath)
    rw [(getElem?_scanned hst).1]
    decide +kernel
  · intro path st hst
    obtain ⟨rfl, rfl⟩ := getElem?_scanned hst
    decide +kernel

/-- A world-writable file is not seen when there is a space in its name. -/
theorem cache_loses_path :
    ¬ ∃ cache, loadCache 1700000100 86400 (cacheText 1700000000 1700000060 (scanned (utf8 "/tmp/a b"))) = some cache ∧
      cache.entries = scanned (utf8 "/tmp/a b") := by
  rintro ⟨cache, hload, hentries⟩
  have hst : cache.entries[utf8 "/tmp/a b"]? = some regularFile := by
    rw [hentries, scanned, Std.ExtTreeMap.getElem?_insert_self]
  exact absurd ((loadCache_kept hload hst).1 space (by decide)) (by decide)

end RoundTrip

end FilesystemScanner
end Kompli
