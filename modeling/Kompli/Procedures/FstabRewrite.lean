import Kompli.Procedures.FstabFields
import Kompli.Procedures.FstabLines

/-! The line that is written for a mount point: what it is read as, and what becomes of the lines around it. -/
namespace Kompli.FilesystemMountOption
open Foundation Streams Words

variable {params : Params} {entry : FstabEntry} {options : List Bytes}

section Wanted

/-- The options without the forbidden ones, and the required ones that are not among them. -/
def wantedOptions (params : Params) (options : List Bytes) : List Bytes :=
  options.filter (· ∉ params.optionsNotSet.getD []) ++ (optionSet params.optionsSet).keys.filter (· ∉ options)

theorem mem_optionSet {items : Option (List Bytes)} {option : Bytes} : option ∈ optionSet items ↔ option ∈ items.getD [] := by
  have hfold (xs : List Bytes) (set : ByteMap Unit) :
      option ∈ xs.foldl (fun set option => set.insert option ()) set ↔ option ∈ set ∨ option ∈ xs := by
    induction xs generalizing set with
    | nil => simp
    | cons x xs ih =>
      rw [List.foldl_cons, ih, Std.ExtTreeMap.mem_insert, Std.LawfulEqCmp.compare_eq_iff_eq, List.mem_cons]
      constructor
      · rintro ((rfl | h) | h)
        · exact .inr (.inl rfl)
        · exact .inl h
        · exact .inr (.inr h)
      · rintro (h | rfl | h)
        · exact .inl (.inr h)
        · exact .inl (.inl rfl)
        · exact .inr h
  rw [optionSet, hfold]
  simp

private theorem foldl_erase (options : List Bytes) (set : ByteMap Unit) :
    options.foldl (fun missing option => missing.erase option) set = set.filter fun option _ => option ∉ options := by
  apply Std.ExtTreeMap.ext_getElem?
  intro option
  rw [Std.ExtTreeMap.getElem?_filter']
  induction options generalizing set with
  | nil => cases hfound : set[option]? <;> rw [List.foldl_nil, hfound] <;> rfl
  | cons first options ih =>
    rw [List.foldl_cons, ih, Std.ExtTreeMap.getElem?_erase]
    by_cases hfirst : first = option
    · subst hfirst
      simp
    · simp [hfirst, Ne.symm hfirst]

/-- The new line has the wanted options. -/
theorem newOptions_eq (params : Params) (options : List Bytes) :
    newOptions params options = wantedOptions params options := by
  rw [newOptions, keptOptions, missingOptions, foldl_erase, Std.ExtTreeMap.keys_filter_key, wantedOptions]
  simp only [mem_optionSet]

/-- An option set that the check finds fault with is not the wanted one. -/
theorem wantedOptions_ne
    (h : (checkOptions options (optionSet params.optionsSet) (optionSet params.optionsNotSet)).2 = .nonCompliant) :
    wantedOptions params options ≠ options := by
  have hpasses (passes : Bytes → Bool) (good bad : Bytes) (xs : List Bytes) :
      (checkEach passes good bad xs).2 = true ↔ ∀ option ∈ xs, passes option = true := by
    induction xs with
    | nil => simp [checkEach]
    | cons x xs ih =>
      rw [checkEach]
      split_ifs with hx
      · rw [List.forall_mem_cons]
        simp [hx, ih]
      · simp [hx]
  intro hsame
  rw [checkOptions] at h
  dsimp only at h
  split_ifs at h with hset hnotSet
  · -- a required option is missing
    rw [← Bool.not_eq_true, hpasses] at hset
    apply hset
    intro option hoption
    by_contra hmissing
    have hmem : option ∈ wantedOptions params options :=
      List.mem_append_right _ (List.mem_filter.mpr ⟨hoption, by simpa using hmissing⟩)
    rw [hsame] at hmem
    simp [hmem] at hmissing
  · -- a forbidden option is set
    rw [← Bool.not_eq_true, hpasses] at hnotSet
    apply hnotSet
    intro option hoption
    rw [decide_eq_true_eq]
    intro hmem
    rw [Std.ExtTreeMap.mem_keys, mem_optionSet] at hoption
    have hwanted : option ∈ wantedOptions params options := hsame.symm ▸ hmem
    rw [wantedOptions, List.mem_append, List.mem_filter, List.mem_filter] at hwanted
    rcases hwanted with ⟨-, hkept⟩ | ⟨-, hmissing⟩
    · simp [hoption] at hkept
    · simp [hmem] at hmissing

end Wanted

section Line

/-- What stands before the numbers in the new line. -/
def lineText (params : Params) (entry : FstabEntry) : Bytes :=
  let names := entry.device ++ 0x20 :: params.mountpoint ++ 0x20 :: entry.filesystem
  if wantedOptions params entry.options = [] then names
  else names ++ 0x20 :: joined (wantedOptions params entry.options)

theorem fstabLine_eq (params : Params) (entry : FstabEntry) :
    fstabLine params entry =
      lineText params entry ++ 0x20 :: printSigned entry.dump.toInt ++ 0x20 :: printSigned entry.pass.toInt := by
  have hspace : utf8 " " = [0x20] := rfl
  rw [fstabLine, newOptions_eq, lineText, hspace]
  split_ifs with hnil
  · rw [hnil, List.flatMap_nil, List.append_nil, List.dropLast_concat]
    simp
  · rw [flatMap_comma hnil, ← List.append_assoc, List.dropLast_concat]
    simp

/-- What a line can be written for and read again as it was meant. -/
structure Writable (params : Params) (entry : FstabEntry) : Prop where
  device : IsField entry.device
  no_comment : entry.device.head? ≠ some hash
  mountpoint : IsField params.mountpoint
  filesystem : IsField entry.filesystem
  some_option : wantedOptions params entry.options ≠ []
  options : IsField (joined (wantedOptions params entry.options))
  no_comma : ∀ option ∈ wantedOptions params entry.options, comma ∉ option
  last_option : (wantedOptions params entry.options).getLast? ≠ some []

/-- The new line stands for the same entry, with the wanted options. -/
structure ReadsBack (params : Params) (entry : FstabEntry) (mnt : Mntent) : Prop where
  read : entryOfLine (fstabLine params entry) = some mnt
  fsname : mnt.fsname = entry.device
  dir : mnt.dir = params.mountpoint
  type : mnt.type = entry.filesystem
  opts : splitOptions mnt.opts = wantedOptions params entry.options
  freq : mnt.freq = entry.dump
  passno : mnt.passno = entry.pass

private theorem words_lineText (params : Params) (entry : FstabEntry) :
    words isBlank (lineText params entry) = words isBlank entry.device ++ words isBlank params.mountpoint ++
      words isBlank entry.filesystem ++ words isBlank (joined (wantedOptions params entry.options)) := by
  have hblank : isBlank 0x20 = true := rfl
  rw [lineText]
  split_ifs with hnil
  · rw [hnil]
    simp only [joined, List.intercalate_nil, words_nil, List.append_nil, List.append_assoc, List.cons_append,
      words_append_cons hblank]
  · simp only [List.append_assoc, List.cons_append, words_append_cons hblank]

private theorem words_fstabLine (params : Params) (entry : FstabEntry) :
    words isBlank (fstabLine params entry) = words isBlank entry.device ++ words isBlank params.mountpoint ++
      words isBlank entry.filesystem ++ words isBlank (joined (wantedOptions params entry.options)) ++
      [printSigned entry.dump.toInt, printSigned entry.pass.toInt] := by
  have hblank : isBlank 0x20 = true := rfl
  have hwords (i : Int) := (isNumeral_printSigned i).words_eq
  rw [fstabLine_eq]
  simp only [List.append_assoc, List.cons_append, words_append_cons hblank, words_lineText, hwords,
    List.nil_append]

variable {mnt : Mntent}

/-- What is read of the options is as long as they are written. -/
theorem ReadsBack.opts_eq (h : ReadsBack params entry mnt) (hne : wantedOptions params entry.options ≠ []) :
    mnt.opts = joined (wantedOptions params entry.options) ∨
      mnt.opts = joined (wantedOptions params entry.options) ++ [comma] :=
  opts_of_splitOptions h.opts hne

private theorem joined_length_le (h : ReadsBack params entry mnt) :
    (joined (wantedOptions params entry.options)).length ≤ mnt.opts.length := by
  by_cases hnil : wantedOptions params entry.options = []
  · rw [hnil]
    exact Nat.zero_le _
  · rcases h.opts_eq hnil with hopts | hopts
    · rw [hopts]
    · rw [hopts, List.length_append]
      omega

private theorem nonBlank_lineText_le (params : Params) (entry : FstabEntry) :
    nonBlank (lineText params entry) ≤ entry.device.length + params.mountpoint.length + entry.filesystem.length +
      (joined (wantedOptions params entry.options)).length := by
  have hsum := congrArg wordsLength (words_lineText params entry)
  simp only [wordsLength_append, wordsLength_words] at hsum
  have hdevice := nonBlank_le entry.device
  have hmountpoint := nonBlank_le params.mountpoint
  have hfilesystem := nonBlank_le entry.filesystem
  have hoptions := nonBlank_le (joined (wantedOptions params entry.options))
  omega

/-- A line that has been read again holds no NUL. -/
theorem ReadsBack.no_nul (h : ReadsBack params entry mnt) : 0 ∉ fstabLine params entry := by
  obtain ⟨hfsname, hdir, htype, hopts⟩ := entryOfLine_some h.read
  have hdevice := decodeName_length (wordAt (fstabLine params entry) 0)
  have hmountpoint := decodeName_length (wordAt (fstabLine params entry) 1)
  have hfilesystem := decodeName_length (wordAt (fstabLine params entry) 2)
  have hoptions := decodeName_length (wordAt (fstabLine params entry) 3)
  rw [← hfsname, h.fsname, wordAt] at hdevice
  rw [← hdir, h.dir, wordAt] at hmountpoint
  rw [← htype, h.type, wordAt] at hfilesystem
  rw [← hopts, wordAt] at hoptions
  have hlong := joined_length_le h
  have hread := getD_length (words isBlank (cString (fstabLine params entry)))
  rw [wordsLength_words] at hread
  have hwritten := nonBlank_lineText_le params entry
  rw [fstabLine_eq, List.append_assoc, List.mem_append, not_or]
  constructor
  · intro hnul
    have hcut := @nonBlank_cString _
      (0x20 :: printSigned entry.dump.toInt ++ 0x20 :: printSigned entry.pass.toInt) hnul
    rw [← List.append_assoc, ← fstabLine_eq] at hcut
    omega
  · have hnul (i : Int) := (isNumeral_printSigned i).no_nul
    simp [hnul]

private theorem texts_of_not_mem {c : UInt8} (h : c ∉ fstabLine params entry) :
    c ∉ entry.device ∧ c ∉ params.mountpoint ∧ c ∉ entry.filesystem ∧
      (wantedOptions params entry.options ≠ [] → c ∉ joined (wantedOptions params entry.options)) := by
  rw [fstabLine_eq, lineText] at h
  split_ifs at h with hnil
  · simp only [List.mem_append, List.mem_cons, not_or] at h
    exact ⟨h.1.1.1.1, h.1.1.1.2.2, h.1.1.2.2, fun hne => absurd hnil hne⟩
  · simp only [List.mem_append, List.mem_cons, not_or] at h
    exact ⟨h.1.1.1.1.1, h.1.1.1.1.2.2, h.1.1.1.2.2, fun _ => h.1.1.2.2⟩

private theorem head_fstabLine (hne : entry.device ≠ []) : (fstabLine params entry).head? = entry.device.head? := by
  obtain ⟨c, device, hdevice⟩ := List.exists_cons_of_ne_nil hne
  rw [fstabLine_eq, lineText, hdevice]
  split_ifs <;> rfl

/-- A line that is read again as it was meant is written for what can be written. -/
theorem ReadsBack.writable (h : ReadsBack params entry mnt) (hnewline : newline ∉ fstabLine params entry) :
    Writable params entry := by
  obtain ⟨hfsname, hdir, htype, hopts⟩ := entryOfLine_some h.read
  have hline : cString (fstabLine params entry) = fstabLine params entry := cString_of_nulFree h.no_nul
  rw [wordAt, hline] at hfsname hdir htype hopts
  have hnumeral : IsNumeral mnt.opts → joined (wantedOptions params entry.options) = mnt.opts := by
    intro hnumeral
    rw [← h.opts, splitOptions_numeral hnumeral, joined, List.intercalate_singleton]
  obtain ⟨⟨hne1, hblank1, hplain1⟩, ⟨hne2, hblank2, hplain2⟩, ⟨hne3, hblank3, hplain3⟩, hne4, hblank4, word, hlength, hword⟩ :=
    fields_of_words (isNumeral_printSigned entry.dump.toInt) (isNumeral_printSigned entry.pass.toInt)
      (words_fstabLine params entry) (hfsname.symm.trans h.fsname) (hdir.symm.trans h.dir)
      (htype.symm.trans h.type) hopts.symm (joined_length_le h) hnumeral
  obtain ⟨hnl1, hnl2, hnl3, hnl4⟩ := texts_of_not_mem hnewline
  obtain ⟨hnul1, hnul2, hnul3, hnul4⟩ := texts_of_not_mem h.no_nul
  have hsome : wantedOptions params entry.options ≠ [] := by
    intro hnil
    rw [hnil] at hne4
    exact hne4 rfl
  -- the word is as long as the options, so that nothing of it is decoded and there is no comma after them
  have hsame : mnt.opts = joined (wantedOptions params entry.options) := by
    rcases h.opts_eq hsome with hsame | hcomma
    · exact hsame
    · have hle := decodeName_length word
      rw [hword, hcomma, hlength, List.length_append, List.length_singleton] at hle
      omega
  have hplain4 : decodeName word = word := decodeName_of_length (by rw [hword, hsame, hlength])
  obtain rfl : word = joined (wantedOptions params entry.options) := hplain4.symm.trans (hword.trans hsame)
  have hread := h.opts
  rw [hsame, splitOptions_joined hsome] at hread
  refine ⟨⟨hne1, not_blank_of_nonBlank hblank1, hnul1, hnl1, hplain1⟩, ?_,
    ⟨hne2, not_blank_of_nonBlank hblank2, hnul2, hnl2, hplain2⟩,
    ⟨hne3, not_blank_of_nonBlank hblank3, hnul3, hnl3, hplain3⟩, hsome,
    ⟨hne4, not_blank_of_nonBlank hblank4, hnul4 hsome, hnl4 hsome, hplain4⟩, hread.1, hread.2⟩
  intro hhash
  have hhead : (fstabLine params entry).head? = some hash := (head_fstabLine hne1).trans hhash
  obtain ⟨rest, hrest⟩ := List.head?_eq_some_iff.mp hhead
  have hnone := entryOfLine_hash rest
  rw [← hrest, h.read] at hnone
  cases hnone

private theorem fieldOf_append {text rest : Bytes} (htext : ∀ c ∈ text, isBlank c = false) (hrest : EndsSpan isBlank rest) :
    fieldOf (text ++ 0x20 :: rest) = decodeName text ∧ afterField (text ++ 0x20 :: rest) = rest := by
  have hblank : isBlank 0x20 = true := rfl
  have hspan : ∀ c ∈ text, (! isBlank c) = true := fun c hc => by simp [htext c hc]
  have hends : EndsSpan (! isBlank ·) (0x20 :: rest) := endsSpan_cons.mpr (by simp [hblank])
  rw [fieldOf, afterField, takeWhile_span hspan hends, dropWhile_span hspan hends, List.dropWhile_cons_of_pos hblank,
    dropWhile_of_endsSpan hrest]
  exact ⟨rfl, rfl⟩

private theorem endsSpan_text {text rest : Bytes} (hne : text ≠ []) (htext : ∀ c ∈ text, isBlank c = false) :
    EndsSpan isBlank (text ++ rest) := by
  obtain ⟨c, text, rfl⟩ := List.exists_cons_of_ne_nil hne
  exact endsSpan_cons.mpr (htext c List.mem_cons_self)

/-- `%d` and `operator>>` of a `long` differ only in what does not fit. -/
theorem scanInt_of_signed {s rest : Bytes} {i : Int} (h : signed 64 s = some (i, rest)) :
    scanInt s = some (Int32.ofInt i, rest) := by
  rw [signed] at h
  rw [scanInt]
  cases hnumber : number s with
  | none =>
    rw [hnumber] at h
    cases h
  | some read =>
    obtain ⟨⟨negative, n⟩, after⟩ := read
    rw [hnumber] at h
    cases negative with
    | false =>
      dsimp only at h
      split_ifs at h with hfits
      cases h
      have hmin : min (2 ^ 63 - 1) (n : Int) = n := min_eq_right (by omega)
      exact congrArg (fun i => some (Int32.ofInt i, rest)) hmin
    | true =>
      dsimp only at h
      split_ifs at h with hfits
      cases h
      have hmax : max (-2 ^ 63) (-(n : Int)) = -n := max_eq_right (by omega)
      exact congrArg (fun i => some (Int32.ofInt i, rest)) hmax

private theorem numbersOf_print (freq passno : Int32) :
    numbersOf (printSigned freq.toInt ++ 0x20 :: printSigned passno.toInt) = (freq, passno) := by
  have hscan (i : Int32) {rest : Bytes} (hrest : Stops rest) : scanInt (printSigned i.toInt ++ rest) = some (i, rest) := by
    have hlow := i.le_toInt
    have hhigh := i.toInt_lt
    have hread := @signed_print 64 i.toInt (by omega) (by omega) rest hrest
    rw [scanInt_of_signed hread, Int32.ofInt_toInt]
  have hblank (s : Bytes) : scanInt (0x20 :: s) = scanInt s := by rw [scanInt, number_blank rfl, scanInt]
  have hfirst := @hscan freq (0x20 :: printSigned passno.toInt) (by
    intro c hc
    cases hc
    rfl)
  have hsecond := @hscan passno [] (by
    intro c hc
    cases hc)
  rw [List.append_nil] at hsecond
  rw [numbersOf, hfirst]
  dsimp only
  rw [hblank, hsecond]

/-- Fields that are written one after the other are read as they are. -/
theorem entryOfLine_fields {f1 f2 f3 f4 numbers : Bytes} (h1 : IsField f1) (hhash : f1.head? ≠ some hash) (h2 : IsField f2)
    (h3 : IsField f3) (h4 : IsField f4) (hnumbers : EndsSpan isBlank numbers) (hnul : 0 ∉ numbers) :
    entryOfLine (f1 ++ 0x20 :: (f2 ++ 0x20 :: (f3 ++ 0x20 :: (f4 ++ 0x20 :: numbers)))) =
      some { fsname := f1, dir := f2, type := f3, opts := f4
             freq := (numbersOf numbers).1, passno := (numbersOf numbers).2 } := by
  obtain ⟨hopts, hafterOpts⟩ := fieldOf_append h4.not_blank hnumbers
  obtain ⟨htype, hafterType⟩ := fieldOf_append h3.not_blank
    (@endsSpan_text _ (0x20 :: numbers) h4.ne_nil h4.not_blank)
  obtain ⟨hdir, hafterDir⟩ := fieldOf_append h2.not_blank
    (@endsSpan_text _ (0x20 :: (f4 ++ 0x20 :: numbers)) h3.ne_nil h3.not_blank)
  obtain ⟨hfsname, hafterFsname⟩ := fieldOf_append h1.not_blank
    (@endsSpan_text _ (0x20 :: (f3 ++ 0x20 :: (f4 ++ 0x20 :: numbers))) h2.ne_nil h2.not_blank)
  obtain ⟨line, hline⟩ : ∃ line, line = f1 ++ 0x20 :: (f2 ++ 0x20 :: (f3 ++ 0x20 :: (f4 ++ 0x20 :: numbers))) := ⟨_, rfl⟩
  rw [← hline] at hfsname hafterFsname ⊢
  have hnulFree : cString line = line := by
    apply cString_of_nulFree
    rw [hline, NulFree]
    simp only [List.mem_append, List.mem_cons, not_or]
    have hspace : (0 : UInt8) ≠ 0x20 := by decide
    exact ⟨h1.no_nul, hspace, h2.no_nul, hspace, h3.no_nul, hspace, h4.no_nul, hspace, hnul⟩
  have hhead : line.dropWhile isBlank = line := by
    rw [hline]
    exact dropWhile_of_endsSpan (endsSpan_text h1.ne_nil h1.not_blank)
  have hread : ¬ (line = [] ∨ line.head? = some hash) := by
    obtain ⟨c, f1, rfl⟩ := List.exists_cons_of_ne_nil h1.ne_nil
    rw [hline]
    simpa using hhash
  simp only [entryOfLine, hnulFree, hhead, if_neg hread, hfsname, hafterFsname, hdir, hafterDir, htype, hafterType, hopts,
    hafterOpts, h1.plain, h2.plain, h3.plain, h4.plain]

/-- What can be written is read again as it was meant. -/
theorem Writable.readsBack (h : Writable params entry) :
    newline ∉ fstabLine params entry ∧ ∃ mnt, ReadsBack params entry mnt := by
  have hdump := isNumeral_printSigned entry.dump.toInt
  have hpass := isNumeral_printSigned entry.pass.toInt
  have hspace : newline ≠ 0x20 := by decide
  have hline : fstabLine params entry = entry.device ++ 0x20 :: (params.mountpoint ++ 0x20 :: (entry.filesystem ++
      0x20 :: (joined (wantedOptions params entry.options) ++ 0x20 :: (printSigned entry.dump.toInt ++
        0x20 :: printSigned entry.pass.toInt)))) := by
    rw [fstabLine_eq, lineText, if_neg h.some_option]
    simp
  have hentry := entryOfLine_fields h.device h.no_comment h.mountpoint h.filesystem h.options
    (@endsSpan_text _ (0x20 :: printSigned entry.pass.toInt) hdump.ne_nil hdump.not_blank)
    (by simp [hdump.no_nul, hpass.no_nul])
  rw [← hline, numbersOf_print] at hentry
  refine ⟨?_, _, ⟨hentry, rfl, rfl, rfl, (splitOptions_joined h.some_option).mpr ⟨h.no_comma, h.last_option⟩, rfl, rfl⟩⟩
  rw [hline]
  simp only [List.mem_append, List.mem_cons, not_or]
  exact ⟨h.device.no_newline, hspace, h.mountpoint.no_newline, hspace, h.filesystem.no_newline, hspace,
    h.options.no_newline, hspace, hdump.no_newline, hspace, hpass.no_newline⟩

end Line

section Numbers

variable {n k : Nat} {inside : Bool} {dir : Bytes} {ls before after : List Bytes} {line : Bytes} {mnt : Mntent}

/-- The number that the line after these gets. -/
def numberAfter : Nat → Bool → List Bytes → Nat
  | n, inside, [] => if inside then n else n + 1
  | n, inside, line :: rest => numberAfter (if inside then n else n + 1) (goesOn inside line) rest

theorem countedFrom_append (h : entryOfLine line = some mnt) (before after : List Bytes) :
    countedFrom n inside (before ++ line :: after) = countedFrom n inside before ++
      (numberAfter n inside before, mnt) :: countedFrom (numberAfter n inside before) false after := by
  induction before generalizing n inside with
  | nil =>
    simp only [List.nil_append, countedFrom, h, numberAfter]
  | cons first before ih =>
    rw [List.cons_append, countedFrom, countedFrom, numberAfter]
    cases hfirst : entryOfLine first with
    | some other =>
      have hgoes : goesOn inside first = false := by simp [goesOn, hfirst]
      rw [hgoes]
      exact congrArg _ ih
    | none => exact ih

theorem numberAfter_bounds (before : List Bytes) : (if inside then n else n + 1) ≤ numberAfter n inside before ∧
    numberAfter n inside before ≤ (if inside then n else n + 1) + before.length := by
  induction before generalizing n inside with
  | nil => exact ⟨le_rfl, le_rfl⟩
  | cons first before ih =>
    rw [numberAfter, List.length_cons]
    obtain ⟨hlow, hhigh⟩ := @ih (if inside then n else n + 1) (goesOn inside first)
    split_ifs at hlow hhigh ⊢ <;> omega

/-- A line gets its own number just where no line before it slips. -/
theorem numberAfter_eq_iff (before : List Bytes) :
    numberAfter n false before = n + 1 + before.length ↔ ∀ line ∈ before, ¬ Slips line := by
  induction before generalizing n with
  | nil => simp [numberAfter]
  | cons first before ih =>
    rw [numberAfter, List.forall_mem_cons, List.length_cons, if_neg (by simp)]
    by_cases hslip : Slips first
    · have hgoes : goesOn false first = true := by simp [goesOn, hslip.no_entry, hslip]
      have hhigh := (@numberAfter_bounds (n + 1) true before).2
      rw [hgoes]
      simp only [if_true] at hhigh
      constructor
      · intro heq
        omega
      · intro hslips
        exact absurd hslip hslips.1
    · have hgoes : goesOn false first = false := by simp [goesOn, hslip]
      rw [hgoes, and_iff_right hslip, ← @ih (n + 1)]
      constructor <;> intro heq <;> omega

theorem entriesFrom_append (before after : List Bytes) :
    entriesFrom k (before ++ after) = entriesFrom k before ++ entriesFrom (k + before.length) after := by
  induction before generalizing k with
  | nil => rfl
  | cons first before ih =>
    rw [List.cons_append, entriesFrom, entriesFrom, ih, List.length_cons, Nat.add_right_comm, Nat.add_assoc]
    cases entryOfLine first <;> rfl

/-- A line names a mount point. -/
def Names (dir line : Bytes) : Prop := ∃ mnt, entryOfLine line = some mnt ∧ mnt.dir = dir

/-- The last line that names a mount point, with what is before and after it. -/
structure LastNaming (dir : Bytes) (ls before : List Bytes) (line : Bytes) (after : List Bytes) (mnt : Mntent) : Prop where
  split : ls = before ++ line :: after
  read : entryOfLine line = some mnt
  names : mnt.dir = dir
  last : ∀ other ∈ after, ¬ Names dir other

theorem exists_lastNaming (dir : Bytes) (ls : List Bytes) :
    (∃ before line after mnt, LastNaming dir ls before line after mnt) ∨ ∀ line ∈ ls, ¬ Names dir line := by
  induction ls with
  | nil => exact .inr fun line hline => (nomatch hline)
  | cons first rest ih =>
    rcases ih with ⟨before, line, after, mnt, h⟩ | hnone
    · exact .inl ⟨first :: before, line, after, mnt, by rw [h.split]; rfl, h.read, h.names, h.last⟩
    · by_cases hfirst : Names dir first
      · obtain ⟨mnt, hread, hdir⟩ := hfirst
        exact .inl ⟨[], first, rest, mnt, rfl, hread, hdir, hnone⟩
      · exact .inr (List.forall_mem_cons.mpr ⟨hfirst, hnone⟩)

theorem mem_countedFrom {x : Nat × Mntent} (h : x ∈ countedFrom n inside ls) : ∃ line ∈ ls, entryOfLine line = some x.2 := by
  induction ls generalizing n inside with
  | nil => cases h
  | cons first rest ih =>
    rw [countedFrom] at h
    cases hfirst : entryOfLine first with
    | some mnt =>
      rw [hfirst] at h
      rcases List.mem_cons.mp h with rfl | h
      · exact ⟨first, List.mem_cons_self, hfirst⟩
      · obtain ⟨line, hline, hread⟩ := ih h
        exact ⟨line, List.mem_cons_of_mem _ hline, hread⟩
    | none =>
      rw [hfirst] at h
      obtain ⟨line, hline, hread⟩ := ih h
      exact ⟨line, List.mem_cons_of_mem _ hline, hread⟩

theorem mem_entriesFrom {x : Nat × Mntent} (h : x ∈ entriesFrom k ls) : ∃ line ∈ ls, entryOfLine line = some x.2 := by
  induction ls generalizing k with
  | nil => cases h
  | cons first rest ih =>
    rw [entriesFrom] at h
    cases hfirst : entryOfLine first with
    | some mnt =>
      rw [hfirst] at h
      rcases List.mem_cons.mp h with rfl | h
      · exact ⟨first, List.mem_cons_self, hfirst⟩
      · obtain ⟨line, hline, hread⟩ := ih h
        exact ⟨line, List.mem_cons_of_mem _ hline, hread⟩
    | none =>
      rw [hfirst] at h
      obtain ⟨line, hline, hread⟩ := ih h
      exact ⟨line, List.mem_cons_of_mem _ hline, hread⟩

theorem LastNaming.find_counted (h : LastNaming dir ls before line after mnt) :
    ((countedFrom 0 false ls).reverse.find? fun x => x.2.dir = dir) = some (numberAfter 0 false before, mnt) := by
  rw [h.split, countedFrom_append h.read, find_reverse_iff]
  refine ⟨_, _, rfl, h.names, fun y hy => ?_⟩
  obtain ⟨other, hother, hread⟩ := mem_countedFrom hy
  exact fun hdir => h.last other hother ⟨y.2, hread, hdir⟩

theorem LastNaming.find_physical (h : LastNaming dir ls before line after mnt) :
    ((entriesFrom 1 ls).reverse.find? fun x => x.2.dir = dir) = some (before.length + 1, mnt) := by
  rw [h.split, entriesFrom_append, entriesFrom, h.read, find_reverse_iff, Nat.add_comm 1]
  refine ⟨_, _, rfl, h.names, fun y hy => ?_⟩
  obtain ⟨other, hother, hread⟩ := mem_entriesFrom hy
  exact fun hdir => h.last other hother ⟨y.2, hread, hdir⟩

/-- What is found of a mount point is of its last line. -/
theorem lastNaming_of_counted {x : Nat × Mntent}
    (h : ((countedFrom 0 false ls).reverse.find? fun x => x.2.dir = dir) = some x) :
    ∃ before line after, LastNaming dir ls before line after x.2 ∧ x.1 = numberAfter 0 false before := by
  rcases exists_lastNaming dir ls with ⟨before, line, after, mnt, hlast⟩ | hnone
  · rw [hlast.find_counted] at h
    cases h
    exact ⟨before, line, after, hlast, rfl⟩
  · obtain ⟨line, hline, hread⟩ := mem_countedFrom (List.mem_reverse.mp (List.mem_of_find?_eq_some h))
    exact absurd ⟨x.2, hread, by simpa using List.find?_some h⟩ (hnone line hline)

/-- No line that slips comes before one that names the mount point. -/
def CountedFor (dir : Bytes) (ls : List Bytes) : Prop :=
  ∀ front slip back, ls = front ++ slip :: back → Slips slip → ∀ line ∈ back, ¬ Names dir line

theorem LastNaming.countedFor_iff (h : LastNaming dir ls before line after mnt) :
    CountedFor dir ls ↔ ∀ line ∈ before, ¬ Slips line := by
  have hline : Names dir line := ⟨mnt, h.read, h.names⟩
  constructor
  · intro hcounted slip hmem hslip
    obtain ⟨front, back, rfl⟩ := List.append_of_mem hmem
    refine hcounted front slip (back ++ line :: after) ?_ hslip line (by simp) hline
    rw [h.split]
    simp
  · intro hbefore front slip back hsplit hslip other hother hnames
    have hnot : line ≠ slip := by
      rintro rfl
      exact absurd hslip.no_entry (by simp [h.read])
    rw [h.split] at hsplit
    rcases List.append_eq_append_iff.mp hsplit with ⟨middle, rfl, hafter⟩ | ⟨middle, rfl, hback⟩
    · cases middle with
      | nil => exact hnot (List.cons.inj hafter).1
      | cons first middle =>
        have hmem : other ∈ after := by
          rw [(List.cons.inj hafter).2]
          simp [hother]
        exact h.last other hmem hnames
    · cases middle with
      | nil => exact hnot (List.cons.inj hback).1.symm
      | cons first middle =>
        obtain ⟨rfl, -⟩ := List.cons.inj hback
        exact hbefore slip (by simp) hslip

end Numbers

end Kompli.FilesystemMountOption
