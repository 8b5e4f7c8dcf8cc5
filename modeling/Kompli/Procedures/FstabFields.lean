import Kompli.Foundation.Lines
import Kompli.Foundation.Words
import Kompli.Procedures.FilesystemMountOption

/-! The fields of a line of a table of file systems: which texts can be written into one and read from it. -/
namespace Kompli.FilesystemMountOption
open Foundation Streams Words

section Decode

/-- What is read of a field is no longer than it, and as long only where there is nothing to decode. -/
theorem decodeFrom_length (skip : Nat) (s : Bytes) :
    (decodeFrom skip s).length ≤ s.length - skip ∧
      ((decodeFrom skip s).length = s.length - skip → decodeFrom skip s = s.drop skip) := by
  induction s generalizing skip with
  | nil => cases skip <;> simp [decodeFrom]
  | cons c s ih =>
    cases skip with
    | succ skip =>
      rw [decodeFrom, List.length_cons, List.drop_succ_cons, Nat.add_sub_add_right]
      exact ih skip
    | zero =>
      rw [decodeFrom]
      cases hfind : escapes.find? fun escape => escape.1.isPrefixOf (c :: s) with
      | none =>
        obtain ⟨hle, heq⟩ := ih 0
        simp only [List.length_cons, List.drop_zero, Nat.sub_zero] at hle heq ⊢
        exact ⟨by omega, fun h => congrArg _ (heq (by omega))⟩
      | some escape =>
        have hlong : ∀ escape ∈ escapes, 2 ≤ escape.1.length := by decide
        have hescape := hlong escape (List.mem_of_find?_eq_some hfind)
        have hfits : escape.1.length ≤ (c :: s).length := by
          have hstarts := List.find?_some hfind
          exact (List.isPrefixOf_iff_prefix.mp hstarts).length_le
        obtain ⟨hle, -⟩ := ih (escape.1.length - 1)
        simp only [List.length_cons] at hfits hle ⊢
        exact ⟨by omega, fun h => by omega⟩

theorem decodeName_length (s : Bytes) : (decodeName s).length ≤ s.length := (decodeFrom_length 0 s).1

theorem decodeName_of_length {s : Bytes} (h : (decodeName s).length = s.length) : decodeName s = s :=
  (decodeFrom_length 0 s).2 h

/-- Nothing to decode where there is no backslash. -/
theorem decodeName_of_not_mem {s : Bytes} (h : 0x5C ∉ s) : decodeName s = s := by
  have hescapes : ∀ escape ∈ escapes, escape.1.head? = some 0x5C := by decide
  rw [decodeName]
  induction s with
  | nil => rfl
  | cons c s ih =>
    rw [List.mem_cons, not_or] at h
    have hfind : (escapes.find? fun escape => escape.1.isPrefixOf (c :: s)) = none := by
      rw [List.find?_eq_none]
      intro escape hmem hstarts
      obtain ⟨rest, hrest⟩ := List.isPrefixOf_iff_prefix.mp hstarts
      have hhead := hescapes escape hmem
      cases hescape : escape.1 with
      | nil =>
        rw [hescape] at hhead
        cases hhead
      | cons d text =>
        rw [hescape] at hhead hrest
        obtain rfl : d = 0x5C := Option.some.inj hhead
        exact h.1 (List.cons.inj hrest).1
    rw [decodeFrom, hfind]
    exact congrArg _ (ih h.2)

end Decode

section Fields

/-- The fields of a line, in the order of its words. -/
def wordAt (line : Bytes) (i : Nat) : Bytes := (words isBlank (cString line)).getD i []

private theorem words_of_head {head : Bytes} (hne : head ≠ []) (h : EndsSpan isBlank head) :
    words isBlank head = head.takeWhile (! isBlank ·) :: words isBlank (head.dropWhile (! isBlank ·)) := by
  obtain ⟨c, s, rfl⟩ := List.exists_cons_of_ne_nil hne
  have hc : isBlank c = false := endsSpan_cons.mp h
  have hword : ∀ d ∈ (c :: s).takeWhile (! isBlank ·), isBlank d = false := fun d hd => by
    simpa using List.mem_takeWhile_imp hd
  have htake : (c :: s).takeWhile (! isBlank ·) ≠ [] := by
    rw [List.takeWhile_cons_of_pos (by simp [hc])]
    exact List.cons_ne_nil _ _
  rw [← words_append hword htake (endsSpan_dropWhile _), List.takeWhile_append_dropWhile]

/-- A field is read of the first word, and then come the others. -/
theorem fieldOf_eq {head : Bytes} (h : EndsSpan isBlank head) :
    fieldOf head = decodeName ((words isBlank head).getD 0 []) ∧ EndsSpan isBlank (afterField head) ∧
      words isBlank (afterField head) = (words isBlank head).tail := by
  refine ⟨?_, endsSpan_dropWhile _, ?_⟩
  · by_cases hne : head = []
    · subst hne
      rfl
    · rw [words_of_head hne h]
      rfl
  · rw [afterField, words_dropWhile]
    by_cases hne : head = []
    · subst hne
      rfl
    · rw [words_of_head hne h]
      rfl

theorem entryOfLine_some {line : Bytes} {mnt : Mntent} (h : entryOfLine line = some mnt) :
    mnt.fsname = decodeName (wordAt line 0) ∧ mnt.dir = decodeName (wordAt line 1) ∧
      mnt.type = decodeName (wordAt line 2) ∧ mnt.opts = decodeName (wordAt line 3) := by
  simp only [entryOfLine] at h
  split_ifs at h
  cases h
  have hhead := endsSpan_dropWhile (p := isBlank) (cString line)
  obtain ⟨hfsname, hdirHead, hdirWords⟩ := fieldOf_eq hhead
  obtain ⟨hdir, htypeHead, htypeWords⟩ := fieldOf_eq hdirHead
  obtain ⟨htype, hoptsHead, hoptsWords⟩ := fieldOf_eq htypeHead
  obtain ⟨hopts, -, -⟩ := fieldOf_eq hoptsHead
  simp only [hfsname, hdir, htype, hopts, hdirWords, htypeWords, hoptsWords, words_dropWhile, wordAt]
  refine ⟨trivial, ?_, ?_, ?_⟩ <;> rcases words isBlank (cString line) with _ | ⟨_, _ | ⟨_, _ | ⟨_, _⟩⟩⟩ <;> rfl

end Fields

section Pieces

/-- A text that a field can hold as it is. -/
structure IsField (text : Bytes) : Prop where
  ne_nil : text ≠ []
  not_blank : ∀ c ∈ text, isBlank c = false
  no_nul : 0 ∉ text
  no_newline : newline ∉ text
  plain : decodeName text = text

instance (text : Bytes) : Decidable (IsField text) :=
  haveI : Decidable (∀ c ∈ text, isBlank c = false) := List.decidableBAll _ _
  decidable_of_iff (text ≠ [] ∧ (∀ c ∈ text, isBlank c = false) ∧ 0 ∉ text ∧ newline ∉ text ∧ decodeName text = text)
    ⟨fun h => ⟨h.1, h.2.1, h.2.2.1, h.2.2.2.1, h.2.2.2.2⟩,
      fun h => ⟨h.ne_nil, h.not_blank, h.no_nul, h.no_newline, h.plain⟩⟩

/-- What a number is printed as. -/
structure IsNumeral (text : Bytes) : Prop where
  ne_nil : text ≠ []
  not_blank : ∀ c ∈ text, isBlank c = false
  no_nul : 0 ∉ text
  no_newline : newline ∉ text
  no_comma : comma ∉ text
  no_backslash : 0x5C ∉ text

theorem isNumeral_printSigned (i : Int) : IsNumeral (printSigned i) := by
  have hmem : ∀ c ∈ printSigned i, c = 0x2D ∨ digit c = true := by
    intro c hc
    have hdigits : ∀ c ∈ printUnsigned i.natAbs, digit c = true := fun c hc => by
      simpa [digit] using (Decimal.print_canonical _).digits c hc
    rw [printSigned] at hc
    split_ifs at hc
    · rcases List.mem_cons.mp hc with rfl | hc
      · exact .inl rfl
      · exact .inr (hdigits c hc)
    · exact .inr (hdigits c hc)
  have hbyte (P : UInt8 → Prop) (hminus : P 0x2D) (hdigit : ∀ c, digit c = true → P c) : ∀ c ∈ printSigned i, P c := by
    intro c hc
    rcases hmem c hc with rfl | hc
    · exact hminus
    · exact hdigit c hc
  have hnot (d : UInt8) (hd : d ≠ 0x2D) (hdigit : digit d = false) : d ∉ printSigned i := by
    intro hc
    rcases hmem d hc with rfl | hc
    · exact hd rfl
    · rw [hc] at hdigit
      cases hdigit
  refine ⟨?_, ?_, hnot 0 (by decide) rfl, hnot _ (by decide) rfl, hnot _ (by decide) rfl, hnot _ (by decide) rfl⟩
  · rw [printSigned]
    split_ifs
    · exact List.cons_ne_nil _ _
    · exact (Decimal.print_canonical _).ne_nil
  · exact hbyte _ rfl fun c hc => by
      rw [digit, Bool.and_eq_true, decide_eq_true_eq, decide_eq_true_eq] at hc
      rw [isBlank, Bool.or_eq_false_iff, decide_eq_false_iff_not, decide_eq_false_iff_not]
      constructor
      · rintro rfl
        exact absurd hc.1 (by decide)
      · rintro rfl
        exact absurd hc.1 (by decide)

variable {f1 f2 f3 f4 opts d p line : Bytes}

theorem IsNumeral.words_eq (h : IsNumeral d) : words isBlank d = [d] := words_of_forall h.not_blank h.ne_nil

theorem IsNumeral.decode (h : IsNumeral d) : decodeName d = d := decodeName_of_not_mem h.no_backslash

def nonBlank (s : Bytes) : Nat := s.countP (! isBlank ·)

theorem nonBlank_le (s : Bytes) : nonBlank s ≤ s.length := List.countP_le_length

theorem not_blank_of_nonBlank {s : Bytes} (h : nonBlank s = s.length) : ∀ c ∈ s, isBlank c = false := by
  intro c hc
  simpa using List.countP_eq_length.mp h c hc

/-- A NUL cuts something off that is not blank. -/
theorem nonBlank_cString {s rest : Bytes} (h : 0 ∈ s) : nonBlank (cString (s ++ rest)) < nonBlank s := by
  induction s with
  | nil => cases h
  | cons c s ih =>
    rw [List.cons_append, cString, nonBlank, nonBlank]
    by_cases hc : c = 0
    · subst hc
      rw [List.takeWhile_cons_of_neg (by simp), List.countP_cons_of_pos (by decide)]
      exact Nat.succ_pos _
    · have hmem := ih ((List.mem_cons.mp h).resolve_left (Ne.symm hc))
      rw [cString, nonBlank, nonBlank] at hmem
      rw [List.takeWhile_cons_of_pos (by simpa using hc), List.countP_cons, List.countP_cons]
      omega

def wordsLength (ws : List Bytes) : Nat := (ws.map List.length).sum

theorem wordsLength_words (s : Bytes) : wordsLength (words isBlank s) = nonBlank s := length_words s

theorem wordsLength_append (xs ys : List Bytes) : wordsLength (xs ++ ys) = wordsLength xs + wordsLength ys := by
  rw [wordsLength, List.map_append, List.sum_append, wordsLength, wordsLength]

theorem getD_length (ws : List Bytes) :
    (ws.getD 0 []).length + (ws.getD 1 []).length + (ws.getD 2 []).length + (ws.getD 3 []).length ≤ wordsLength ws := by
  rcases ws with _ | ⟨a, _ | ⟨b, _ | ⟨c, _ | ⟨e, ws⟩⟩⟩⟩ <;> simp [wordsLength] <;> omega

/-- The fields that are read of a line are those that were put together where none of them is shorter: then the words
are the fields. -/
theorem fields_of_words (hd : IsNumeral d) (hp : IsNumeral p) {ws : List Bytes}
    (hws : ws = words isBlank f1 ++ words isBlank f2 ++ words isBlank f3 ++ words isBlank f4 ++ [d, p])
    (h1 : decodeName (ws.getD 0 []) = f1) (h2 : decodeName (ws.getD 1 []) = f2) (h3 : decodeName (ws.getD 2 []) = f3)
    (h4 : decodeName (ws.getD 3 []) = opts) (hopts : f4.length ≤ opts.length)
    (hnumeral : IsNumeral opts → f4 = opts) :
    (f1 ≠ [] ∧ nonBlank f1 = f1.length ∧ decodeName f1 = f1) ∧ (f2 ≠ [] ∧ nonBlank f2 = f2.length ∧ decodeName f2 = f2) ∧
      (f3 ≠ [] ∧ nonBlank f3 = f3.length ∧ decodeName f3 = f3) ∧
      f4 ≠ [] ∧ nonBlank f4 = f4.length ∧ ∃ word, word.length = f4.length ∧ decodeName word = opts := by
  have hone {f x : Bytes} (hx : IsNumeral x) (hf : f = x) : (words isBlank f).length = 1 := by rw [hf, hx.words_eq]; rfl
  obtain ⟨A, hA⟩ : ∃ A, A = words isBlank f1 ++ words isBlank f2 ++ words isBlank f3 ++ words isBlank f4 := ⟨_, rfl⟩
  have hcount := congrArg List.length hA
  simp only [List.length_append] at hcount
  rw [← hA] at hws
  subst hws
  -- where there are less than four words a numeral is read of each field from some one on, up to the last
  rcases A with _ | ⟨a, _ | ⟨b, _ | ⟨c, _ | ⟨e, rest⟩⟩⟩⟩
  · have hf1 := hone hd (h1.symm.trans hd.decode)
    simp only [List.length_nil] at hcount
    omega
  · have hf2 := hone hd (h2.symm.trans hd.decode)
    have hf3 := hone hp (h3.symm.trans hp.decode)
    simp only [List.length_cons, List.length_nil] at hcount
    omega
  · have hf3 : f3 = d := h3.symm.trans hd.decode
    have hopts' : opts = p := h4.symm.trans hp.decode
    have hf4 : f4 = p := (hnumeral (hopts' ▸ hp)).trans hopts'
    rw [hf4, hp.words_eq] at hA
    obtain ⟨-, hb⟩ := List.append_inj' (show [a] ++ [b] = _ ++ [p] from hA) rfl
    have hb' : b = p := (List.cons.inj hb).1
    have hf2 := hone hp (h2.symm.trans ((congrArg decodeName hb').trans hp.decode))
    have hone3 := hone hd hf3
    have hone4 := hone hp hf4
    simp only [List.length_cons, List.length_nil] at hcount
    omega
  · have hopts' : opts = d := h4.symm.trans hd.decode
    have hf4 : f4 = d := (hnumeral (hopts' ▸ hd)).trans hopts'
    have hone4 := hone hd hf4
    rw [hf4, hd.words_eq] at hA
    obtain ⟨hA, hc⟩ := List.append_inj' (show [a, b] ++ [c] = _ ++ [d] from hA) rfl
    have hf3 : f3 = d := h3.symm.trans ((congrArg decodeName (List.cons.inj hc).1).trans hd.decode)
    have hone3 := hone hd hf3
    rw [hf3, hd.words_eq] at hA
    obtain ⟨hA, hb⟩ := List.append_inj' (show [a] ++ [b] = _ ++ [d] from hA) rfl
    have hf2 : f2 = d := h2.symm.trans ((congrArg decodeName (List.cons.inj hb).1).trans hd.decode)
    have hone2 := hone hd hf2
    rw [hf2, hd.words_eq] at hA
    obtain ⟨-, ha⟩ := List.append_inj' (show [] ++ [a] = _ ++ [d] from hA) rfl
    have hone1 := hone hd (h1.symm.trans ((congrArg decodeName (List.cons.inj ha).1).trans hd.decode))
    simp only [List.length_cons, List.length_nil] at hcount
    omega
  · -- the words are no longer than the fields, and the fields no longer than what is read of the words
    have hsum := congrArg wordsLength hA
    simp only [wordsLength, List.map_append, List.sum_append, List.map_cons, List.sum_cons] at hsum
    have hwords (s : Bytes) : ((words isBlank s).map List.length).sum = nonBlank s := length_words s
    simp only [hwords] at hsum
    have ha : decodeName a = f1 := h1
    have hb : decodeName b = f2 := h2
    have hc : decodeName c = f3 := h3
    have he : decodeName e = opts := h4
    have hle1 : f1.length ≤ a.length := ha ▸ decodeName_length a
    have hle2 : f2.length ≤ b.length := hb ▸ decodeName_length b
    have hle3 : f3.length ≤ c.length := hc ▸ decodeName_length c
    have hle4 : opts.length ≤ e.length := he ▸ decodeName_length e
    have hnb1 := nonBlank_le f1
    have hnb2 := nonBlank_le f2
    have hnb3 := nonBlank_le f3
    have hnb4 := nonBlank_le f4
    have hword {w : Bytes} (hw : w ∈ a :: b :: c :: e :: rest) : w ≠ [] := by
      rw [hA] at hw
      simp only [List.mem_append] at hw
      rcases hw with ((hw | hw) | hw) | hw <;> exact (mem_words hw).1
    have hfield {w f : Bytes} (hw : w ≠ []) (hdecode : decodeName w = f) (hlength : w.length = f.length) :
        f ≠ [] ∧ decodeName f = f := by
      have hplain : decodeName w = w := decodeName_of_length (by rw [hdecode, hlength])
      obtain rfl : f = w := hdecode.symm.trans hplain
      exact ⟨hw, hplain⟩
    obtain ⟨hne1, hplain1⟩ := hfield (hword (by simp)) ha (by omega)
    obtain ⟨hne2, hplain2⟩ := hfield (hword (by simp)) hb (by omega)
    obtain ⟨hne3, hplain3⟩ := hfield (hword (by simp)) hc (by omega)
    have he' : e ≠ [] := hword (by simp)
    refine ⟨⟨hne1, by omega, hplain1⟩, ⟨hne2, by omega, hplain2⟩, ⟨hne3, by omega, hplain3⟩, ?_, by omega, e,
      by omega, he⟩
    have hpos := List.length_pos_iff.mpr he'
    exact List.ne_nil_of_length_pos (by omega)

end Pieces

section Options

variable {options : List Bytes} {opts : Bytes}

/-- The options as a field has them. -/
def joined (options : List Bytes) : Bytes := [comma].intercalate options

theorem flatMap_comma (hne : options ≠ []) :
    (options.flatMap fun option => option ++ utf8 ",") = joined options ++ [comma] := by
  induction options with
  | nil => exact absurd rfl hne
  | cons option options ih =>
    by_cases hnil : options = []
    · subst hnil
      simp [joined, List.intercalate_singleton]
      rfl
    · rw [List.flatMap_cons, ih hnil, joined, joined, List.intercalate_cons_of_ne_nil hnil, List.append_assoc,
        List.append_assoc, List.append_assoc]
      rfl

private theorem dropLast_append_nil {items : List Bytes} (h : items.getLast? = some []) : items = items.dropLast ++ [[]] := by
  obtain ⟨front, rfl⟩ := List.getLast?_eq_some_iff.mp h
  rw [List.dropLast_concat]

private theorem intercalate_concat_nil {items : List Bytes} (hne : items ≠ []) :
    [comma].intercalate (items ++ [[]]) = joined items ++ [comma] := by
  rw [joined]
  induction items with
  | nil => exact absurd rfl hne
  | cons item items ih =>
    by_cases hnil : items = []
    · subst hnil
      rw [List.intercalate_singleton, List.singleton_append, List.intercalate_cons_cons, List.intercalate_singleton,
        List.append_nil]
    · rw [List.cons_append, List.intercalate_cons_of_ne_nil (List.append_ne_nil_of_left_ne_nil hnil _), ih hnil,
        List.intercalate_cons_of_ne_nil hnil, List.append_assoc, List.append_assoc, List.append_assoc]

/-- At most a comma at the end is lost when the options are read. -/
theorem opts_of_splitOptions (h : splitOptions opts = options) (hne : options ≠ []) :
    opts = joined options ∨ opts = joined options ++ [comma] := by
  have hopts : [comma].intercalate (opts.splitOn comma) = opts := List.intercalate_splitOn comma
  rw [splitOptions] at h
  split_ifs at h with hlast
  · right
    rw [dropLast_append_nil hlast, h, intercalate_concat_nil hne] at hopts
    exact hopts.symm
  · left
    rw [joined, ← h, hopts]

/-- The options that are read again as they have been written. -/
theorem splitOptions_joined (hne : options ≠ []) : splitOptions (joined options) = options ↔
    (∀ option ∈ options, comma ∉ option) ∧ options.getLast? ≠ some [] := by
  have hopts : [comma].intercalate ((joined options).splitOn comma) = joined options := List.intercalate_splitOn comma
  constructor
  · intro h
    rw [splitOptions] at h
    split_ifs at h with hlast
    · rw [dropLast_append_nil hlast, h, intercalate_concat_nil hne] at hopts
      exact absurd (congrArg List.length hopts) (by simp)
    · refine ⟨fun option hoption => ?_, h ▸ hlast⟩
      rw [← h] at hoption
      exact not_mem_of_mem_splitOn hoption
  · rintro ⟨hcomma, hlast⟩
    rw [splitOptions, joined, List.splitOn_intercalate comma hcomma hne, if_neg hlast]

theorem splitOptions_numeral (h : IsNumeral opts) : splitOptions opts = [opts] := by
  have hlast : opts ≠ [] := h.ne_nil
  rw [splitOptions, List.splitOn_eq_singleton h.no_comma]
  simp [hlast]

end Options

end Kompli.FilesystemMountOption
