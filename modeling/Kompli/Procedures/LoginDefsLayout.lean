import Kompli.Foundation.Lines
import Kompli.Parsers.LoginDefsLines
import Kompli.Procedures.LoginDefsOption

/-! The lines of `login.defs` as its parser and its rewriter take them apart, and what the rewriter makes of them. -/
namespace Kompli.LoginDefsOption
open Parson Ascii Foundation Streams StringTools LoginDefs

section Layout

theorem isLoginDefsSeparator_eq : isLoginDefsSeparator = isSeparator := rfl

theorem isSeparator_iff {c : UInt8} : isSeparator c = true ↔ isSpace c = true ∧ c ≠ newline := by
  have hbytes : utf8 " \t\r" = [0x20, 0x09, 0x0D] := by decide +kernel
  rw [isSpace_iff, isSeparator, hbytes]
  simp only [List.mem_cons, List.not_mem_nil, or_false, Bool.decide_or, Bool.or_eq_true, decide_eq_true_eq,
    ← UInt8.toNat_inj, ne_eq, newline, UInt8.reduceToNat]
  omega

/-- The parts of a line that has a key and a value. -/
structure Layout (line before name gap text after : Bytes) : Prop where
  eq : line = before ++ (name ++ (gap ++ (text ++ after)))
  before_separators : ∀ c ∈ before, isSeparator c = true
  name_plain : ∀ c ∈ name, isSeparator c = false ∧ c ≠ hash
  name_ne_nil : name ≠ []
  gap_separators : ∀ c ∈ gap, isSeparator c = true
  gap_ne_nil : gap ≠ []
  text_plain : hash ∉ text
  text_starts : EndsSpan isSpace text
  text_ends : EndsSpan isSpace text.reverse
  text_ne_nil : text ≠ []
  after_comment : ∃ blanks comment, after = blanks ++ comment ∧ (∀ c ∈ blanks, isSeparator c = true) ∧
    ∀ c ∈ comment.head?, c = hash

theorem endsSpan_isSeparator {s : Bytes} (h : EndsSpan isSpace s) : EndsSpan isSeparator s := by
  intro c hc
  refine Bool.eq_false_iff.mpr fun hseparator => ?_
  have hspace := (isSeparator_iff.mp hseparator).1
  rw [h c hc] at hspace
  cases hspace

namespace Layout

variable {line before name gap text after : Bytes}

private theorem endsSpan_name (h : Layout line before name gap text after) : EndsSpan isSeparator (name ++ (gap ++ (text ++ after))) := by
  refine endsSpan_append (fun c hc => ?_) h.name_ne_nil
  exact (h.name_plain c (List.mem_of_mem_head? hc)).1

private theorem head_gap (h : Layout line before name gap text after) {p : UInt8 → Bool}
    (hp : ∀ c, isSeparator c = true → p c = false) : EndsSpan p (gap ++ (text ++ after)) := by
  refine endsSpan_append (fun c hc => hp c ?_) h.gap_ne_nil
  exact h.gap_separators c (List.mem_of_mem_head? hc)

theorem fromKey_eq (h : Layout line before name gap text after) : fromKey line = name ++ (gap ++ (text ++ after)) := by
  rw [fromKey, h.eq, dropWhile_span h.before_separators h.endsSpan_name]

theorem isRecord (h : Layout line before name gap text after) : IsRecord line := by
  rw [IsRecord, h.fromKey_eq]
  obtain ⟨c, rest, hname⟩ := List.exists_cons_of_ne_nil h.name_ne_nil
  have hc := (h.name_plain c (by rw [hname]; exact List.mem_cons_self)).2
  rw [hname]
  exact ⟨List.cons_ne_nil _ _, by simpa using hc⟩

theorem key_eq (h : Layout line before name gap text after) : key line = name := by
  rw [key, h.fromKey_eq]
  apply takeWhile_span
  · intro c hc
    obtain ⟨hseparator, hhash⟩ := h.name_plain c hc
    simp [hseparator, hhash]
  · exact h.head_gap fun c hc => by simp [hc]

private theorem endsSpan_text (h : Layout line before name gap text after) : EndsSpan isSeparator (text ++ after) :=
  endsSpan_append (endsSpan_isSeparator h.text_starts) h.text_ne_nil

theorem fromValue_eq (h : Layout line before name gap text after) : fromValue line = text ++ after := by
  rw [fromValue, h.key_eq, h.fromKey_eq, List.drop_left, dropWhile_span h.gap_separators h.endsSpan_text]

theorem stripComment_eq (h : Layout line before name gap text after) :
    ∃ blanks, stripComment (text ++ after) = text ++ blanks ∧ ∀ c ∈ blanks, isSeparator c = true := by
  obtain ⟨blanks, comment, hafter, hblanks, hcomment⟩ := h.after_comment
  refine ⟨blanks, ?_, hblanks⟩
  rw [stripComment, hafter, ← List.append_assoc]
  apply takeWhile_span
  · intro c hc
    rw [decide_eq_true_eq]
    rintro rfl
    rcases List.mem_append.mp hc with htext | hblank
    · exact h.text_plain htext
    · exact absurd (hblanks hash hblank) (by decide)
  · intro c hc
    simp [hcomment c hc]

theorem value_eq (h : Layout line before name gap text after) : value line = text := by
  obtain ⟨blanks, hstrip, hblanks⟩ := h.stripComment_eq
  have hspaces : ∀ c ∈ blanks.reverse, isSpace c = true := by
    intro c hc
    exact (isSeparator_iff.mp (hblanks c (List.mem_reverse.mp hc))).1
  rw [value, h.fromValue_eq, hstrip, trimWhiteSpaces, dropWhile_of_endsSpan (endsSpan_append h.text_starts h.text_ne_nil),
    List.reverse_append, dropWhile_span hspaces h.text_ends, List.reverse_reverse]

/-- The rewriter finds the same key and the same value. -/
theorem replaceValue_eq (h : Layout line before name gap text after) (option v : Bytes) :
    replaceValue option v line = if name = option then some (before ++ (name ++ (gap ++ (v ++ after)))) else none := by
  have hrest : line.dropWhile isSeparator = name ++ (gap ++ (text ++ after)) := h.fromKey_eq
  have hname : ∀ c ∈ name, (!isSeparator c) = true := by
    intro c hc
    simp [(h.name_plain c hc).1]
  have hgap : EndsSpan (! isSeparator ·) (gap ++ (text ++ after)) := h.head_gap fun c hc => by simp [hc]
  obtain ⟨blanks, hstrip, hblanks⟩ := h.stripComment_eq
  have hblanks' : ∀ c ∈ blanks.reverse, isSeparator c = true := fun c hc => hblanks c (List.mem_reverse.mp hc)
  have hold : ((stripComment (text ++ after)).reverse.dropWhile isSeparator).reverse = text := by
    rw [hstrip, List.reverse_append, dropWhile_span hblanks' (endsSpan_isSeparator h.text_ends), List.reverse_reverse]
  have hbefore : line.take (line.length - (text ++ after).length) = before ++ (name ++ gap) := by
    have hline : line = before ++ (name ++ gap) ++ (text ++ after) := by simp [h.eq]
    rw [hline, List.length_append, Nat.add_sub_cancel, List.take_left]
  obtain ⟨hne, hhead⟩ := h.isRecord
  rw [fromKey, hrest] at hne hhead
  simp only [replaceValue, isLoginDefsSeparator_eq, hrest, dropWhile_span hname hgap, takeWhile_span hname hgap,
    dropWhile_span h.gap_separators h.endsSpan_text, hold, hbefore, List.drop_left]
  by_cases hoption : name = option
  · rw [if_pos hoption, if_neg]
    · simp only [List.append_assoc]
    · rintro (hnil | hhash | hother)
      exacts [hne hnil, hhead hhash, hother hoption]
  · rw [if_pos (.inr (.inr hoption)), if_neg hoption]

end Layout

theorem replaceValue_of_not_record {line : Bytes} (h : ¬ IsRecord line) (option v : Bytes) : replaceValue option v line = none := by
  have hnone : fromKey line = [] ∨ (fromKey line).head? = some hash := by
    by_contra hboth
    rw [not_or] at hboth
    exact h hboth
  have hrest : line.dropWhile isSeparator = fromKey line := rfl
  simp only [replaceValue, isLoginDefsSeparator_eq, hrest]
  rw [if_pos (hnone.imp_right .inl)]

theorem endsSpan_isSpace {s : Bytes} (h : EndsSpan isSeparator s) (hnewline : newline ∉ s) : EndsSpan isSpace s := by
  intro c hc
  refine Bool.eq_false_iff.mpr fun hspace => ?_
  have hmem := List.mem_of_mem_head? hc
  have hseparator := isSeparator_iff.mpr ⟨hspace, fun heq => hnewline (heq ▸ hmem)⟩
  rw [h c hc] at hseparator
  cases hseparator

/-- A line with a value can be laid out. -/
theorem exists_layout {line : Bytes} (hrecord : IsRecord line) (hvalue : stripComment (fromValue line) ≠ [])
    (hnewline : newline ∉ line) : ∃ before gap text after, Layout line before (key line) gap text after := by
  obtain ⟨hne, hhead⟩ := hrecord
  have hname : ∀ c ∈ key line, isSeparator c = false ∧ c ≠ hash := by
    intro c hc
    simpa using List.mem_takeWhile_imp hc
  have hafterKey : (fromKey line).drop (key line).length = (fromKey line).dropWhile fun c => !isSeparator c && c ≠ hash :=
    drop_length_takeWhile _ _
  have hfromValue : fromValue line = ((fromKey line).dropWhile fun c => !isSeparator c && c ≠ hash).dropWhile isSeparator := by
    rw [fromValue, hafterKey]
  obtain ⟨text, htext, hends⟩ := exists_last_span isSeparator (stripComment (fromValue line))
  set rest := (fromKey line).dropWhile fun c => !isSeparator c && c ≠ hash with hrest
  set blanks := ((stripComment (fromValue line)).reverse.takeWhile isSeparator).reverse with hblanks
  have hstarts : EndsSpan isSeparator (fromValue line) := hfromValue ▸ endsSpan_dropWhile rest
  have hsplit : fromValue line = text ++ (blanks ++ (fromValue line).dropWhile (· ≠ hash)) := by
    rw [← List.append_assoc, ← htext, stripComment, List.takeWhile_append_dropWhile]
  have hline : line = line.takeWhile isSeparator ++ (key line ++ (rest.takeWhile isSeparator ++
      (text ++ (blanks ++ (fromValue line).dropWhile (· ≠ hash))))) := by
    rw [← hsplit, hfromValue, List.takeWhile_append_dropWhile, key, hrest, List.takeWhile_append_dropWhile, fromKey,
      List.takeWhile_append_dropWhile]
  obtain ⟨c, tail, hcons⟩ : ∃ c tail, fromValue line = c :: tail := by
    apply List.exists_cons_of_ne_nil
    intro hnil
    rw [hnil] at hvalue
    exact hvalue rfl
  have hfirst : isSeparator c = false := endsSpan_cons.mp (hcons ▸ hstarts)
  have hplain : c ≠ hash := by
    rintro rfl
    rw [hcons] at hvalue
    exact hvalue rfl
  have htextNe : text ≠ [] := by
    rintro rfl
    -- all of it would be separators, and it does not start with one
    have hmem : c ∈ blanks := by
      rw [List.nil_append] at htext
      rw [← htext, hcons, stripComment, List.takeWhile_cons_of_pos (by simpa using hplain)]
      exact List.mem_cons_self
    have hseparator := List.mem_takeWhile_imp (List.mem_reverse.mp hmem)
    rw [hfirst] at hseparator
    cases hseparator
  have hmem {c : UInt8} (hc : c ∈ text) : c ∈ line := by
    rw [hline]
    simp [hc]
  refine ⟨line.takeWhile isSeparator, rest.takeWhile isSeparator, text, blanks ++ (fromValue line).dropWhile (· ≠ hash), ?_⟩
  exact
    { eq := hline
      before_separators := fun c hc => List.mem_takeWhile_imp hc
      name_plain := hname
      name_ne_nil := by
        obtain ⟨d, others, hd⟩ := List.exists_cons_of_ne_nil hne
        have hseparator : isSeparator d = false := by
          have hspan : EndsSpan isSeparator (fromKey line) := endsSpan_dropWhile line
          exact endsSpan_cons.mp (hd ▸ hspan)
        have hhash : d ≠ hash := by simpa [hd] using hhead
        rw [key, hd, List.takeWhile_cons_of_pos (by simp [hseparator, hhash])]
        exact List.cons_ne_nil _ _
      gap_separators := fun c hc => List.mem_takeWhile_imp hc
      gap_ne_nil := by
        intro hnil
        have hsame : rest = c :: tail := by
          rw [← hcons, hfromValue]
          calc rest = rest.takeWhile isSeparator ++ rest.dropWhile isSeparator := List.takeWhile_append_dropWhile.symm
            _ = rest.dropWhile isSeparator := by rw [hnil, List.nil_append]
        have hspan : EndsSpan (fun c => !isSeparator c && c ≠ hash) rest := endsSpan_dropWhile _
        rw [hsame, endsSpan_cons] at hspan
        simp [hfirst, hplain] at hspan
      text_plain := by
        intro hmem
        have hstripped : hash ∈ stripComment (fromValue line) := by
          rw [htext]
          exact List.mem_append_left _ hmem
        exact not_mem_takeWhile _ hstripped
      text_starts := by
        refine endsSpan_isSpace (fun d hd => hstarts d ?_) fun hc => hnewline (hmem hc)
        rw [hsplit, List.head?_append_of_ne_nil _ htextNe]
        exact hd
      text_ends := endsSpan_isSpace hends fun hc => hnewline (hmem (List.mem_reverse.mp hc))
      text_ne_nil := htextNe
      after_comment := by
        refine ⟨blanks, _, rfl, fun d hd => List.mem_takeWhile_imp (List.mem_reverse.mp hd), fun d hd => ?_⟩
        simpa using endsSpan_dropWhile (fromValue line) d hd }

end Layout

section Rewrite

/-- The comment of a line. -/
def fromComment (line : Bytes) : Bytes := line.dropWhile (· ≠ hash)

theorem Layout.fromComment_eq {line before name gap text after : Bytes} (h : Layout line before name gap text after) :
    fromComment line = fromComment after := by
  have hseparator {c : UInt8} (hc : isSeparator c = true) : c ≠ hash := by
    rintro rfl
    exact absurd hc (by decide)
  have hplain : ∀ c ∈ before ++ (name ++ (gap ++ text)), decide (c ≠ hash) = true := by
    intro c hc
    rw [decide_eq_true_eq]
    simp only [List.mem_append] at hc
    rcases hc with hbefore | hname | hgap | htext
    · exact hseparator (h.before_separators c hbefore)
    · exact (h.name_plain c hname).2
    · exact hseparator (h.gap_separators c hgap)
    · rintro rfl
      exact h.text_plain htext
  have hline : line = before ++ (name ++ (gap ++ text)) ++ after := by simp [h.eq]
  rw [fromComment, hline, List.dropWhile_append_of_pos hplain, fromComment]

/-- A text that is read as a value, also without the blanks before it. -/
structure Writes {α : Type} (parse : Bytes → Except Error α) (w : α) (v lead core : Bytes) : Prop where
  eq : v = lead ++ core
  lead_separators : ∀ c ∈ lead, isSeparator c = true
  core_plain : hash ∉ core
  core_starts : EndsSpan isSpace core
  core_ends : EndsSpan isSpace core.reverse
  core_ne_nil : core ≠ []
  parse : parse core = .ok w
  nulFree : NulFree v
  newline : newline ∉ v

variable {k : Key} {w : k.Value} {v lead core : Bytes}

theorem Layout.write {line before name gap text after : Bytes} (h : Layout line before name gap text after)
    (hwrites : Writes k.parse w v lead core) :
    Layout (before ++ (name ++ (gap ++ (v ++ after)))) before name (gap ++ lead) core after where
  eq := by simp [hwrites.eq]
  before_separators := h.before_separators
  name_plain := h.name_plain
  name_ne_nil := h.name_ne_nil
  gap_separators c hc := (List.mem_append.mp hc).elim (h.gap_separators c) (hwrites.lead_separators c)
  gap_ne_nil := List.append_ne_nil_of_left_ne_nil h.gap_ne_nil lead
  text_plain := hwrites.core_plain
  text_starts := hwrites.core_starts
  text_ends := hwrites.core_ends
  text_ne_nil := hwrites.core_ne_nil
  after_comment := h.after_comment

/-- What the rewriter makes of a line. -/
structure Rewrites (k : Key) (w : k.Value) (line line' : Bytes) : Prop where
  other : ¬ (IsRecord line ∧ key line = k.name) → line' = line
  assigns : IsRecord line → key line = k.name → Assigns line' k w
  comment : fromComment line' = fromComment line
  value : IsRecord line → key line = k.name → stripComment (fromValue line') ≠ []
  nulFree : NulFree line'
  newline : newline ∉ line'

def rewriteLine (option v line : Bytes) : Bytes := (replaceValue option v line).getD line

theorem Layout.stripComment_ne_nil {line before name gap text after : Bytes} (h : Layout line before name gap text after) :
    stripComment (fromValue line) ≠ [] := by
  obtain ⟨blanks, hstrip, -⟩ := h.stripComment_eq
  rw [h.fromValue_eq, hstrip]
  exact List.append_ne_nil_of_left_ne_nil h.text_ne_nil blanks

theorem Layout.assigns {line before gap after : Bytes} (h : Layout line before k.name gap core after)
    (hparse : k.parse core = .ok w) : Assigns line k w :=
  ⟨h.isRecord, h.key_eq.symm, by rw [h.value_eq, hparse]⟩

/-- The lines that the rewriter changes are the records of the key. -/
theorem isSome_replaceValue_iff {line : Bytes} (haccepted : Accepted line) (hnewline : newline ∉ line) :
    (replaceValue k.name v line).isSome ↔ IsRecord line ∧ key line = k.name := by
  by_cases hrecord : IsRecord line
  · obtain ⟨before, gap, text, after, hlayout⟩ := exists_layout hrecord (haccepted.value hrecord) hnewline
    rw [hlayout.replaceValue_eq]
    split_ifs with hkey
    · simp [hrecord, hkey]
    · simp [hkey]
  · rw [replaceValue_of_not_record hrecord]
    simp [hrecord]

theorem rewriteLine_rewrites (hwrites : Writes k.parse w v lead core) {line : Bytes} (haccepted : Accepted line)
    (hnewline : newline ∉ line) : Rewrites k w line (rewriteLine k.name v line) := by
  by_cases hsame : IsRecord line ∧ key line = k.name
  · obtain ⟨hrecord, hkey⟩ := hsame
    obtain ⟨before, gap, text, after, hlayout⟩ := exists_layout hrecord (haccepted.value hrecord) hnewline
    rw [hkey] at hlayout
    have hnew := hlayout.write hwrites
    have hline : rewriteLine k.name v line = before ++ (k.name ++ (gap ++ (v ++ after))) := by
      rw [rewriteLine, hlayout.replaceValue_eq, if_pos rfl, Option.getD_some]
    have hmem {c : UInt8} (hc : c ∈ before ++ (k.name ++ (gap ++ (v ++ after)))) : c ∈ line ∨ c ∈ v := by
      rw [hlayout.eq]
      simp only [List.mem_append] at hc ⊢
      tauto
    rw [hline]
    exact
      { other := fun h => absurd ⟨hrecord, hkey⟩ h
        assigns := fun _ _ => hnew.assigns hwrites.parse
        comment := by rw [hnew.fromComment_eq, hlayout.fromComment_eq]
        value := fun _ _ => hnew.stripComment_ne_nil
        nulFree := fun hc => (hmem hc).elim haccepted.nulFree hwrites.nulFree
        newline := fun hc => (hmem hc).elim hnewline hwrites.newline }
  · have hline : rewriteLine k.name v line = line := by
      rw [← isSome_replaceValue_iff haccepted hnewline (v := v), Option.not_isSome_iff_eq_none] at hsame
      rw [rewriteLine, hsame, Option.getD_none]
    rw [hline]
    exact
      { other := fun _ => rfl
        assigns := fun hrecord hkey => absurd ⟨hrecord, hkey⟩ hsame
        comment := rfl
        value := fun hrecord hkey => absurd ⟨hrecord, hkey⟩ hsame
        nulFree := haccepted.nulFree
        newline := hnewline }

theorem rewriteLine_eq_nil_iff {option : Bytes} (hne : v ≠ []) (line : Bytes) : rewriteLine option v line = [] ↔ line = [] := by
  rw [rewriteLine]
  cases hreplace : replaceValue option v line with
  | none => rfl
  | some line' =>
    simp only [replaceValue] at hreplace
    split_ifs at hreplace with hnone
    cases hreplace
    have hline : line ≠ [] := by
      rintro rfl
      exact hnone (.inl rfl)
    simp [hne, hline]

theorem Writes.ne_nil (hwrites : Writes k.parse w v lead core) : v ≠ [] := by
  rw [hwrites.eq]
  exact List.append_ne_nil_of_right_ne_nil lead hwrites.core_ne_nil

theorem name_plain (k : Key) : ∀ c ∈ k.name, isSeparator c = false ∧ c ≠ hash ∧ c ≠ newline ∧ c ≠ 0 := by
  cases k <;> decide +kernel

/-- The line of an option that was not there. -/
def addedLine (k : Key) (v : Bytes) : Bytes := k.name ++ utf8 "\t" ++ v

theorem layout_addedLine (hwrites : Writes k.parse w v lead core) :
    Layout (addedLine k v) [] k.name (utf8 "\t" ++ lead) core [] where
  eq := by simp [addedLine, hwrites.eq]
  before_separators := by simp
  name_plain c hc := ⟨(name_plain k c hc).1, (name_plain k c hc).2.1⟩
  name_ne_nil := by cases k <;> decide +kernel
  gap_separators c hc := by
    rcases List.mem_append.mp hc with htab | hlead
    · have htabs : ∀ c ∈ utf8 "\t", isSeparator c = true := by decide +kernel
      exact htabs c htab
    · exact hwrites.lead_separators c hlead
  gap_ne_nil := List.append_ne_nil_of_left_ne_nil (by decide +kernel) lead
  text_plain := hwrites.core_plain
  text_starts := hwrites.core_starts
  text_ends := hwrites.core_ends
  text_ne_nil := hwrites.core_ne_nil
  after_comment := ⟨[], [], rfl, by simp, by simp⟩

theorem not_mem_addedLine {c : UInt8} (hname : c ∉ k.name) (htab : c ∉ utf8 "\t") (hv : c ∉ v) :
    c ∉ addedLine k v := by
  simp [addedLine, hname, htab, hv]

variable {contents : Bytes}

def IsSet (k : Key) (contents : Bytes) : Prop := ∃ line ∈ lines contents, IsRecord line ∧ key line = k.name

private theorem lines_append_of_ends {s : Bytes} (h : s = [] ∨ s.getLast? = some newline) (t : Bytes) :
    lines (s ++ t) = lines s ++ lines t := by
  rcases h with rfl | hlast
  · rfl
  · obtain ⟨front, rfl⟩ := List.getLast?_eq_some_iff.mp hlast
    rw [List.append_assoc, List.singleton_append, lines_append_newline, lines_append_newline]
    simp [lines]

open Classical in
/-- The lines of a rewritten text. -/
theorem lines_replaceEffectiveLoginDefsValue (hwrites : Writes k.parse w v lead core) (haccepted : ∀ line ∈ lines contents, Accepted line) :
    lines (replaceEffectiveLoginDefsValue contents k.name v) =
      (lines contents).map (rewriteLine k.name v) ++ if IsSet k contents then [] else [addedLine k v] := by
  have hnewline {line : Bytes} (hmem : line ∈ lines contents) : newline ∉ line := not_mem_of_mem_splitOn (mem_lines hmem)
  have hsome : ((contents.splitOn newline).any fun line => (replaceValue k.name v line).isSome) = true ↔ IsSet k contents := by
    rw [List.any_eq_true, IsSet]
    constructor
    · rintro ⟨line, hmem, hline⟩
      have hne : line ≠ [] := by
        rintro rfl
        cases hline
      have hmem' := mem_lines_of_splitOn hne hmem
      exact ⟨line, hmem', (isSome_replaceValue_iff (haccepted line hmem') (hnewline hmem')).mp hline⟩
    · rintro ⟨line, hmem, hline⟩
      exact ⟨line, mem_lines hmem, (isSome_replaceValue_iff (haccepted line hmem) (hnewline hmem)).mpr hline⟩
  simp only [replaceEffectiveLoginDefsValue]
  by_cases hset : IsSet k contents
  · rw [if_pos (hsome.mpr hset), if_pos hset, List.append_nil]
    refine lines_intercalate_map (rewriteLine_eq_nil_iff hwrites.ne_nil) contents fun line hmem => ?_
    by_cases hne : line = []
    · rw [(rewriteLine_eq_nil_iff hwrites.ne_nil line).mpr hne]
      simp
    · have hmem' := mem_lines_of_splitOn hne hmem
      exact (rewriteLine_rewrites hwrites (haccepted line hmem') (hnewline hmem')).newline
  · rw [if_neg (mt hsome.mp hset), if_neg hset]
    have hsame : (lines contents).map (rewriteLine k.name v) = lines contents := by
      rw [List.map_congr_left (g := id) fun line hmem => ?_, List.map_id]
      exact (rewriteLine_rewrites hwrites (haccepted line hmem) (hnewline hmem)).other fun hline => hset ⟨line, hmem, hline⟩
    have hadded : lines (k.name ++ utf8 "\t" ++ v ++ [newline]) = [addedLine k v] := by
      have hplain : newline ∉ addedLine k v :=
        not_mem_addedLine (fun hc => (name_plain k newline hc).2.2.1 rfl) (by decide +kernel) hwrites.newline
      exact lines_append hplain []
    rw [hsame]
    by_cases hends : contents ≠ [] ∧ contents.getLast? ≠ some newline
    · rw [if_pos hends, List.append_assoc, List.singleton_append, lines_append_newline, lines_eq_splitOn hends.1 hends.2, hadded]
    · rw [if_neg hends, List.append_nil, lines_append_of_ends _ _, hadded]
      rw [not_and_or, not_not, not_not] at hends
      exact hends

variable {source : Bytes} {document : Document}

/-- The size limits of the parser. -/
structure WithinLimits (contents : Bytes) : Prop where
  bytes : contents.length ≤ maxBytes
  lines : ∀ line ∈ lines contents, line.length ≤ maxLineBytes
  records : (Streams.lines contents).countP IsRecord ≤ maxRecords

theorem mem_lines_replace (hwrites : Writes k.parse w v lead core) (haccepted : ∀ line ∈ lines contents, Accepted line) {line : Bytes} :
    line ∈ lines (replaceEffectiveLoginDefsValue contents k.name v) ↔
      (∃ old ∈ lines contents, rewriteLine k.name v old = line) ∨ (¬ IsSet k contents ∧ line = addedLine k v) := by
  rw [lines_replaceEffectiveLoginDefsValue hwrites haccepted, List.mem_append, List.mem_map]
  split_ifs with hset <;> simp [hset]

theorem assigns_addedLine (hwrites : Writes k.parse w v lead core) : Assigns (addedLine k v) k w :=
  (layout_addedLine hwrites).assigns hwrites.parse

/-- A rewritten text is accepted, and only the option has another value. -/
theorem parse_replaceEffectiveLoginDefsValue (hwrites : Writes k.parse w v lead core) (hparse : parse contents source = .ok document)
    (hlimits : WithinLimits (replaceEffectiveLoginDefsValue contents k.name v)) :
    parse (replaceEffectiveLoginDefsValue contents k.name v) source = .ok (document.set k w) := by
  obtain ⟨-, hsource, hdescribes⟩ := parse_ok_iff.mp hparse
  have haccepted := hdescribes.accepted
  have hrewrites {line : Bytes} (hmem : line ∈ lines contents) : Rewrites k w line (rewriteLine k.name v line) :=
    rewriteLine_rewrites hwrites (haccepted line hmem) (not_mem_of_mem_splitOn (mem_lines hmem))
  have hmemLines (line : Bytes) :
      line ∈ lines (replaceEffectiveLoginDefsValue contents k.name v) ↔
        (∃ old ∈ lines contents, rewriteLine k.name v old = line) ∨ (¬ IsSet k contents ∧ line = addedLine k v) :=
    mem_lines_replace hwrites haccepted
  -- a line of the new text is as it was, or gives the key its value
  have hnew {line : Bytes} (hmem : line ∈ lines (replaceEffectiveLoginDefsValue contents k.name v)) :
      (line ∈ lines contents ∧ ¬ (IsRecord line ∧ key line = k.name)) ∨ Assigns line k w := by
    rcases (hmemLines _).mp hmem with ⟨old, hold, rfl⟩ | ⟨-, rfl⟩
    · by_cases hrecord : IsRecord old ∧ key old = k.name
      · exact .inr ((hrewrites hold).assigns hrecord.1 hrecord.2)
      · rw [(hrewrites hold).other hrecord]
        exact .inl ⟨hold, hrecord⟩
    · exact .inr (assigns_addedLine hwrites)
  refine parse_ok_iff.mpr ⟨hlimits.bytes, (source_set document k w).trans hsource, ?_, hlimits.records, ?_⟩
  · intro line hmem
    refine ⟨hlimits.lines line hmem, ?_, ?_, ?_⟩
    · rcases (hmemLines _).mp hmem with ⟨old, hold, rfl⟩ | ⟨-, rfl⟩
      · exact (hrewrites hold).nulFree
      · exact not_mem_addedLine (fun hc => (name_plain k 0 hc).2.2.2 rfl) (by decide +kernel) hwrites.nulFree
    · intro hrecord
      rcases (hmemLines _).mp hmem with ⟨old, hold, rfl⟩ | ⟨-, rfl⟩
      · by_cases hsame : IsRecord old ∧ key old = k.name
        · exact (hrewrites hold).value hsame.1 hsame.2
        · rw [(hrewrites hold).other hsame] at hrecord ⊢
          exact (haccepted old hold).value hrecord
      · exact (layout_addedLine hwrites).stripComment_ne_nil
    · intro hrecord k' hkey
      rcases hnew hmem with ⟨hold, -⟩ | hassigns
      · exact (haccepted line hold).known hrecord k' hkey
      · obtain rfl : k' = k := name_injective (hkey.trans hassigns.2.1.symm)
        exact ⟨w, hassigns⟩
  · intro k' w'
    by_cases hk : k' = k
    · subst hk
      rw [get_set_self, Option.some.injEq]
      constructor
      · rintro rfl
        by_cases hset : IsSet k' contents
        · obtain ⟨line, hmem, hrecord, hkey⟩ := hset
          exact ⟨_, (hmemLines _).mpr (.inl ⟨line, hmem, rfl⟩), (hrewrites hmem).assigns hrecord hkey⟩
        · exact ⟨_, (hmemLines _).mpr (.inr ⟨hset, rfl⟩), assigns_addedLine hwrites⟩
      · rintro ⟨line, hmem, hassigns'⟩
        rcases hnew hmem with ⟨-, hother⟩ | hassigns
        · exact absurd ⟨hassigns'.1, hassigns'.2.1.symm⟩ hother
        · exact Except.ok.inj (hassigns.2.2.symm.trans hassigns'.2.2)
    · rw [get_set_of_ne document hk, hdescribes.get_iff]
      constructor
      · rintro ⟨line, hmem, hassigns⟩
        have hother : ¬ (IsRecord line ∧ key line = k.name) := fun h => hk (name_injective (hassigns.2.1.trans h.2))
        have hsame := (hrewrites hmem).other hother
        exact ⟨line, (hmemLines _).mpr (.inl ⟨line, hmem, hsame⟩), hassigns⟩
      · rintro ⟨line, hmem, hassigns'⟩
        rcases hnew hmem with ⟨hold, -⟩ | hassigns
        · exact ⟨line, hold, hassigns'⟩
        · exact absurd (name_injective (hassigns'.2.1.trans hassigns.2.1.symm)) hk

end Rewrite

end Kompli.LoginDefsOption
