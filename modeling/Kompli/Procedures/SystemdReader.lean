import Kompli.Foundation.Lines
import Kompli.Procedures.SystemdConfig
import Mathlib.Logic.Function.Basic

/-! What the audit reads of a configuration of systemd. -/
namespace Kompli.SystemdConfig
open Parson Ascii Foundation Streams StringTools

section Model

/-- A block and a key, to a value and the file it comes from. -/
abbrev Config := Bytes × Bytes → Option (Bytes × Bytes)

structure Reader where
  config : Config := fun _ => none
  currentConfig : Bytes := utf8 "<UNKNOWN>"
  currentBlock : Bytes := []

def isTrimmed (c : UInt8) : Bool := c ∈ utf8 " \t\r\n"

def trimLine (line : Bytes) : Bytes := ((line.dropWhile isTrimmed).reverse.dropWhile isTrimmed).reverse

def readLine (reader : Reader) (text : Bytes) : Reader :=
  let line := trimLine text
  if line = [] then reader
  else if line.head? = some hash then
    if (utf8 "# .conf").length < line.length ∧ (utf8 ".conf").isSuffixOf line then
      { reader with currentConfig := line.drop 2 }
    else reader
  else if line.head? = some 0x5B ∧ line.getLast? = some 0x5D then { reader with currentBlock := line }
  else if equals ∈ line then
    let key := line.takeWhile (· ≠ equals)
    let value := line.drop (key.length + 1)
    { reader with
      config := Function.update reader.config (reader.currentBlock, key) (some (value, reader.currentConfig)) }
  else reader

def readText (reader : Reader) (text : Bytes) : Reader := (lines text).foldl readLine reader

/-- What `systemd-analyze` prints is added to the configuration. -/
def getSystemdConfig (config : Config) (printed : Except Error Bytes) : Except Error Config :=
  match printed with
  | .error e => .error e
  | .ok text => .ok (readText { config } text).config

end Model

section Lines

/-- What of a value is read. -/
def trimEnd (value : Bytes) : Bytes := (value.reverse.dropWhile isTrimmed).reverse

theorem trimLine_append {line blanks : Bytes} (h : ∀ c ∈ blanks, isTrimmed c = true) : trimLine (line ++ blanks) = trimLine line := by
  have hreverse : ∀ c ∈ blanks.reverse, isTrimmed c = true := fun c hc => h c (List.mem_reverse.mp hc)
  have htrim (s : Bytes) : trimEnd (s ++ blanks) = trimEnd s := by
    rw [trimEnd, List.reverse_append, List.dropWhile_append_of_pos hreverse, trimEnd]
  by_cases hline : line.dropWhile isTrimmed = []
  · have hall : (line ++ blanks).dropWhile isTrimmed = [] := by
      rw [List.dropWhile_eq_nil_iff] at hline ⊢
      simp only [List.mem_append]
      exact fun c hc => hc.elim (hline c) (h c)
    rw [trimLine, trimLine, hall, hline]
  · have hdrop : (line ++ blanks).dropWhile isTrimmed = line.dropWhile isTrimmed ++ blanks := by
      conv_lhs => rw [← List.takeWhile_append_dropWhile (p := isTrimmed) (l := line)]
      rw [List.append_assoc, dropWhile_span (fun c hc => List.mem_takeWhile_imp hc)
        (endsSpan_append (endsSpan_dropWhile line) hline)]
    rw [trimLine, hdrop]
    exact htrim _

theorem readLine_append (reader : Reader) {line blanks : Bytes} (h : ∀ c ∈ blanks, isTrimmed c = true) :
    readLine reader (line ++ blanks) = readLine reader line := by
  rw [readLine, trimLine_append h, readLine]

/-- A line that gives a key a value. -/
structure Setting (key : Bytes) : Prop where
  plain : equals ∉ key
  starts : ∃ c name, key.dropWhile isTrimmed = c :: name ∧ c ≠ hash ∧ c ≠ 0x5B

theorem trimEnd_append_cons {c : UInt8} (h : isTrimmed c = false) (front value : Bytes) :
    trimEnd (front ++ c :: value) = front ++ c :: trimEnd value := by
  have hsplit : (front ++ c :: value).reverse = value.reverse ++ c :: front.reverse := by simp
  rw [trimEnd, hsplit, List.dropWhile_append, trimEnd]
  by_cases hvalue : value.reverse.dropWhile isTrimmed = []
  · rw [if_pos (List.isEmpty_iff.mpr hvalue), dropWhile_of_endsSpan (endsSpan_cons.mpr h), hvalue]
    simp
  · rw [if_neg (mt List.isEmpty_iff.mp hvalue)]
    simp

theorem trimLine_setting {key : Bytes} (hne : key.dropWhile isTrimmed ≠ []) (value : Bytes) :
    trimLine (key ++ equals :: value) = key.dropWhile isTrimmed ++ equals :: trimEnd value := by
  have hdrop : (key ++ equals :: value).dropWhile isTrimmed = key.dropWhile isTrimmed ++ equals :: value := by
    rw [List.dropWhile_append, if_neg (mt List.isEmpty_iff.mp hne)]
  rw [trimLine, hdrop]
  exact trimEnd_append_cons (by decide +kernel) _ value

theorem readLine_setting (reader : Reader) {key : Bytes} (h : Setting key) (value : Bytes) :
    readLine reader (key ++ equals :: value) =
      { reader with
        config := Function.update reader.config (reader.currentBlock, key.dropWhile isTrimmed)
          (some (trimEnd value, reader.currentConfig)) } := by
  obtain ⟨c, name, hname, hhash, hbracket⟩ := h.starts
  have hplain : equals ∉ key.dropWhile isTrimmed := fun hmem => h.plain (List.dropWhile_subset _ hmem)
  have hline := trimLine_setting (hname ▸ List.cons_ne_nil c name) value
  rw [readLine, hline]
  simp only [takeWhile_cut hplain]
  rw [if_neg (by simp), if_neg (by simp [hname, hhash]), if_neg (by simp [hname, hbracket]), if_pos (by simp), List.drop_append,
    List.drop_eq_nil_of_le (by omega), Nat.add_sub_cancel_left]
  rfl

/-- A reader that began with settings of its own. -/
def Reader.over (reader : Reader) (config : Config) : Reader :=
  { reader with config := fun x => (reader.config x).or (config x) }

theorem readLine_over (reader : Reader) (config : Config) (line : Bytes) :
    readLine (reader.over config) line = (readLine reader line).over config := by
  simp only [readLine, Reader.over]
  split_ifs
  all_goals try rfl
  congr 1
  funext x
  by_cases hx : x = (reader.currentBlock, (trimLine line).takeWhile (· ≠ equals))
  · simp only [hx, Function.update_self, Option.some_or]
  · simp only [Function.update_of_ne hx]

theorem foldl_readLine_over (reader : Reader) (config : Config) (after : List Bytes) :
    after.foldl readLine (reader.over config) = (after.foldl readLine reader).over config := by
  induction after generalizing reader with
  | nil => rfl
  | cons line after ih => rw [List.foldl_cons, readLine_over, ih, List.foldl_cons]

/-- What the lines after this one set. -/
def Reader.later (reader : Reader) (after : List Bytes) : Config :=
  (after.foldl readLine { reader with config := fun _ => none }).config

/-- It does not depend on what was set before. -/
theorem foldl_readLine_config (reader : Reader) (after : List Bytes) (x : Bytes × Bytes) :
    (after.foldl readLine reader).config x = (reader.later after x).or (reader.config x) := by
  have hover : reader = Reader.over { reader with config := fun _ => none } reader.config := by
    rw [Reader.over]
    rfl
  conv_lhs => rw [hover, foldl_readLine_over]
  rfl

end Lines

section Texts

theorem readText_append {line : Bytes} (h : newline ∉ line) (reader : Reader) (rest : Bytes) :
    readText reader (line ++ newline :: rest) = readText (readLine reader line) rest := by
  rw [readText, lines_append h, List.foldl_cons, readText]

theorem readText_line {line : Bytes} (h : newline ∉ line) (reader : Reader) : readText reader line = readLine reader line := by
  by_cases hne : line = []
  · rw [hne]
    rfl
  · rw [readText, lines_of_not_mem h hne, List.foldl_cons, List.foldl_nil]

/-- A text is read piece by piece. -/
theorem readText_intercalate (reader : Reader) {pieces : List Bytes} (h : ∀ line ∈ pieces, newline ∉ line) :
    readText reader ([newline].intercalate pieces) = pieces.foldl readLine reader := by
  induction pieces generalizing reader with
  | nil => rfl
  | cons line pieces ih =>
    rw [List.forall_mem_cons] at h
    by_cases hnil : pieces = []
    · rw [hnil, List.intercalate_singleton, readText_line h.1]
      rfl
    · rw [List.intercalate_cons_of_ne_nil hnil, List.append_assoc, List.singleton_append, readText_append h.1, ih _ h.2,
        List.foldl_cons]

theorem readText_eq (reader : Reader) (text : Bytes) : readText reader text = (text.splitOn newline).foldl readLine reader := by
  conv_lhs => rw [← @List.intercalate_splitOn _ text _ _ newline]
  exact readText_intercalate reader fun line hmem => not_mem_of_mem_splitOn hmem

/-- Pieces with their ends. -/
def joined (pieces : List Bytes) : Bytes := pieces.flatMap (· ++ [newline])

theorem readText_joined (reader : Reader) {pieces : List Bytes} (h : ∀ line ∈ pieces, newline ∉ line) (rest : Bytes) :
    readText reader (joined pieces ++ rest) = readText (pieces.foldl readLine reader) rest := by
  induction pieces generalizing reader with
  | nil => rfl
  | cons line pieces ih =>
    rw [List.forall_mem_cons] at h
    have hsplit : joined (line :: pieces) ++ rest = line ++ newline :: (joined pieces ++ rest) := by
      simp [joined]
    rw [hsplit, readText_append h.1, ih _ h.2, List.foldl_cons]

theorem readText_newline (reader : Reader) (text rest : Bytes) :
    readText reader (text ++ newline :: rest) = readText (readText reader text) rest := by
  rw [readText, lines_append_newline, List.foldl_append, ← readText_eq, ← readText]

theorem readText_append_blank (reader : Reader) (text : Bytes) {blanks : Bytes} (h : ∀ c ∈ blanks, isTrimmed c = true)
    (hnewline : newline ∉ blanks) : readText reader (text ++ blanks) = readText reader text := by
  induction text using lines_induction newline generalizing reader with
  | last line hline =>
    rw [readText_line hline, readText_line (by simp [hline, hnewline]), readLine_append reader h]
  | cons line rest hline ih =>
    rw [List.append_assoc, List.cons_append, readText_append hline, readText_append hline, ih]

/-- A text is ended where it is not, and another one follows. -/
theorem readText_ended (reader : Reader) (text : Bytes) {lineEnding : Bytes}
    (hending : lineEnding = utf8 "\n" ∨ lineEnding = utf8 "\r\n") (rest : Bytes) :
    readText reader (text ++ (if text ≠ [] ∧ text.getLast? ≠ some newline then lineEnding else []) ++ rest) =
      readText (readText reader text) rest := by
  by_cases hopen : text ≠ [] ∧ text.getLast? ≠ some newline
  · rw [if_pos hopen]
    rcases hending with rfl | rfl
    · have hsplit : text ++ utf8 "\n" ++ rest = text ++ newline :: rest := by
        rw [List.append_assoc]
        rfl
      rw [hsplit, readText_newline]
    · have hsplit : text ++ utf8 "\r\n" ++ rest = text ++ [carriageReturn] ++ newline :: rest := by
        rw [List.append_assoc, List.append_assoc]
        rfl
      rw [hsplit, readText_newline, readText_append_blank reader text (by decide +kernel) (by decide)]
  · rw [if_neg hopen, List.append_nil]
    rw [not_and_or, not_not, not_not] at hopen
    rcases hopen with rfl | hlast
    · rfl
    · obtain ⟨front, rfl⟩ := List.getLast?_eq_some_iff.mp hlast
      rw [List.append_assoc, List.singleton_append, readText_newline, readText_newline]
      rfl

end Texts

end Kompli.SystemdConfig
