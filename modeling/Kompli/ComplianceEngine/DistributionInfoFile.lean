import Kompli.ComplianceEngine.Applicability
import Kompli.ComplianceEngine.FileIterator
import Kompli.ComplianceEngine.JsonWrapper
import Kompli.Foundation.Split

/-! Files of assignments, blanks and comments: what they say, and what their reader makes of them. -/
namespace Kompli
open Parson Ascii Foundation

namespace DistributionInfo

/-- The value of an assignment: a word, or a text between double quotes. -/
inductive FileValue where
  | word (text : Bytes)
  | quoted (text : Bytes)

namespace FileValue

def text : FileValue → Bytes
  | word text => text
  | quoted text => text

def toBytes : FileValue → Bytes
  | word text => text
  | quoted text => quote :: text ++ [quote]

def Valid : FileValue → Prop
  | word text => ∀ c ∈ text, isSpace c = false ∧ c ≠ quote ∧ c ≠ hash
  | quoted text => quote ∉ text

/-- What the reader keeps of it. -/
def read (value : FileValue) : Bytes := value.text.filter (!isSpace ·)

end FileValue

/-- The texts of files; the flag tells whether the last comment lacks the end of its line. -/
inductive FileText : List (Bytes × FileValue) → Bool → Bytes → Prop
  | empty : FileText [] false []
  | blank {entries openComment s} (c : UInt8) (hc : isSpace c = true) (h : FileText entries openComment s) :
    FileText entries openComment (c :: s)
  | comment {entries openComment s} (text : Bytes) (htext : newline ∉ text) (h : FileText entries openComment s) :
    FileText entries openComment (hash :: (text ++ newline :: s))
  | lastComment (text : Bytes) (htext : newline ∉ text) : FileText [] true (hash :: text)
  | assignment {entries openComment s} (key : Bytes) (value : FileValue) (hkey : IsKeyName key)
    (hvalue : value.Valid) (hnext : ∀ c ∈ s.head?, isSpace c = true) (h : FileText entries openComment s) :
    FileText ((key, value) :: entries) openComment (key ++ equals :: (value.toBytes ++ s))

/-- The value that a file gives a key last. -/
def lastValue (entries : List (Bytes × FileValue)) (key : Bytes) : Option FileValue :=
  (entries.reverse.find? (·.1 = key)).map (·.2)

section Items

variable {pastEnd : Bool} {s : Bytes}

private theorem readKey_bytes {key : Bytes} (h : ∀ c ∈ key, isAlnum c = true ∨ c = 0x5F) (result : Bytes)
    (hne : result ++ key ≠ []) :
    readKey result false ⟨key ++ equals :: s, pastEnd⟩ = .ok (result ++ key, ⟨s, pastEnd⟩) := by
  induction key generalizing result with
  | nil =>
    rw [List.append_nil] at hne ⊢
    rw [List.nil_append, readKey, if_pos rfl, if_neg hne]
    rfl
  | cons c key ih =>
    obtain ⟨hequals, hhash, hspace⟩ := keyName_byte (h c List.mem_cons_self)
    rw [List.cons_append, readKey, if_neg hequals, if_neg hhash, if_neg (by simp [hspace]), if_neg (by simp),
      FileIterator.next, ih (fun d hd => h d (List.mem_cons_of_mem c hd)) _ (by simp), List.append_assoc]
    rfl

private theorem readValue_quoted {text : Bytes} (h : quote ∉ text) (result : Bytes) :
    readValue result true ⟨text ++ quote :: s, pastEnd⟩ = .ok (result ++ text.filter (!isSpace ·), ⟨s, pastEnd⟩) := by
  induction text generalizing result with
  | nil =>
    rw [List.nil_append, readValue, if_pos rfl, if_pos rfl]
    simp [FileIterator.next]
  | cons c text ih =>
    rw [List.mem_cons, not_or] at h
    rw [List.cons_append, readValue, if_neg (Ne.symm h.1), if_neg (by simp)]
    by_cases hspace : isSpace c = true
    · rw [if_pos hspace, if_pos rfl, FileIterator.next, ih h.2, List.filter_cons_of_neg (by simp [hspace])]
    · rw [if_neg hspace, FileIterator.next, ih h.2, List.filter_cons_of_pos (by simpa using hspace),
        List.append_assoc]
      rfl

/-- A word ends at the end of the file or at a blank, which is read as well. -/
private theorem readValue_word {text : Bytes} (h : ∀ c ∈ text, isSpace c = false ∧ c ≠ quote ∧ c ≠ hash)
    (hnext : ∀ c ∈ s.head?, isSpace c = true) (result : Bytes) :
    readValue result false ⟨text ++ s, pastEnd⟩ = .ok (result ++ text, ⟨s.tail, pastEnd⟩) := by
  induction text generalizing result with
  | nil =>
    rcases s with _ | ⟨c, s⟩
    · rw [List.nil_append, readValue, if_neg (by simp), List.append_nil]
      rfl
    · have hspace := hnext c rfl
      have hquote : c ≠ quote := by
        rintro rfl
        exact absurd hspace (by decide)
      have hhash : c ≠ hash := by
        rintro rfl
        exact absurd hspace (by decide)
      rw [List.nil_append, readValue, if_neg hquote, if_neg (by simp [hhash]), if_pos hspace, if_neg (by simp),
        List.append_nil]
      rfl
  | cons c text ih =>
    obtain ⟨hspace, hquote, hhash⟩ := h c List.mem_cons_self
    rw [List.cons_append, readValue, if_neg hquote, if_neg (by simp [hhash]), if_neg (by simp [hspace]),
      FileIterator.next, ih (fun d hd => h d (List.mem_cons_of_mem c hd)), List.append_assoc]
    rfl

end Items

section Run

variable {pastEnd : Bool} {s : Bytes} (result : ByteMap Bytes)

private theorem readKey_blank {c : UInt8} (hc : isSpace c = true) :
    readKey [] false ⟨c :: s, pastEnd⟩ = readKey [] false ⟨s, pastEnd⟩ := by
  have hequals : c ≠ equals := by
    rintro rfl
    exact absurd hc (by decide)
  have hhash : c ≠ hash := by
    rintro rfl
    exact absurd hc (by decide)
  rw [readKey, if_neg hequals, if_neg hhash, if_pos hc]
  rfl

/-- Blanks and comments only move the reader on. -/
private theorem readEntries_skip {input : FileIterator} (hne : input.rest ≠ [])
    (h : readKey [] false input = readKey [] false ⟨s, pastEnd⟩) :
    readEntries input result = readEntries ⟨s, pastEnd⟩ result := by
  rw [readEntries_step hne, h]
  rcases s with _ | ⟨c, s⟩
  · rw [readEntries_nil, readKey, if_pos rfl]
    rfl
  · rw [readEntries_step (by simp)]

private theorem readEntries_blank {c : UInt8} (hc : isSpace c = true) :
    readEntries ⟨c :: s, pastEnd⟩ result = readEntries ⟨s, pastEnd⟩ result :=
  readEntries_skip result (by simp) (readKey_blank hc)

private theorem readKey_comment (rest : Bytes) : readKey [] false ⟨hash :: rest, pastEnd⟩ =
    readKey [] false (FileIterator.mk (rest.dropWhile (· ≠ newline)) pastEnd).next := by
  rw [readKey, if_neg (by decide), if_pos rfl, if_neg (by simp)]
  rfl

private theorem readEntries_comment {text : Bytes} (htext : newline ∉ text) :
    readEntries ⟨hash :: (text ++ newline :: s), pastEnd⟩ result = readEntries ⟨s, pastEnd⟩ result := by
  apply readEntries_skip result (by simp)
  rw [readKey_comment, dropWhile_cut htext]
  rfl

private theorem readEntries_lastComment {text : Bytes} (htext : newline ∉ text) :
    readEntries ⟨hash :: text, pastEnd⟩ result = .ok (result, ⟨[], true⟩) := by
  have hskip : readKey [] false ⟨hash :: text, pastEnd⟩ = readKey [] false ⟨[], true⟩ := by
    rw [readKey_comment, List.dropWhile_eq_nil_iff.mpr fun c hc => by simpa using ne_of_mem_of_not_mem hc htext]
    rfl
  rw [readEntries_skip result (by simp) hskip, readEntries_nil]

private theorem readEntries_assignment {key : Bytes} {value : FileValue} (hkey : IsKeyName key)
    (hvalue : value.Valid) (hnext : ∀ c ∈ s.head?, isSpace c = true) :
    readEntries ⟨key ++ equals :: (value.toBytes ++ s), pastEnd⟩ result =
      readEntries ⟨s, pastEnd⟩ (result.insert key value.read) := by
  have hne := hkey.ne_nil
  rw [readEntries_step (by simp), readKey_bytes hkey.bytes [] (by simpa using hne), except_ok_bind]
  simp only [List.nil_append, hne, ↓reduceIte]
  cases value with
  | quoted text =>
    have hread : readValue [] false ⟨quote :: (text ++ quote :: s), pastEnd⟩ =
        .ok (text.filter (!isSpace ·), ⟨s, pastEnd⟩) := by
      rw [readValue, if_pos rfl, if_neg (by simp), if_neg (by simp), FileIterator.next, readValue_quoted hvalue]
      rfl
    simp only [FileValue.toBytes, List.cons_append, List.append_assoc, List.nil_append, hread, except_ok_bind]
    rfl
  | word text =>
    have hfilter : text.filter (!isSpace ·) = text :=
      List.filter_eq_self.mpr fun c hc => by simp [(hvalue c hc).1]
    simp only [FileValue.toBytes, readValue_word hvalue hnext, except_ok_bind, List.nil_append, FileValue.read,
      FileValue.text, hfilter]
    rcases s with _ | ⟨c, s⟩
    · rfl
    · exact (readEntries_blank _ (hnext c rfl)).symm

/-- A file is read item by item, and the iterator is moved past the end by a comment at the end only. -/
theorem readEntries_fileText {entries : List (Bytes × FileValue)} {openComment : Bool}
    (h : FileText entries openComment s) :
    readEntries ⟨s, false⟩ result =
      .ok (entries.foldl (fun fields entry => fields.insert entry.1 entry.2.read) result, ⟨[], openComment⟩) := by
  induction h generalizing result with
  | empty => rw [readEntries_nil]; rfl
  | blank c hc _ ih => rw [readEntries_blank result hc, ih]
  | comment text htext _ ih => rw [readEntries_comment result htext, ih]
  | lastComment text htext => rw [readEntries_lastComment result htext]; rfl
  | assignment key value hkey hvalue hnext _ ih => rw [readEntries_assignment result hkey hvalue hnext, ih]; rfl

end Run

section Faithful

private theorem read_eq_text_iff (value : FileValue) :
    value.read = value.text ↔ ∀ c ∈ value.text, isSpace c = false := by
  simp only [FileValue.read, List.filter_eq_self, Bool.not_eq_true']

private theorem getElem?_fields (entries : List (Bytes × FileValue)) (key : Bytes) :
    (entries.foldl (fun fields entry => fields.insert entry.1 entry.2.read) (∅ : ByteMap Bytes))[key]? =
      (lastValue entries key).map FileValue.read := by
  rw [getElem?_foldl_insert_last entries, lastValue, Std.ExtTreeMap.getElem?_empty, Option.or_none, Option.map_map]
  rfl

/-- The file is read as it says when no value that counts has a blank in it. -/
private theorem fields_faithful_iff (entries : List (Bytes × FileValue)) :
    (∀ key, (entries.foldl (fun fields entry => fields.insert entry.1 entry.2.read) (∅ : ByteMap Bytes))[key]? =
        (lastValue entries key).map FileValue.text) ↔
      ∀ key value, lastValue entries key = some value → ∀ c ∈ value.text, isSpace c = false := by
  simp only [getElem?_fields]
  constructor
  · intro h key value hvalue
    have hkey := h key
    rw [hvalue] at hkey
    exact (read_eq_text_iff value).mp (Option.some.inj hkey)
  · intro h key
    rcases hvalue : lastValue entries key with _ | value
    · rfl
    · exact congrArg some ((read_eq_text_iff value).mpr (h key value hvalue))

end Faithful

/-- A file of assignments, blanks and comments is read without an error. The reader stays within it
and finds the texts of the last values just when the file does not end in a comment and no such value
has a blank in it. What is printed for a host is read back when its version has no blank in it. -/
theorem distribution_files_read_faithfully_iff (content path : Bytes) (info : DistributionInfo) :
    (∀ entries openComment, FileText entries openComment content →
      ∃ fields pastEnd, readEntries ⟨content, false⟩ ∅ = .ok (fields, ⟨[], pastEnd⟩) ∧
        parseEntries content ∅ = .ok fields ∧
        ((pastEnd = false ∧ ∀ key : Bytes, fields[key]? = (lastValue entries key).map FileValue.text) ↔
          openComment = false ∧
            ∀ key value, lastValue entries key = some value → ∀ c ∈ value.text, isSpace c = false)) ∧
    (quote ∉ info.version →
      (parseOverrideFile path info.toBytes = .ok info ↔ ∀ c ∈ info.version, isSpace c = false)) := by
  refine ⟨fun entries openComment h => ?_, fun hquote => ?_⟩
  · have hread := readEntries_fileText ∅ h
    have hparse := parseEntries_eq ⟨content, false⟩ ∅
    rw [hread] at hparse
    exact ⟨_, _, hread, hparse, and_congr_right fun _ => fields_faithful_iff entries⟩
  · constructor
    · intro h c hc
      exact (clean_iff.mp (parseOverrideFile_version h) c hc).2
    · intro h
      have hclean : Clean info.version := clean_iff.mpr fun c hc => ⟨ne_of_mem_of_not_mem hc hquote, h c hc⟩
      simpa using parseOverrideFile_toBytes path hclean (.inl rfl)

/-- The blank of "22.04 LTS" is dropped. -/
theorem parseOverrideFile_drops_blanks :
    ¬ ∀ path info, quote ∉ info.version → parseOverrideFile path info.toBytes = .ok info := by
  intro h
  have hclean := parseOverrideFile_version (h [] { version := utf8 "22.04 LTS" } (by decide))
  exact absurd (clean_iff.mp hclean 0x20 (by decide)).2 (by decide)

end DistributionInfo
end Kompli
