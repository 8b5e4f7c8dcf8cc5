import Kompli.Foundation.Split
import Kompli.Foundation.Streams
import Mathlib.Data.List.Basic

/-! The words of a list: what stands between separators, however many there are. -/
namespace Kompli.Foundation.Words

open Foundation

variable {α : Type} {p : α → Bool} {c : α} {xs ys : List α}

def words (p : α → Bool) (xs : List α) : List (List α) := (xs.splitOnP p).filter (! ·.isEmpty)

@[simp] theorem words_nil : words p [] = [] := by
  rw [words, List.splitOnP_nil]
  rfl

theorem words_append_cons (h : p c = true) (xs ys : List α) : words p (xs ++ c :: ys) = words p xs ++ words p ys := by
  rw [words, List.splitOnP_append_cons xs ys h, List.filter_append, words, words]

theorem words_cons (h : p c = true) (ys : List α) : words p (c :: ys) = words p ys := by
  have happend := words_append_cons h [] ys
  rwa [words_nil, List.nil_append, List.nil_append] at happend

theorem words_of_forall (h : ∀ c ∈ xs, p c = false) (hne : xs ≠ []) : words p xs = [xs] := by
  rw [words, List.splitOnP_eq_singleton h, List.filter_singleton]
  cases xs with
  | nil => exact absurd rfl hne
  | cons c xs => rfl

/-- A word, and what follows it. -/
theorem words_append (h : ∀ c ∈ xs, p c = false) (hne : xs ≠ []) (hys : EndsSpan (! p ·) ys) :
    words p (xs ++ ys) = xs :: words p ys := by
  cases ys with
  | nil => rw [List.append_nil, words_nil, words_of_forall h hne]
  | cons c ys =>
    have hc : p c = true := by simpa using endsSpan_cons.mp hys
    rw [words_append_cons hc, words_of_forall h hne, words_cons hc]
    rfl

/-- A list is empty, or starts with a separator or with a word. -/
@[elab_as_elim]
theorem words_induction (p : α → Bool) {P : List α → Prop} (nil : P []) (separator : ∀ c xs, p c = true → P xs → P (c :: xs))
    (word : ∀ xs ys, xs ≠ [] → (∀ c ∈ xs, p c = false) → EndsSpan (! p ·) ys → P ys → P (xs ++ ys)) (xs : List α) :
    P xs := by
  induction hlength : xs.length using Nat.strongRecOn generalizing xs with
  | _ length ih =>
    cases xs with
    | nil => exact nil
    | cons c xs =>
      rw [List.length_cons] at hlength
      cases hc : p c with
      | true => exact separator c xs hc (ih xs.length (by omega) xs rfl)
      | false =>
        have hcut : (c :: xs.takeWhile (! p ·)) ++ xs.dropWhile (! p ·) = c :: xs := by
          rw [List.cons_append, List.takeWhile_append_dropWhile]
        have hword : ∀ d ∈ c :: xs.takeWhile (! p ·), p d = false :=
          List.forall_mem_cons.mpr ⟨hc, fun d hd => by simpa using List.mem_takeWhile_imp hd⟩
        have hrest := List.length_dropWhile_le (! p ·) xs
        rw [← hcut]
        exact word _ _ (List.cons_ne_nil _ _) hword (endsSpan_dropWhile xs) (ih _ (by omega) _ rfl)

theorem words_dropWhile (xs : List α) : words p (xs.dropWhile p) = words p xs := by
  induction xs with
  | nil => rfl
  | cons c xs ih =>
    cases hc : p c with
    | true => rw [List.dropWhile_cons_of_pos hc, ih, words_cons hc]
    | false => rw [List.dropWhile_cons_of_neg (by simp [hc])]

theorem mem_words {word : List α} (h : word ∈ words p xs) : word ≠ [] ∧ ∀ c ∈ word, p c = false := by
  induction xs using words_induction p with
  | nil => cases h
  | separator c xs hc ih =>
    rw [words_cons hc] at h
    exact ih h
  | word xs ys hne hxs hys ih =>
    rw [words_append hxs hne hys, List.mem_cons] at h
    rcases h with rfl | h
    · exact ⟨hne, hxs⟩
    · exact ih h

/-- The words of a list make up what of it is not a separator. -/
theorem length_words (xs : List α) : ((words p xs).map List.length).sum = xs.countP (! p ·) := by
  induction xs using words_induction p with
  | nil => rfl
  | separator c xs hc ih => rw [words_cons hc, ih, List.countP_cons_of_neg (by simp [hc])]
  | word xs ys hne hxs hys ih =>
    have hcount : xs.countP (! p ·) = xs.length := List.countP_eq_length.mpr fun c hc => by simp [hxs c hc]
    rw [words_append hxs hne hys, List.map_cons, List.sum_cons, ih, List.countP_append, hcount]

section Read

open Streams

/-- A reader of words takes them one by one. -/
theorem word_eq (s : Bytes) : (words blank s = [] ∧ word s = none) ∨
    ∃ text rest, word s = some (text, rest) ∧ words blank s = text :: words blank rest := by
  induction s using words_induction blank with
  | nil => exact .inl ⟨words_nil, rfl⟩
  | separator c s hc ih =>
    rw [words_cons hc, word_blank hc]
    exact ih
  | word text rest hne htext hrest ih =>
    have hblank : ∀ c ∈ rest.head?, blank c = true := fun c hc => by simpa using hrest c hc
    exact .inr ⟨text, rest, word_append hne htext hblank, words_append htext hne hrest⟩

theorem word_of_words {s text : Bytes} {others : List Bytes} (h : words blank s = text :: others) :
    ∃ rest, word s = some (text, rest) ∧ words blank rest = others := by
  rcases word_eq s with ⟨hnil, -⟩ | ⟨first, rest, hword, hwords⟩
  · rw [hnil] at h
    cases h
  · rw [hwords] at h
    cases h
    exact ⟨rest, hword, rfl⟩

theorem word_none {s : Bytes} (h : words blank s = []) : word s = none := by
  rcases word_eq s with ⟨-, hnone⟩ | ⟨first, rest, -, hwords⟩
  · exact hnone
  · rw [h] at hwords
    cases hwords

end Read

end Kompli.Foundation.Words
