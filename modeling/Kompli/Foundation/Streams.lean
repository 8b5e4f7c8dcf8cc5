import Kompli.Foundation.Decimal

/-! Formatted input and output: lines, words between white space, and numbers of a given width. A reader
gives what it has read and what follows, or nothing where it fails. -/
namespace Kompli.Foundation.Streams

/-- `isspace`. -/
def blank (c : UInt8) : Bool := c = 0x20 || (0x09 ≤ c && c ≤ 0x0D)

def digit (c : UInt8) : Bool := 0x30 ≤ c && c ≤ 0x39

def newline : UInt8 := 0x0A

section Read

/-- The lines of a text; the last one needs no end. -/
def lines : Bytes → List Bytes
  | [] => []
  | c :: s =>
    if c = newline then [] :: lines s
    else
      match lines s with
      | [] => [[c]]
      | line :: rest => (c :: line) :: rest

def word (s : Bytes) : Option (Bytes × Bytes) :=
  let s := s.dropWhile blank
  let text := s.takeWhile (!blank ·)
  if text = [] then none else some (text, s.dropWhile (!blank ·))

/-- Whether there is a minus, and what follows the sign. -/
def sign : Bytes → Bool × Bytes
  | [] => (false, [])
  | c :: s => if c = 0x2D then (true, s) else if c = 0x2B then (false, s) else (false, c :: s)

/-- A decimal of any size, after white space and a sign. -/
def number (s : Bytes) : Option ((Bool × Nat) × Bytes) :=
  let (negative, s) := sign (s.dropWhile blank)
  let text := s.takeWhile digit
  if text = [] then none else some ((negative, Decimal.value text), s.dropWhile digit)

/-- An unsigned number; one with a minus is taken modulo its type. -/
def unsigned (width : Nat) (s : Bytes) : Option (Nat × Bytes) :=
  match number s with
  | none => none
  | some ((negative, n), rest) =>
    if 2 ^ width ≤ n then none else some (if negative then (2 ^ width - n) % 2 ^ width else n, rest)

def signed (width : Nat) (s : Bytes) : Option (Int × Bytes) :=
  match number s with
  | none => none
  | some ((true, n), rest) => if 2 ^ (width - 1) < n then none else some (-(n : Int), rest)
  | some ((false, n), rest) => if 2 ^ (width - 1) ≤ n then none else some ((n : Int), rest)

end Read

section Print

def printUnsigned (n : Nat) : Bytes := utf8 (toString n)

def printSigned (i : Int) : Bytes := if i < 0 then 0x2D :: printUnsigned i.natAbs else printUnsigned i.natAbs

end Print

section Lines

theorem lines_append {line : Bytes} (h : newline ∉ line) (s : Bytes) :
    lines (line ++ newline :: s) = line :: lines s := by
  induction line with
  | nil => rw [List.nil_append, lines, if_pos rfl]
  | cons c line ih =>
    rw [List.mem_cons, not_or] at h
    rw [List.cons_append, lines, if_neg (Ne.symm h.1), ih h.2]

theorem lines_flatMap {α : Type} {line : α → Bytes} (xs : List α) (h : ∀ x ∈ xs, newline ∉ line x) :
    lines (xs.flatMap fun x => line x ++ [newline]) = xs.map line := by
  induction xs with
  | nil => rfl
  | cons x xs ih =>
    rw [List.forall_mem_cons] at h
    rw [List.flatMap_cons, List.append_assoc, List.singleton_append, lines_append h.1, ih h.2, List.map_cons]

end Lines

section Words

theorem dropWhile_blank {s : Bytes} (h : ∀ c ∈ s.head?, blank c = false) : s.dropWhile blank = s := by
  cases s with
  | nil => rfl
  | cons c s => rw [List.dropWhile_cons_of_neg (by simp [h c rfl])]

/-- A word is not empty and has no white space in it. -/
theorem word_some {s text rest : Bytes} (h : word s = some (text, rest)) :
    text ≠ [] ∧ ∀ c ∈ text, blank c = false := by
  simp only [word] at h
  split_ifs at h with hne
  cases h
  refine ⟨hne, fun c hc => ?_⟩
  simpa using List.mem_takeWhile_imp hc

theorem word_append {text rest : Bytes} (hne : text ≠ []) (htext : ∀ c ∈ text, blank c = false)
    (hrest : ∀ c ∈ rest.head?, blank c = true) : word (text ++ rest) = some (text, rest) := by
  have hhead : ∀ c ∈ (text ++ rest).head?, blank c = false := by
    intro c hc
    cases text with
    | nil => exact absurd rfl hne
    | cons _ text =>
      cases hc
      exact htext c List.mem_cons_self
  have htake : text.takeWhile (!blank ·) = text := List.takeWhile_eq_self_iff.mpr fun c hc => by simp [htext c hc]
  have hdrop : text.dropWhile (!blank ·) = [] := List.dropWhile_eq_nil_iff.mpr fun c hc => by simp [htext c hc]
  have hstop : rest.takeWhile (!blank ·) = [] ∧ rest.dropWhile (!blank ·) = rest := by
    cases rest with
    | nil => exact ⟨rfl, rfl⟩
    | cons c rest => simp [hrest c rfl]
  simp only [word, dropWhile_blank hhead]
  rw [List.takeWhile_append_of_pos (fun c hc => by simp [htext c hc]),
    List.dropWhile_append_of_pos (fun c hc => by simp [htext c hc]), hstop.1, hstop.2, List.append_nil, if_neg hne]

theorem word_blank {c : UInt8} (h : blank c = true) (s : Bytes) : word (c :: s) = word s := by
  rw [word, word, List.dropWhile_cons_of_pos h]

end Words

section Numbers

theorem number_blank {c : UInt8} (h : blank c = true) (s : Bytes) : number (c :: s) = number s := by
  rw [number, number, List.dropWhile_cons_of_pos h]

theorem unsigned_blank {c : UInt8} (h : blank c = true) (width : Nat) (s : Bytes) :
    unsigned width (c :: s) = unsigned width s := by
  rw [unsigned, unsigned, number_blank h]

theorem signed_blank {c : UInt8} (h : blank c = true) (width : Nat) (s : Bytes) :
    signed width (c :: s) = signed width s := by
  rw [signed, signed, number_blank h]

private theorem printUnsigned_digits {n : Nat} {c : UInt8} (hc : c ∈ printUnsigned n) : digit c = true := by
  have hdigit := (Decimal.print_canonical n).digits c hc
  simpa [digit] using hdigit

private theorem digit_not_blank {c : UInt8} (h : digit c = true) : blank c = false ∧ c ≠ 0x2D ∧ c ≠ 0x2B := by
  simp only [digit, Bool.and_eq_true, decide_eq_true_eq, UInt8.le_iff_toNat_le] at h
  refine ⟨?_, ?_, ?_⟩
  · rw [blank, Bool.or_eq_false_iff, Bool.and_eq_false_iff, decide_eq_false_iff_not, decide_eq_false_iff_not,
      decide_eq_false_iff_not]
    refine ⟨?_, .inr ?_⟩
    · rintro rfl
      exact absurd h (by decide)
    · rw [UInt8.le_iff_toNat_le]
      have hbound : (0x0D : UInt8).toNat < (0x30 : UInt8).toNat := by decide
      omega
  · rintro rfl
    exact absurd h (by decide)
  · rintro rfl
    exact absurd h (by decide)

/-- A number that is printed ends where no digit follows. -/
def Stops (rest : Bytes) : Prop := ∀ c ∈ rest.head?, digit c = false

private theorem number_digits {text rest : Bytes} (htext : ∀ c ∈ text, digit c = true)
    (hrest : Stops rest) :
    (text ++ rest).takeWhile digit = text ∧ (text ++ rest).dropWhile digit = rest := by
  rw [List.takeWhile_append_of_pos htext, List.dropWhile_append_of_pos htext]
  cases rest with
  | nil => simp
  | cons c rest => simp [hrest c rfl]

private theorem number_printUnsigned (n : Nat) {rest : Bytes} (hrest : Stops rest) :
    number (printUnsigned n ++ rest) = some ((false, n), rest) := by
  have hne : printUnsigned n ≠ [] := (Decimal.print_canonical n).ne_nil
  obtain ⟨htake, hdrop⟩ :=
    @number_digits (printUnsigned n) rest (fun c hc => printUnsigned_digits hc) hrest
  obtain ⟨c, text, htext⟩ := List.exists_cons_of_ne_nil hne
  have hc : digit c = true := printUnsigned_digits (n := n) (by rw [htext]; exact List.mem_cons_self)
  obtain ⟨hblank, hminus, hplus⟩ := digit_not_blank hc
  have hstart : (printUnsigned n ++ rest).dropWhile blank = printUnsigned n ++ rest :=
    dropWhile_blank (by
      rw [htext]
      intro d hd
      cases hd
      exact hblank)
  have hsign : sign (printUnsigned n ++ rest) = (false, printUnsigned n ++ rest) := by
    rw [htext, List.cons_append, sign, if_neg hminus, if_neg hplus]
  simp only [number, hstart, hsign, htake, hdrop, if_neg hne]
  rw [printUnsigned, Decimal.value_print]

private theorem number_minus (n : Nat) {rest : Bytes} (hrest : Stops rest) :
    number (0x2D :: (printUnsigned n ++ rest)) = some ((true, n), rest) := by
  have hne : printUnsigned n ≠ [] := (Decimal.print_canonical n).ne_nil
  obtain ⟨htake, hdrop⟩ :=
    @number_digits (printUnsigned n) rest (fun c hc => printUnsigned_digits hc) hrest
  have hstart : (0x2D :: (printUnsigned n ++ rest)).dropWhile blank = 0x2D :: (printUnsigned n ++ rest) :=
    dropWhile_blank (by
      intro d hd
      cases hd
      decide)
  have hsign : sign (0x2D :: (printUnsigned n ++ rest)) = (true, printUnsigned n ++ rest) := by
    rw [sign, if_pos rfl]
  simp only [number, hstart, hsign, htake, hdrop, if_neg hne]
  rw [printUnsigned, Decimal.value_print]

/-- What is printed of a number of a width is read as it. -/
theorem unsigned_print {width n : Nat} (h : n < 2 ^ width) {rest : Bytes} (hrest : Stops rest) :
    unsigned width (printUnsigned n ++ rest) = some (n, rest) := by
  simp only [unsigned, number_printUnsigned n hrest, if_neg (Nat.not_le.mpr h), Bool.false_eq_true, if_false]

theorem signed_print {width : Nat} {i : Int} (hlow : -2 ^ (width - 1) ≤ i) (hhigh : i < 2 ^ (width - 1))
    {rest : Bytes} (hrest : Stops rest) : signed width (printSigned i ++ rest) = some (i, rest) := by
  have hcast : ((2 ^ (width - 1) : Nat) : Int) = 2 ^ (width - 1) := by push_cast; rfl
  rw [printSigned]
  split_ifs with hneg
  · have hsmall : ¬ 2 ^ (width - 1) < i.natAbs := by omega
    simp only [signed, List.cons_append, number_minus _ hrest, if_neg hsmall]
    rw [show -(i.natAbs : Int) = i by omega]
  · have hsmall : ¬ 2 ^ (width - 1) ≤ i.natAbs := by omega
    simp only [signed, number_printUnsigned _ hrest, if_neg hsmall]
    rw [show (i.natAbs : Int) = i by omega]

/-- An unsigned number is one of its type. -/
theorem unsigned_lt {width n : Nat} {s rest : Bytes} (h : unsigned width s = some (n, rest)) : n < 2 ^ width := by
  rw [unsigned] at h
  split at h
  · cases h
  · split_ifs at h with hbound hnegative
    · cases h
      exact Nat.mod_lt _ (Nat.two_pow_pos width)
    · cases h
      omega

theorem newline_not_mem_printUnsigned (n : Nat) : newline ∉ printUnsigned n := by
  intro h
  exact absurd (printUnsigned_digits h) (by decide)

theorem newline_not_mem_printSigned (i : Int) : newline ∉ printSigned i := by
  rw [printSigned]
  split_ifs
  · rw [List.mem_cons, not_or]
    exact ⟨by decide, newline_not_mem_printUnsigned _⟩
  · exact newline_not_mem_printUnsigned _

end Numbers

end Kompli.Foundation.Streams
