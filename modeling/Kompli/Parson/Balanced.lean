import Kompli.Parson.RoundTrip
import Mathlib.Tactic.SplitIfs

/-! Texts that open and close their brackets outside strings: what the parser reads
is such a text, and so is what the serializer writes. -/
namespace Kompli.Parson
open Ascii

/-- The bytes that a scan for the end of a document looks for. -/
def isStructural (c : UInt8) : Bool :=
  [quote, leftBrace, rightBrace, leftBracket, rightBracket].contains c

/-- What is written between the quotes of a string. -/
def Quoted (input : Bytes) : Prop := ∀ rest, skipQuotes (input ++ quote :: rest) = some (input, rest)

inductive Balanced : Bytes → Prop
  | nil : Balanced []
  | append {a b} (ha : Balanced a) (hb : Balanced b) : Balanced (a ++ b)
  | plain {c} (h : isStructural c = false) : Balanced [c]
  | string {input} (h : Quoted input) : Balanced (quote :: (input ++ [quote]))
  | array {s} (h : Balanced s) : Balanced (leftBracket :: (s ++ [rightBracket]))
  | object {s} (h : Balanced s) : Balanced (leftBrace :: (s ++ [rightBrace]))

theorem Balanced.of_plain {s : Bytes} (h : s.any isStructural = false) : Balanced s := by
  induction s with
  | nil => exact .nil
  | cons c s ih =>
    rw [List.any_cons, Bool.or_eq_false_iff] at h
    exact .append (.plain h.1) (ih h.2)

/-- `rest` is what a text goes on with after a balanced one. -/
def Passes (s rest : Bytes) : Prop := ∃ w, s = w ++ rest ∧ Balanced w

namespace Passes

variable {s t rest : Bytes}

theorem refl (s : Bytes) : Passes s s := ⟨[], rfl, .nil⟩

theorem trans (h : Passes s t) (h' : Passes t rest) : Passes s rest := by
  obtain ⟨w, rfl, hw⟩ := h
  obtain ⟨w', rfl, hw'⟩ := h'
  exact ⟨w ++ w', (List.append_assoc ..).symm, hw.append hw'⟩

theorem append (h : Passes s rest) (t : Bytes) : Passes (s ++ t) (rest ++ t) := by
  obtain ⟨w, rfl, hw⟩ := h
  exact ⟨w, List.append_assoc .., hw⟩

theorem of_plain {c : UInt8} (h : isStructural c = false) (s : Bytes) : Passes (c :: s) s :=
  ⟨[c], rfl, .plain h⟩

theorem array (h : Passes s (rightBracket :: rest)) : Passes (leftBracket :: s) rest := by
  obtain ⟨w, rfl, hw⟩ := h
  exact ⟨_, by simp, hw.array⟩

theorem object (h : Passes s (rightBrace :: rest)) : Passes (leftBrace :: s) rest := by
  obtain ⟨w, rfl, hw⟩ := h
  exact ⟨_, by simp, hw.object⟩

theorem skipWhitespaces (s : Bytes) : Passes s (skipWhitespaces s) := by
  refine ⟨s.takeWhile isSpace, List.takeWhile_append_dropWhile.symm, .of_plain ?_⟩
  rw [List.any_eq_false]
  intro c hc
  have hspace : isSpace c = true := List.mem_takeWhile_imp hc
  rw [isStructural, List.contains_eq_mem, decide_eq_true_eq]
  simp only [List.mem_cons, List.not_mem_nil, or_false]
  rintro (rfl | rfl | rfl | rfl | rfl) <;> exact absurd hspace (by decide)

end Passes

section Parser

/-- The text up to the closing quote, whatever follows that. -/
theorem skipQuotes_some {s input rest : Bytes} (h : skipQuotes s = some (input, rest)) :
    s = input ++ quote :: rest ∧ Quoted input := by
  fun_induction skipQuotes s generalizing input with
  | case1 => cases h
  | case2 s =>
    cases h
    refine ⟨rfl, fun rest => ?_⟩
    rw [List.nil_append, skipQuotes.eq_def]
    rfl
  | case3 => cases h
  | case4 _ s e ih =>
    rw [Option.map_eq_some_iff] at h
    obtain ⟨⟨input', rest'⟩, hrest, heq⟩ := h
    cases heq
    obtain ⟨rfl, hquoted⟩ := ih hrest
    refine ⟨rfl, fun rest => ?_⟩
    rw [List.cons_append, List.cons_append, skipQuotes.eq_def]
    simp only [hquoted rest]
    rfl
  | case5 c s hquote hbackslash ih =>
    rw [Option.map_eq_some_iff] at h
    obtain ⟨⟨input', rest'⟩, hrest, heq⟩ := h
    cases heq
    obtain ⟨rfl, hquoted⟩ := ih hrest
    refine ⟨rfl, fun rest => ?_⟩
    rw [List.cons_append, skipQuotes.eq_def]
    simp only [if_neg hquote, if_neg hbackslash, hquoted rest]
    rfl

theorem getQuotedString_passes {s output rest : Bytes} (h : getQuotedString s = some (output, rest)) :
    Passes s rest := by
  cases s with
  | nil => cases h
  | cons c s =>
    rw [getQuotedString] at h
    split at h
    · rename_i hc
      subst hc
      obtain ⟨⟨input, rest'⟩, hquotes, h⟩ := Option.bind_eq_some_iff.mp h
      obtain ⟨output', -, h⟩ := Option.bind_eq_some_iff.mp h
      cases h
      obtain ⟨rfl, hquoted⟩ := skipQuotes_some hquotes
      exact ⟨_, by simp, .string hquoted⟩
    · cases h

/-- `strtod` reads letters, digits, signs, points and parentheses. -/
def NumberFormat.ReadsPlain (num : NumberFormat) : Prop :=
  ∀ s bits length, num.read s = some (bits, length) → (s.take length).any isStructural = false

/-- What a parser reads is balanced. -/
def ReadsBalanced (parse : ValueParser) : Prop :=
  ∀ s v rest, parse s = some (v, rest) → Passes s rest

private theorem token_passes {token s : Bytes} (h : startsWith token s = true)
    (hplain : token.any isStructural = false) : Passes s (s.drop token.length) := by
  obtain ⟨t, rfl⟩ := List.isPrefixOf_iff_prefix.mp h
  rw [List.drop_left]
  exact ⟨token, rfl, .of_plain hplain⟩

private theorem parseBooleanValue_passes : ReadsBalanced parseBooleanValue := by
  intro s v rest h
  rw [parseBooleanValue] at h
  split at h
  · rename_i htrue
    cases h
    exact token_passes htrue (by decide)
  · split at h
    · rename_i hfalse
      cases h
      exact token_passes hfalse (by decide)
    · cases h

private theorem parseNullValue_passes : ReadsBalanced parseNullValue := by
  intro s v rest h
  rw [parseNullValue] at h
  split at h
  · rename_i hnull
    cases h
    exact token_passes hnull (by decide)
  · cases h

private theorem parseStringValue_passes : ReadsBalanced parseStringValue := by
  intro s v rest h
  obtain ⟨⟨string, rest'⟩, hstring, heq⟩ := Option.map_eq_some_iff.mp h
  cases heq
  exact getQuotedString_passes hstring

private theorem parseNumberValue_passes {num : NumberFormat} (hplain : num.ReadsPlain) :
    ReadsBalanced (parseNumberValue num) := by
  intro s v rest h
  obtain ⟨⟨number, length⟩, hread, h⟩ := Option.bind_eq_some_iff.mp h
  dsimp only at h
  split at h
  · cases h
    exact ⟨s.take length, (List.take_append_drop length s).symm, .of_plain (hplain s number length hread)⟩
  · cases h

private theorem of_skipWhitespaces {s t rest : Bytes} (h : skipWhitespaces s = t) (ht : Passes t rest) :
    Passes s rest :=
  (Passes.skipWhitespaces s).trans (h ▸ ht)

private theorem parseItems_passes {parse : ValueParser} (hparse : ReadsBalanced parse) {v : JsonValue}
    {rest : Bytes} (fuel : Nat) :
    ∀ (items : List JsonValue) (s : Bytes), parseItems parse fuel items s = some (v, rest) →
      Passes s (rightBracket :: rest) := by
  induction fuel with
  | zero =>
    intro items s h
    cases h
  | succ fuel ih =>
    intro items s h
    rw [parseItems] at h
    obtain ⟨⟨value, t⟩, hvalue, h⟩ := Option.bind_eq_some_iff.mp h
    dsimp only at h
    have hfirst := hparse s value t hvalue
    split at h
    · cases h
    · rename_i c t' hskip
      split at h
      · rename_i hcomma
        subst hcomma
        have hrest := (Passes.skipWhitespaces t').trans (ih _ _ h)
        exact hfirst.trans (of_skipWhitespaces hskip ((Passes.of_plain (by decide) t').trans hrest))
      · split at h
        · rename_i hbracket
          cases h
          exact hfirst.trans (of_skipWhitespaces hskip (hbracket ▸ Passes.refl _))
        · cases h

private theorem parseArrayValue_passes {parse : ValueParser} (hparse : ReadsBalanced parse) {s rest : Bytes}
    {v : JsonValue} (h : parseArrayValue parse s = some (v, rest)) : Passes s (rightBracket :: rest) := by
  rw [parseArrayValue] at h
  split at h
  · cases h
  · rename_i c t hskip
    split at h
    · rename_i hbracket
      cases h
      exact of_skipWhitespaces hskip (hbracket ▸ Passes.refl _)
    · exact of_skipWhitespaces hskip (parseItems_passes hparse _ _ _ h)

private theorem parseMembers_passes {parse : ValueParser} (hparse : ReadsBalanced parse) {v : JsonValue}
    {rest : Bytes} (fuel : Nat) :
    ∀ (members : List (Bytes × JsonValue)) (s : Bytes), parseMembers parse fuel members s = some (v, rest) →
      Passes s (rightBrace :: rest) := by
  induction fuel with
  | zero =>
    intro members s h
    cases h
  | succ fuel ih =>
    intro members s h
    rw [parseMembers] at h
    obtain ⟨⟨name, t⟩, hname, h⟩ := Option.bind_eq_some_iff.mp h
    dsimp only at h
    have hfirst := getQuotedString_passes hname
    split at h
    · cases h
    · split at h
      · cases h
      · rename_i c t' hskip
        split at h
        · cases h
        · rename_i hcolon
          rw [ne_eq, Decidable.not_not] at hcolon
          subst hcolon
          obtain ⟨⟨value, u⟩, hvalue, h⟩ := Option.bind_eq_some_iff.mp h
          dsimp only at h
          have hmember := hfirst.trans (of_skipWhitespaces hskip
            ((Passes.of_plain (by decide) t').trans (hparse t' value u hvalue)))
          split at h
          · cases h
          · split at h
            · cases h
            · rename_i c u' hskip
              split at h
              · rename_i hcomma
                subst hcomma
                have hrest := (Passes.skipWhitespaces u').trans (ih _ _ h)
                exact hmember.trans (of_skipWhitespaces hskip ((Passes.of_plain (by decide) u').trans hrest))
              · split at h
                · rename_i hbrace
                  cases h
                  exact hmember.trans (of_skipWhitespaces hskip (hbrace ▸ Passes.refl _))
                · cases h

private theorem parseObjectValue_passes {parse : ValueParser} (hparse : ReadsBalanced parse) {s rest : Bytes}
    {v : JsonValue} (h : parseObjectValue parse s = some (v, rest)) : Passes s (rightBrace :: rest) := by
  rw [parseObjectValue] at h
  split at h
  · cases h
  · rename_i c t hskip
    split at h
    · rename_i hbrace
      cases h
      exact of_skipWhitespaces hskip (hbrace ▸ Passes.refl _)
    · exact of_skipWhitespaces hskip (parseMembers_passes hparse _ _ _ h)

/-- What the parser reads as a value is balanced. -/
theorem parseValue_passes {num : NumberFormat} (hplain : num.ReadsPlain) (room : Nat) :
    ReadsBalanced (parseValue num room) := by
  induction room with
  | zero =>
    intro s v rest h
    cases h
  | succ room ih =>
    intro s v rest h
    rw [parseValue] at h
    split at h
    · cases h
    · rename_i c t hskip
      refine of_skipWhitespaces hskip ?_
      split_ifs at h with hbrace hbracket hquote hboolean hnumber hnull
      · subst hbrace
        exact (parseObjectValue_passes ih h).object
      · subst hbracket
        exact (parseArrayValue_passes ih h).array
      · exact parseStringValue_passes _ v rest h
      · exact parseBooleanValue_passes _ v rest h
      · exact parseNumberValue_passes hplain _ v rest h
      · exact parseNullValue_passes _ v rest h

private theorem parseItems_array {parse : ValueParser} {v : JsonValue} {rest : Bytes} (fuel : Nat) :
    ∀ (items : List JsonValue) (s : Bytes), parseItems parse fuel items s = some (v, rest) →
      ∃ items, v = .array items := by
  induction fuel with
  | zero =>
    intro items s h
    cases h
  | succ fuel ih =>
    intro items s h
    rw [parseItems] at h
    obtain ⟨⟨value, t⟩, -, h⟩ := Option.bind_eq_some_iff.mp h
    dsimp only at h
    split at h
    · cases h
    · split_ifs at h
      · exact ih _ _ h
      · cases h
        exact ⟨_, rfl⟩

private theorem parseArrayValue_array {parse : ValueParser} {s rest : Bytes} {v : JsonValue}
    (h : parseArrayValue parse s = some (v, rest)) : ∃ items, v = .array items := by
  rw [parseArrayValue] at h
  split at h
  · cases h
  · split_ifs at h
    · cases h
      exact ⟨_, rfl⟩
    · exact parseItems_array _ _ _ h

/-- An object is what the outermost braces hold. -/
theorem parseValue_object {num : NumberFormat} (hplain : num.ReadsPlain) {room : Nat} {s rest : Bytes}
    {members : List (Bytes × JsonValue)} (h : parseValue num room s = some (.object members, rest)) :
    ∃ t, skipWhitespaces s = leftBrace :: t ∧ Passes t (rightBrace :: rest) := by
  cases room with
  | zero => cases h
  | succ room =>
    rw [parseValue] at h
    split at h
    · cases h
    · rename_i c t hskip
      split_ifs at h with hbrace hbracket hquote hboolean hnumber hnull
      · subst hbrace
        exact ⟨t, hskip, parseObjectValue_passes (parseValue_passes hplain room) h⟩
      · obtain ⟨items, hitems⟩ := parseArrayValue_array h
        cases hitems
      · obtain ⟨_, -, heq⟩ := Option.map_eq_some_iff.mp h
        cases heq
      · rw [parseBooleanValue] at h
        split_ifs at h <;> cases h
      · obtain ⟨⟨number, length⟩, -, h⟩ := Option.bind_eq_some_iff.mp h
        dsimp only at h
        split_ifs at h
        cases h
      · rw [parseNullValue] at h
        split_ifs at h
        cases h

end Parser

section Serializer

/-- What the serializer writes is balanced, if its numbers are plain. -/
theorem balanced_rule (num : NumberFormat) :
    TextRule num (fun _ => True) (fun bits => (num.print bits).any isStructural = false) Balanced where
  nil := .nil
  append := .append
  layout c hc := by
    apply Balanced.plain
    rw [isStructural, List.contains_eq_mem, decide_eq_false_iff_not]
    simp only [List.mem_cons, List.not_mem_nil, or_false]
    rintro (rfl | rfl | rfl | rfl | rfl) <;> exact absurd hc (by decide)
  string {s} _ := Balanced.string fun rest => skipQuotes_escapes s rest
  number h := .of_plain h
  array h := h.array
  object h := h.object

end Serializer

end Kompli.Parson
