import Mathlib.Computability.Language

/-! Shell patterns without bracket expressions, as the languages of what they match. -/
namespace Kompli.Foundation

/-- The characters of a pattern that stand for something else than themselves. -/
structure Glob (α : Type) where
  star : α
  question : α
  escape : α

namespace Glob

inductive Token (α : Type) where
  | star
  | any
  | char (c : α)

namespace Token

variable {α : Type}

def language : Token α → Language α
  | star => ⊤
  | any => {s | s.length = 1}
  | char c => {[c]}

/-- What a list of tokens matches. -/
def languageOf (tokens : List (Token α)) : Language α := (tokens.map language).prod

theorem nil_mem_languageOf : ([] : List α) ∈ languageOf [] := Language.mem_one [] |>.mpr rfl

theorem mem_languageOf_cons {token : Token α} {tokens : List (Token α)} {s : List α} :
    s ∈ languageOf (token :: tokens) ↔ ∃ a ∈ token.language, ∃ b ∈ languageOf tokens, a ++ b = s := by
  rw [languageOf, List.map_cons, List.prod_cons, Language.mem_mul]
  rfl

/-- A token for a character is matched by that character only. -/
theorem mem_of_mem_languageOf {tokens : List (Token α)} {s : List α} (h : s ∈ languageOf tokens) {c : α}
    (hc : char c ∈ tokens) : c ∈ s := by
  induction tokens generalizing s with
  | nil => exact absurd hc List.not_mem_nil
  | cons token tokens ih =>
    obtain ⟨a, ha, b, hb, rfl⟩ := mem_languageOf_cons.mp h
    rcases List.mem_cons.mp hc with rfl | hc
    · obtain rfl := Set.mem_singleton_iff.mp ha
      exact List.mem_append_left b List.mem_cons_self
    · exact List.mem_append_right a (ih hb hc)

end Token

variable {α : Type} [DecidableEq α] (g : Glob α)

/-- What a character that is not escaped stands for. -/
def token (c : α) : Token α := if c = g.star then .star else if c = g.question then .any else .char c

/-- The tokens of a pattern, unless it ends in an escape of nothing. -/
def tokens : (escaped : Bool) → List α → Option (List (Token α))
  | false, [] => some []
  | true, [] => none
  | true, c :: p => (tokens false p).map (.char c :: ·)
  | false, c :: p => if c = g.escape then tokens true p else (tokens false p).map (g.token c :: ·)

/-- What a pattern matches; one that ends in an escape of nothing matches nothing. -/
def language (p : List α) : Language α :=
  {s | ∃ tokens, g.tokens false p = some tokens ∧ s ∈ Token.languageOf tokens}

theorem mem_language {p s : List α} :
    s ∈ g.language p ↔ ∃ tokens, g.tokens false p = some tokens ∧ s ∈ Token.languageOf tokens := Iff.rfl

/-- The last character is an escape, and is not escaped. -/
def endsInEscape : (escaped : Bool) → List α → Bool
  | escaped, [] => escaped
  | true, _ :: p => endsInEscape false p
  | false, c :: p => endsInEscape (c = g.escape) p

/-- A text that a pattern matches: nothing for a star, and `x` for a question mark. -/
def sample (x : α) : (escaped : Bool) → List α → List α
  | _, [] => []
  | true, c :: p => c :: sample x false p
  | false, c :: p =>
    if c = g.escape then sample x true p
    else if c = g.star then sample x false p
    else if c = g.question then x :: sample x false p
    else c :: sample x false p

theorem tokens_eq_none_iff (escaped : Bool) (p : List α) :
    g.tokens escaped p = none ↔ g.endsInEscape escaped p = true := by
  induction p generalizing escaped with
  | nil => cases escaped <;> simp [tokens, endsInEscape]
  | cons c p ih =>
    cases escaped with
    | true => rw [tokens, endsInEscape, Option.map_eq_none_iff, ih]
    | false =>
      by_cases hc : c = g.escape
      · rw [tokens, if_pos hc, endsInEscape, decide_eq_true hc, ih]
      · rw [tokens, if_neg hc, endsInEscape, decide_eq_false hc, Option.map_eq_none_iff, ih]

/-- A character that is none of the special ones is a token of its own. -/
theorem char_mem_tokens {escaped : Bool} {p : List α} {tokens : List (Token α)}
    (h : g.tokens escaped p = some tokens) {c : α} (hmem : c ∈ p) (hstar : c ≠ g.star) (hquestion : c ≠ g.question)
    (hescape : c ≠ g.escape) : .char c ∈ tokens := by
  induction p generalizing escaped tokens with
  | nil => exact absurd hmem List.not_mem_nil
  | cons d p ih =>
    cases escaped with
    | true =>
      obtain ⟨rest, hrest, rfl⟩ := Option.map_eq_some_iff.mp h
      rcases List.mem_cons.mp hmem with rfl | hmem
      · exact List.mem_cons_self
      · exact List.mem_cons_of_mem _ (ih hrest hmem)
    | false =>
      rw [Glob.tokens] at h
      split at h
      · next hd => exact ih h (List.mem_of_ne_of_mem (fun hcd => hescape (hcd.trans hd)) hmem)
      · obtain ⟨rest, hrest, rfl⟩ := Option.map_eq_some_iff.mp h
        rcases List.mem_cons.mp hmem with rfl | hmem
        · rw [token, if_neg hstar, if_neg hquestion]
          exact List.mem_cons_self
        · exact List.mem_cons_of_mem _ (ih hrest hmem)

/-- A pattern matches its sample. -/
theorem sample_mem_languageOf (x : α) {escaped : Bool} {p : List α} {tokens : List (Token α)}
    (h : g.tokens escaped p = some tokens) : g.sample x escaped p ∈ Token.languageOf tokens := by
  induction p generalizing escaped tokens with
  | nil =>
    cases escaped with
    | true => cases h
    | false =>
      cases h
      exact Token.nil_mem_languageOf
  | cons c p ih =>
    cases escaped with
    | true =>
      obtain ⟨rest, hrest, rfl⟩ := Option.map_eq_some_iff.mp h
      exact Token.mem_languageOf_cons.mpr ⟨[c], rfl, _, ih hrest, rfl⟩
    | false =>
      rw [Glob.tokens] at h
      rw [sample]
      split at h
      · next hc =>
        rw [if_pos hc]
        exact ih h
      · next hc =>
        obtain ⟨rest, hrest, rfl⟩ := Option.map_eq_some_iff.mp h
        rw [if_neg hc, token]
        refine Token.mem_languageOf_cons.mpr ?_
        split
        · exact ⟨[], trivial, _, ih hrest, rfl⟩
        · split
          · exact ⟨[x], rfl, _, ih hrest, rfl⟩
          · exact ⟨[c], rfl, _, ih hrest, rfl⟩

/-- A sample has no characters but those of the pattern and `x`. -/
theorem mem_of_mem_sample {x c : α} {escaped : Bool} {p : List α} (h : c ∈ g.sample x escaped p) : c ∈ p ∨ c = x := by
  induction p generalizing escaped with
  | nil =>
    cases escaped <;> exact absurd h List.not_mem_nil
  | cons d p ih =>
    have hrest : ∀ {escaped}, c ∈ g.sample x escaped p → c ∈ d :: p ∨ c = x :=
      fun h => (ih h).imp_left (List.mem_cons_of_mem d)
    cases escaped with
    | true =>
      rcases List.mem_cons.mp h with rfl | h
      · exact Or.inl List.mem_cons_self
      · exact hrest h
    | false =>
      rw [sample] at h
      split at h
      · exact hrest h
      · split at h
        · exact hrest h
        · split at h
          · rcases List.mem_cons.mp h with rfl | h
            · exact Or.inr rfl
            · exact hrest h
          · rcases List.mem_cons.mp h with rfl | h
            · exact Or.inl List.mem_cons_self
            · exact hrest h

section Matcher

/-- A matcher that goes through the tokens. -/
def matchTokens : List (Token α) → List α → Bool
  | [], s => s.isEmpty
  | .star :: tokens, s => s.tails.any fun t => matchTokens tokens t
  | .any :: tokens, s => s.length ≠ 0 && matchTokens tokens s.tail
  | .char c :: tokens, s => s.head? = some c && matchTokens tokens s.tail

def isMatch (p s : List α) : Bool := ((g.tokens false p).map fun tokens => matchTokens tokens s).getD false

theorem matchTokens_iff (tokens : List (Token α)) (s : List α) :
    matchTokens tokens s = true ↔ s ∈ Token.languageOf tokens := by
  induction tokens generalizing s with
  | nil =>
    rw [matchTokens, List.isEmpty_iff, Token.languageOf, List.map_nil, List.prod_nil, Language.mem_one]
  | cons token tokens ih =>
    rw [Token.mem_languageOf_cons]
    cases token with
    | star =>
      simp only [matchTokens, List.any_eq_true, List.mem_tails, ih, Token.language]
      constructor
      · rintro ⟨t, ⟨a, rfl⟩, ht⟩
        exact ⟨a, trivial, t, ht, rfl⟩
      · rintro ⟨a, -, t, ht, rfl⟩
        exact ⟨t, List.suffix_append a t, ht⟩
    | any =>
      simp only [matchTokens, Bool.and_eq_true, ih, decide_eq_true_eq]
      constructor
      · rintro ⟨hlength, htail⟩
        cases s with
        | nil => exact absurd rfl hlength
        | cons c s => exact ⟨[c], rfl, s, htail, rfl⟩
      · rintro ⟨a, ha, t, ht, rfl⟩
        obtain ⟨c, rfl⟩ := List.length_eq_one_iff.mp ha
        exact ⟨by simp, ht⟩
    | char c =>
      simp only [matchTokens, Bool.and_eq_true, ih, decide_eq_true_eq]
      constructor
      · rintro ⟨hhead, htail⟩
        cases s with
        | nil => cases hhead
        | cons d s =>
          cases hhead
          exact ⟨[c], rfl, s, htail, rfl⟩
      · rintro ⟨a, ha, t, ht, rfl⟩
        obtain rfl := Set.mem_singleton_iff.mp ha
        exact ⟨rfl, ht⟩

theorem isMatch_iff (p s : List α) : g.isMatch p s = true ↔ s ∈ g.language p := by
  rw [mem_language, isMatch]
  cases g.tokens false p with
  | none => simp
  | some tokens => simp [matchTokens_iff]

end Matcher

end Glob
end Kompli.Foundation
