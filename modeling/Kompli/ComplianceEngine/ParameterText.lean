import Kompli.ComplianceEngine.Procedure
import Kompli.Foundation.MapEntries

/-! The language of `key=value` parameters, and how far its parser reads exactly that language. -/
namespace Kompli
open Parson Ascii Foundation

namespace ProcedureParameters

/-- What stands between quotes, and what it means: the quote and the backslash are escaped. -/
inductive QuotedBody (quote : UInt8) : (value body : Bytes) → Prop
  | empty : QuotedBody quote [] []
  | plain {value body} (c : UInt8) (hquote : c ≠ quote) (hbackslash : c ≠ backslash) (h : QuotedBody quote value body) :
    QuotedBody quote (c :: value) (c :: body)
  | escaped {value body} (c : UInt8) (hc : c = backslash ∨ c = quote) (h : QuotedBody quote value body) :
    QuotedBody quote (c :: value) (backslash :: c :: body)

abbrev IsQuote (c : UInt8) : Prop := c = quote ∨ c = apostrophe

/-- One item, with its key and its value. -/
inductive ItemText : (key value text : Bytes) → Prop
  | word {key : Bytes} (c : UInt8) (word : Bytes) (hkey : IsKeyName key) (hc : ¬ IsQuote c)
    (hword : ∀ d ∈ c :: word, isSpace d = false) : ItemText key (c :: word) (key ++ equalsSign :: c :: word)
  | quoted {key value body : Bytes} (q : UInt8) (hkey : IsKeyName key) (hq : IsQuote q)
    (h : QuotedBody q value body) : ItemText key value (key ++ equalsSign :: q :: (body ++ [q]))

/-- An item whose text ends with an escaped quote where its closing quote is missing. -/
inductive UnclosedText : (key value text : Bytes) → Prop
  | quoted {key value body : Bytes} (q : UInt8) (hkey : IsKeyName key) (hq : IsQuote q)
    (h : QuotedBody q value body) (hlast : body.getLast? = some q) :
    UnclosedText key value (key ++ equalsSign :: q :: body)

/-- Items with white space between them; `closed` tells whether the last one has its closing quote. -/
inductive ItemsText : (closed : Bool) → (items : List (Bytes × Bytes)) → Bytes → Prop
  | empty {blank : Bytes} (hblank : ∀ c ∈ blank, isSpace c = true) : ItemsText true [] blank
  | item {closed items} {blank key value text rest : Bytes} (hblank : ∀ c ∈ blank, isSpace c = true)
    (hitem : ItemText key value text) (hrest : ∀ c ∈ rest.head?, isSpace c = true) (h : ItemsText closed items rest) :
    ItemsText closed ((key, value) :: items) (blank ++ (text ++ rest))
  | unclosed {blank key value text : Bytes} (hblank : ∀ c ∈ blank, isSpace c = true)
    (hitem : UnclosedText key value text) : ItemsText false [(key, value)] (blank ++ text)

def firstValue (items : List (Bytes × Bytes)) (key : Bytes) : Option Bytes :=
  (items.find? (·.1 = key)).map (·.2)

def lastValue (items : List (Bytes × Bytes)) (key : Bytes) : Option Bytes :=
  (items.reverse.find? (·.1 = key)).map (·.2)

section Key

private theorem parseKey_append {key rest : Bytes} {first : Bool} (h : ∀ c ∈ key, isAlnum c = true ∨ c = underscore)
    (hfirst : first = true → ∀ c ∈ key.head?, isDigit c = false)
    (hrest : ∀ c ∈ rest.head?, isSpace c = true ∨ c = equalsSign) :
    parseKey first (key ++ rest) = .ok (key, rest) := by
  induction key generalizing first with
  | nil =>
    rcases rest with _ | ⟨c, rest⟩
    · rfl
    · rw [List.nil_append, parseKey, if_pos (hrest c rfl)]
  | cons c key ih =>
    obtain ⟨hequals, -, hspace⟩ := keyName_byte (h c List.mem_cons_self)
    have hbyte : ¬ (¬ isAlnum c ∧ c ≠ underscore) := fun hbad =>
      (h c List.mem_cons_self).elim (fun hc => hbad.1 hc) hbad.2
    have hdigit : ¬ (first = true ∧ isDigit c = true) := fun ⟨hf, hd⟩ => by simp [hfirst hf c rfl] at hd
    rw [List.cons_append, parseKey, if_neg (by simp [hspace, hequals]), if_neg hbyte, if_neg hdigit,
      ih (fun d hd => h d (List.mem_cons_of_mem c hd)) (by simp)]
    rfl

private theorem parseKey_ok {first : Bool} {s key rest : Bytes} (h : parseKey first s = .ok (key, rest)) :
    s = key ++ rest ∧ (∀ c ∈ key, isAlnum c = true ∨ c = underscore) ∧
      (first = true → ∀ c ∈ key.head?, isDigit c = false) ∧
      ∀ c ∈ rest.head?, isSpace c = true ∨ c = equalsSign := by
  induction s generalizing first key with
  | nil =>
    cases h
    simp
  | cons c s ih =>
    rw [parseKey] at h
    split_ifs at h with hend hbyte hdigit
    · cases h
      refine ⟨rfl, by simp, by simp, fun d hd => ?_⟩
      cases hd
      exact hend
    · obtain ⟨⟨key', rest'⟩, hkey, h⟩ := except_bind_ok_iff.mp h
      cases h
      obtain ⟨rfl, hbytes, -, hrest⟩ := ih hkey
      refine ⟨rfl, ?_, fun hfirst d hd => ?_, hrest⟩
      · intro d hd
        rcases List.mem_cons.mp hd with rfl | hd
        · by_contra hnot
          rw [not_or] at hnot
          exact hbyte ⟨hnot.1, hnot.2⟩
        · exact hbytes d hd
      · cases hd
        simpa [hfirst] using hdigit

end Key

section Value

variable {q : UInt8}

private theorem isQuote_ne_backslash (hq : IsQuote q) : backslash ≠ q := by
  rcases hq with rfl | rfl <;> decide

private theorem parseQuotedValue_closed (hq : IsQuote q) {value body : Bytes} (h : QuotedBody q value body)
    (last : UInt8) (result rest : Bytes) :
    parseQuotedValue q last result (body ++ q :: rest) = (result ++ value, q, rest) := by
  have hbackslash := isQuote_ne_backslash hq
  induction h generalizing last result with
  | empty => rw [List.nil_append, parseQuotedValue.eq_def]; simp [Ne.symm hbackslash]
  | plain c hquote hc _ ih =>
    rw [List.cons_append, parseQuotedValue.eq_def]
    simp only [hc, hquote, ↓reduceIte, ih, List.append_assoc, List.singleton_append]
  | escaped c hc _ ih =>
    rw [List.cons_append, List.cons_append, parseQuotedValue.eq_def]
    rcases hc with rfl | rfl
    · simp only [↓reduceIte, ih, List.append_assoc, List.singleton_append]
    · simp only [↓reduceIte, Ne.symm hbackslash, ih, List.append_assoc, List.singleton_append]

private theorem parseQuotedValue_unclosed (hq : IsQuote q) {value body : Bytes} (h : QuotedBody q value body)
    (last : UInt8) (result : Bytes) :
    parseQuotedValue q last result body = (result ++ value, body.getLast?.getD last, []) := by
  have hbackslash := isQuote_ne_backslash hq
  induction h generalizing last result with
  | empty => rw [parseQuotedValue]; simp
  | plain c hquote hc _ ih =>
    rw [parseQuotedValue.eq_def]
    simp only [hc, hquote, ↓reduceIte, ih, List.append_assoc, List.singleton_append, List.getLast?_cons,
      Option.getD_some]
  | escaped c hc _ ih =>
    rw [parseQuotedValue.eq_def]
    rcases hc with rfl | rfl
    · simp only [↓reduceIte, ih, List.append_assoc, List.singleton_append, List.getLast?_cons, Option.getD_some]
    · simp only [↓reduceIte, Ne.symm hbackslash, ih, List.append_assoc, List.singleton_append, List.getLast?_cons,
        Option.getD_some]

/-- The scan of a body stops after a closing quote or at the end of the text. -/
private def Scanned (q last : UInt8) (result s value : Bytes) (last' : UInt8) (rest : Bytes) : Prop :=
  ∃ added body, QuotedBody q added body ∧ value = result ++ added ∧
    (s = body ++ q :: rest ∧ last' = q ∨ s = body ∧ rest = [] ∧ last' = body.getLast?.getD last)

private theorem Scanned.plain {c last last' : UInt8} {result s value rest : Bytes} (hquote : c ≠ q)
    (hbackslash : c ≠ backslash) (h : Scanned q c (result ++ [c]) s value last' rest) :
    Scanned q last result (c :: s) value last' rest := by
  obtain ⟨added, body, hbody, rfl, ⟨rfl, hlast⟩ | ⟨rfl, hrest, hlast⟩⟩ := h
  · exact ⟨c :: added, c :: body, .plain c hquote hbackslash hbody, by simp, .inl ⟨rfl, hlast⟩⟩
  · refine ⟨c :: added, c :: s, .plain c hquote hbackslash hbody, by simp, .inr ⟨rfl, hrest, ?_⟩⟩
    rw [hlast, List.getLast?_cons, Option.getD_some]

private theorem Scanned.escaped {c last last' : UInt8} {result s value rest : Bytes} (hc : c = backslash ∨ c = q)
    (h : Scanned q c (result ++ [c]) s value last' rest) :
    Scanned q last result (backslash :: c :: s) value last' rest := by
  obtain ⟨added, body, hbody, rfl, ⟨rfl, hlast⟩ | ⟨rfl, hrest, hlast⟩⟩ := h
  · exact ⟨c :: added, backslash :: c :: body, .escaped c hc hbody, by simp, .inl ⟨rfl, hlast⟩⟩
  · refine ⟨c :: added, backslash :: c :: s, .escaped c hc hbody, by simp, .inr ⟨rfl, hrest, ?_⟩⟩
    rw [hlast, List.getLast?_cons, List.getLast?_cons, Option.getD_some, Option.getD_some]

/-- Else it stops at a backslash that escapes nothing. -/
private theorem parseQuotedValue_cases {last : UInt8} {result s value rest : Bytes} {last' : UInt8}
    (h : parseQuotedValue q last result s = (value, last', rest)) :
    last' = backslash ∨ Scanned q last result s value last' rest := by
  fun_induction parseQuotedValue q last result s with
  | case1 last result =>
    cases h
    exact .inr ⟨[], [], .empty, by simp, .inr ⟨rfl, rfl, rfl⟩⟩
  | case2 | case5 =>
    cases h
    exact .inl rfl
  | case3 last result s ih => exact (ih h).imp_right (Scanned.escaped (.inl rfl))
  | case4 last result s hq ih => exact (ih h).imp_right (Scanned.escaped (.inr rfl))
  | case6 last result s hq =>
    cases h
    exact .inr ⟨[], [], .empty, by simp, .inl ⟨rfl, rfl⟩⟩
  | case7 last result c s hc hquote ih => exact (ih h).imp_right (Scanned.plain hquote hc)

private theorem parsePairValue_word {c : UInt8} {word rest : Bytes} (hc : ¬ IsQuote c)
    (hword : ∀ d ∈ c :: word, isSpace d = false) (hrest : ∀ d ∈ rest.head?, isSpace d = true) :
    parsePairValue (c :: word ++ rest) = .ok (c :: word, rest) := by
  have hspace := hword c List.mem_cons_self
  have hall : ∀ d ∈ c :: word, (!isSpace d) = true := fun d hd => by simp [hword d hd]
  rw [List.cons_append, parsePairValue, if_neg (by simp [hspace]), if_neg hc, ← List.cons_append,
    List.takeWhile_append_of_pos hall, List.dropWhile_append_of_pos hall]
  rcases rest with _ | ⟨d, rest⟩
  · simp
  · rw [List.takeWhile_cons_of_neg (by simp [hrest d rfl]), List.dropWhile_cons_of_neg (by simp [hrest d rfl]),
      List.append_nil]

private theorem quote_not_space (hq : IsQuote q) : isSpace q = false := by
  rcases hq with rfl | rfl <;> decide

private theorem parsePairValue_quoted (hq : IsQuote q) {value body rest : Bytes} (h : QuotedBody q value body)
    (hrest : ∀ d ∈ rest.head?, isSpace d = true) :
    parsePairValue (q :: (body ++ [q]) ++ rest) = .ok (value, rest) := by
  have hscan := parseQuotedValue_closed hq h q [] rest
  have hany : ¬ rest.head?.any (! isSpace ·) = true := by
    rcases rest with _ | ⟨d, rest⟩
    · simp
    · simp [hrest d rfl]
  rw [List.cons_append, List.append_assoc, List.singleton_append, parsePairValue,
    if_neg (by simp [quote_not_space hq]), if_pos hq, hscan]
  simp only [ne_eq, not_true_eq_false, ↓reduceIte, List.append_eq_nil_iff, reduceCtorEq, and_false, hany,
    List.nil_append]

private theorem parsePairValue_unclosed (hq : IsQuote q) {value body : Bytes} (h : QuotedBody q value body)
    (hlast : body.getLast? = some q) : parsePairValue (q :: body) = .ok (value, []) := by
  have hscan := parseQuotedValue_unclosed hq h q []
  have hne : body ≠ [] := by
    rintro rfl
    cases hlast
  rw [parsePairValue, if_neg (by simp [quote_not_space hq]), if_pos hq, hscan, hlast]
  simp [hne]

/-- The value is a word or closed text, or the last byte of the input is an escaped quote. -/
private theorem parsePairValue_cases {s value rest : Bytes} (h : parsePairValue s = .ok (value, rest)) :
    (∀ d ∈ rest.head?, isSpace d = true) ∧
      ((∃ c word, ¬ IsQuote c ∧ (∀ d ∈ c :: word, isSpace d = false) ∧ value = c :: word ∧ s = c :: word ++ rest) ∨
        (∃ q body, IsQuote q ∧ QuotedBody q value body ∧ s = q :: (body ++ [q]) ++ rest) ∨
        ∃ q body, IsQuote q ∧ QuotedBody q value body ∧ body.getLast? = some q ∧ s = q :: body ∧ rest = []) := by
  rcases s with _ | ⟨c, s⟩
  · cases h
  · rw [parsePairValue] at h
    by_cases hspace : isSpace c = true
    · rw [if_pos hspace] at h
      cases h
    · rw [if_neg hspace] at h
      by_cases hquote : IsQuote c
      · rw [if_pos hquote] at h
        rcases hscan : parseQuotedValue c c [] s with ⟨added, last, remaining⟩
        rw [hscan] at h
        simp only at h
        split_ifs at h with hlast hempty hend
        cases h
        have hlast := not_not.mp hlast
        have hrest : ∀ d ∈ rest.head?, isSpace d = true := by
          intro d hd
          by_contra hd'
          exact hend (by rw [Option.mem_def.mp hd]; simpa using hd')
        refine ⟨hrest, .inr ?_⟩
        rcases parseQuotedValue_cases hscan with hbackslash | ⟨_, body, hbody, rfl, ⟨rfl, -⟩ | ⟨rfl, rfl, hend⟩⟩
        · exact absurd (hbackslash.symm.trans hlast) (isQuote_ne_backslash hquote)
        · exact .inl ⟨c, body, hquote, by simpa using hbody, by simp⟩
        · refine .inr ⟨c, s, hquote, by simpa using hbody, ?_, rfl, rfl⟩
          obtain ⟨d, t, rfl⟩ := List.exists_cons_of_ne_nil hempty
          rw [List.getLast?_cons] at hend ⊢
          exact congrArg some (hend.symm.trans hlast)
      · rw [if_neg hquote] at h
        cases h
        refine ⟨fun d hd => ?_, .inl ⟨c, s.takeWhile (! isSpace ·), hquote, ?_, ?_, ?_⟩⟩
        · have hne := List.ne_nil_of_mem (List.mem_of_mem_head? hd)
          have hhead := List.head_dropWhile_not (! isSpace ·) hne
          rw [List.head?_eq_some_head hne] at hd
          cases hd
          simpa using hhead
        · rw [← List.takeWhile_cons_of_pos (by simp [hspace])]
          intro d hd
          simpa using List.mem_takeWhile_imp hd
        · rw [List.takeWhile_cons_of_pos (by simp [hspace])]
        · rw [← List.takeWhile_cons_of_pos (p := (! isSpace ·)) (by simp [hspace])]
          exact List.takeWhile_append_dropWhile.symm

end Value

section Item

/-- A turn of the loop, after the white space before the item. -/
def parsePair (s : Bytes) : Except Error ((Bytes × Bytes) × Bytes) := do
  let (key, rest) ← parseKey true s
  if key = [] then .error { message := utf8 "Invalid key-value pair: empty key" }
  else
    match rest with
    | [] => .error { message := utf8 "Invalid key-value pair: '=' expected" }
    | c :: rest =>
      if c ≠ equalsSign then .error { message := utf8 "Invalid key-value pair: '=' expected" }
      else do
        let (value, rest) ← parsePairValue rest
        .ok ((key, value), rest)

theorem parsePairs_nil {s : Bytes} (h : skipWhitespaces s = []) (fuel : Nat) (result : ParameterMap) :
    parsePairs (fuel + 1) result s = .ok result := by
  rw [parsePairs, h]

theorem parsePairs_cons {s : Bytes} (h : skipWhitespaces s ≠ []) (fuel : Nat) (result : ParameterMap) :
    parsePairs (fuel + 1) result s = (do
      let (pair, rest) ← parsePair (skipWhitespaces s)
      parsePairs fuel (emplace result pair.1 pair.2) rest) := by
  obtain ⟨c, t, hs⟩ := List.exists_cons_of_ne_nil h
  rw [parsePairs, hs, parsePair]
  simp only
  rcases parseKey true (c :: t) with e | ⟨key, rest⟩
  · rfl
  · simp only [except_ok_bind]
    split_ifs with hkey
    · rfl
    · rcases rest with _ | ⟨d, rest⟩
      · rfl
      · simp only
        split_ifs with hequals
        · rfl
        · rcases parsePairValue rest with e | ⟨value, rest⟩ <;> rfl

private theorem parsePair_of_value {key value rest rest' : Bytes} (hkey : IsKeyName key)
    (h : parsePairValue rest = .ok (value, rest')) :
    parsePair (key ++ equalsSign :: rest) = .ok ((key, value), rest') := by
  have hparse := @parseKey_append _ (equalsSign :: rest) true hkey.bytes
    (fun _ => by
      obtain ⟨c, hc, hdigit⟩ := hkey.first
      intro d hd
      cases hc.symm.trans hd
      exact hdigit)
    (fun c hc => .inr (Option.some.inj hc).symm)
  rw [parsePair, hparse, except_ok_bind]
  simp only [hkey.ne_nil, ↓reduceIte, ne_eq, not_true_eq_false, h, except_ok_bind]

private theorem parsePair_item {key value text rest : Bytes} (h : ItemText key value text)
    (hrest : ∀ c ∈ rest.head?, isSpace c = true) : parsePair (text ++ rest) = .ok ((key, value), rest) := by
  cases h with
  | word c word hkey hc hword =>
    rw [List.append_assoc, List.cons_append]
    exact parsePair_of_value hkey (parsePairValue_word hc hword hrest)
  | quoted q hkey hq hbody =>
    rw [List.append_assoc, List.cons_append]
    exact parsePair_of_value hkey (parsePairValue_quoted hq hbody hrest)

private theorem parsePair_unclosed {key value text : Bytes} (h : UnclosedText key value text) :
    parsePair text = .ok ((key, value), []) := by
  obtain ⟨q, hkey, hq, hbody, hlast⟩ := h
  exact parsePair_of_value hkey (parsePairValue_unclosed hq hbody hlast)

/-- A turn reads an item, or to the end of the input where it ends with an escaped quote. -/
private theorem parsePair_cases {s key value rest : Bytes} (h : parsePair s = .ok ((key, value), rest)) :
    (∃ text, ItemText key value text ∧ s = text ++ rest ∧ ∀ c ∈ rest.head?, isSpace c = true) ∨
      UnclosedText key value s ∧ rest = [] := by
  rw [parsePair, except_bind_ok_iff] at h
  obtain ⟨⟨key', after⟩, hparse, h⟩ := h
  obtain ⟨rfl, hbytes, hfirst, -⟩ := parseKey_ok hparse
  simp only at h
  split_ifs at h with hne
  rcases after with _ | ⟨c, after⟩
  · cases h
  · simp only at h
    split_ifs at h with hequals
    obtain ⟨⟨value', rest'⟩, hvalue, h⟩ := except_bind_ok_iff.mp h
    cases h
    obtain rfl := not_not.mp hequals
    have hkey : IsKeyName key := by
      obtain ⟨c, key, rfl⟩ := List.exists_cons_of_ne_nil hne
      exact ⟨hbytes, c, rfl, hfirst rfl c rfl⟩
    obtain ⟨hrest, ⟨c, word, hc, hword, rfl, rfl⟩ | ⟨q, body, hq, hbody, rfl⟩ | ⟨q, body, hq, hbody, hlast, rfl, rfl⟩⟩ :=
      parsePairValue_cases hvalue
    · exact .inl ⟨_, .word c word hkey hc hword, by simp, hrest⟩
    · exact .inl ⟨_, .quoted q hkey hq hbody, by simp, hrest⟩
    · exact .inr ⟨.quoted q hkey hq hbody hlast, rfl⟩

end Item

section Run

private theorem itemText_head {key value text : Bytes} (h : ItemText key value text) :
    ∃ c t, text = c :: t ∧ isSpace c = false := by
  have hkey : ∀ {key rest : Bytes}, IsKeyName key → ∃ c t, key ++ equalsSign :: rest = c :: t ∧ isSpace c = false := by
    intro key rest hkey
    obtain ⟨c, key, rfl⟩ := List.exists_cons_of_ne_nil hkey.ne_nil
    exact ⟨c, _, rfl, (keyName_byte (hkey.bytes c List.mem_cons_self)).2.2⟩
  cases h with
  | word c word h => exact hkey h
  | quoted q h => exact hkey h

private theorem unclosedText_head {key value text : Bytes} (h : UnclosedText key value text) :
    ∃ c t, text = c :: t ∧ isSpace c = false := by
  obtain ⟨q, hkey, -, -, -⟩ := h
  obtain ⟨c, key, rfl⟩ := List.exists_cons_of_ne_nil hkey.ne_nil
  exact ⟨c, _, rfl, (keyName_byte (hkey.bytes c List.mem_cons_self)).2.2⟩

private theorem skipWhitespaces_blank {blank s : Bytes} (hblank : ∀ c ∈ blank, isSpace c = true)
    (hs : ∃ c t, s = c :: t ∧ isSpace c = false) : skipWhitespaces (blank ++ s) = s := by
  obtain ⟨c, t, rfl, hc⟩ := hs
  rw [skipWhitespaces, List.dropWhile_append_of_pos hblank, List.dropWhile_cons_of_neg (by simp [hc])]

variable {closed : Bool} {items : List (Bytes × Bytes)} {s : Bytes}

/-- What the loop makes of items: each is added when its key is new. -/
theorem parsePairs_items (h : ItemsText closed items s) {fuel : Nat} (hfuel : s.length < fuel) (result : ParameterMap) :
    parsePairs fuel result s = .ok (items.foldl (fun result item => emplace result item.1 item.2) result) := by
  induction h generalizing fuel result with
  | empty hblank =>
    obtain ⟨fuel, rfl⟩ := Nat.exists_eq_succ_of_ne_zero (Nat.ne_zero_of_lt hfuel)
    rw [parsePairs_nil (List.dropWhile_eq_nil_iff.mpr hblank)]
    rfl
  | @item closed items blank key value text rest hblank hitem hrest _ ih =>
    obtain ⟨fuel, rfl⟩ := Nat.exists_eq_succ_of_ne_zero (Nat.ne_zero_of_lt hfuel)
    obtain ⟨c, t, rfl, hc⟩ := itemText_head hitem
    have hskip : skipWhitespaces (blank ++ (c :: t ++ rest)) = c :: t ++ rest :=
      skipWhitespaces_blank hblank ⟨c, t ++ rest, rfl, hc⟩
    have hlength : rest.length < fuel := by
      simp only [List.length_append, List.length_cons] at hfuel
      omega
    rw [parsePairs_cons (hskip.symm ▸ List.cons_ne_nil c _), hskip, parsePair_item hitem hrest, except_ok_bind]
    exact ih hlength _
  | unclosed hblank hitem =>
    obtain ⟨fuel, rfl⟩ := Nat.exists_eq_succ_of_ne_zero (Nat.ne_zero_of_lt hfuel)
    obtain ⟨c, t, rfl, hc⟩ := unclosedText_head hitem
    have hskip := skipWhitespaces_blank hblank ⟨c, t, rfl, hc⟩
    rw [parsePairs_cons (by simp [hskip]), hskip, parsePair_unclosed hitem, except_ok_bind]
    obtain ⟨fuel, rfl⟩ : ∃ n, fuel = n + 1 := Nat.exists_eq_succ_of_ne_zero (by
      simp only [List.length_append, List.length_cons] at hfuel
      omega)
    exact parsePairs_nil rfl _ _

private theorem blank_skip (s : Bytes) :
    ∃ blank, (∀ c ∈ blank, isSpace c = true) ∧ s = blank ++ skipWhitespaces s :=
  ⟨s.takeWhile isSpace, fun _ hc => List.mem_takeWhile_imp hc, List.takeWhile_append_dropWhile.symm⟩

private theorem parsePair_length {pair : Bytes × Bytes} {rest : Bytes} (h : parsePair s = .ok (pair, rest)) :
    rest.length < s.length := by
  obtain ⟨text, hitem, rfl, -⟩ | ⟨hunclosed, rfl⟩ := parsePair_cases h
  · obtain ⟨c, t, rfl, -⟩ := itemText_head hitem
    simp only [List.cons_append, List.length_cons, List.length_append]
    omega
  · obtain ⟨c, t, rfl, -⟩ := unclosedText_head hunclosed
    simp

private theorem skipWhitespaces_length (s : Bytes) : (skipWhitespaces s).length ≤ s.length :=
  (List.dropWhile_suffix isSpace).length_le

/-- The input that the loop accepts is made of items. -/
theorem items_of_parsePairs {fuel : Nat} (hfuel : s.length < fuel) {result result' : ParameterMap}
    (h : parsePairs fuel result s = .ok result') : ∃ closed items, ItemsText closed items s := by
  induction fuel generalizing s result with
  | zero => exact absurd hfuel (Nat.not_lt_zero _)
  | succ fuel ih =>
    obtain ⟨blank, hblank, hs⟩ := blank_skip s
    by_cases hskip : skipWhitespaces s = []
    · rw [hskip, List.append_nil] at hs
      exact ⟨true, [], hs ▸ .empty hblank⟩
    · rw [parsePairs_cons hskip] at h
      obtain ⟨⟨⟨key, value⟩, rest⟩, hpair, h⟩ := except_bind_ok_iff.mp h
      have hlength := parsePair_length hpair
      have hskipped := skipWhitespaces_length s
      obtain ⟨closed, items, hitems⟩ := ih (by omega) h
      obtain ⟨text, hitem, htext, hrest⟩ | ⟨hunclosed, -⟩ := parsePair_cases hpair
      · exact ⟨closed, _, by rw [hs, htext]; exact .item hblank hitem hrest hitems⟩
      · exact ⟨false, _, by rw [hs]; exact .unclosed hblank hunclosed⟩

/-- The loop ends before its fuel does. -/
theorem parsePairs_fuel {fuel fuel' : Nat} (hfuel : s.length < fuel) (hfuel' : s.length < fuel')
    (result : ParameterMap) : parsePairs fuel result s = parsePairs fuel' result s := by
  induction fuel generalizing s fuel' result with
  | zero => exact absurd hfuel (Nat.not_lt_zero _)
  | succ fuel ih =>
    obtain ⟨fuel', rfl⟩ := Nat.exists_eq_succ_of_ne_zero (Nat.ne_zero_of_lt hfuel')
    by_cases hskip : skipWhitespaces s = []
    · rw [parsePairs_nil hskip, parsePairs_nil hskip]
    · rw [parsePairs_cons hskip, parsePairs_cons hskip]
      rcases hpair : parsePair (skipWhitespaces s) with e | ⟨pair, rest⟩
      · rfl
      · have hlength := parsePair_length hpair
        have hskipped := skipWhitespaces_length s
        exact ih (by omega) (by omega) _

end Run

section Exact

/-- After a body its quote closes it, so that no other body goes on there. -/
private theorem quotedBody_stops {q : UInt8} (hq : IsQuote q) {value body value' rest : Bytes}
    (h : QuotedBody q value body) : ¬ QuotedBody q value' (body ++ q :: rest) := by
  have hbackslash := isQuote_ne_backslash hq
  induction h generalizing value' with
  | empty =>
    intro h'
    cases h' with
    | plain _ hquote => exact hquote rfl
    | escaped => exact hbackslash rfl
  | @plain value body c _ hc _ ih =>
    rw [List.cons_append]
    generalize body ++ q :: rest = after at ih ⊢
    intro h'
    cases h' with
    | plain _ _ _ h' => exact ih h'
    | escaped => exact hc rfl
  | escaped c hc _ ih =>
    rw [List.cons_append, List.cons_append]
    intro h'
    cases h' with
    | plain _ _ hne => exact hne rfl
    | escaped _ _ h' => exact ih h'

private theorem key_unique {key key' rest rest' : Bytes} (hkey : IsKeyName key) (hkey' : IsKeyName key')
    (h : key ++ equalsSign :: rest = key' ++ equalsSign :: rest') : key = key' ∧ rest = rest' := by
  have hparse (key rest : Bytes) (hkey : IsKeyName key) :
      parseKey false (key ++ equalsSign :: rest) = .ok (key, equalsSign :: rest) :=
    parseKey_append hkey.bytes (by simp) (fun c hc => .inr (Option.some.inj hc).symm)
  have hpair := (hparse key rest hkey).symm.trans (h ▸ hparse key' rest' hkey')
  simp only [Except.ok.injEq, Prod.mk.injEq, List.cons.injEq, true_and] at hpair
  exact hpair

private theorem item_not_unclosed {key value key' value' text : Bytes} (h : ItemText key value text) :
    ¬ UnclosedText key' value' text := by
  intro hunclosed
  generalize htext : text = text' at hunclosed
  cases hunclosed with
  | quoted q hkey' hq' hbody' _ =>
    cases h with
    | word c word hkey hc =>
      obtain ⟨-, hrest⟩ := key_unique hkey hkey' htext
      exact hc ((List.cons.inj hrest).1 ▸ hq')
    | quoted q' hkey hq hbody =>
      obtain ⟨-, hrest⟩ := key_unique hkey hkey' htext
      obtain ⟨rfl, rfl⟩ := List.cons.inj hrest
      exact quotedBody_stops hq hbody hbody'

private theorem skip_item {blank key value text rest : Bytes} (hblank : ∀ c ∈ blank, isSpace c = true)
    (hitem : ItemText key value text) : skipWhitespaces (blank ++ (text ++ rest)) = text ++ rest := by
  obtain ⟨c, t, rfl, hc⟩ := itemText_head hitem
  exact skipWhitespaces_blank hblank ⟨c, t ++ rest, rfl, hc⟩

/-- No text is made of closed items in one way and ends in an unclosed one in another. -/
private theorem itemsText_disjoint {items items' : List (Bytes × Bytes)} {s : Bytes} (h : ItemsText true items s) :
    ¬ ItemsText false items' s := by
  generalize hclosed : true = closed at h
  induction h generalizing items' with
  | @empty blank hblank =>
    have hnil : skipWhitespaces blank = [] := List.dropWhile_eq_nil_iff.mpr hblank
    intro h'
    generalize hs : blank = s' at h'
    cases h' with
    | item hblank' hitem' =>
      obtain ⟨c, t, rfl, -⟩ := itemText_head hitem'
      rw [hs, skip_item hblank' hitem'] at hnil
      cases hnil
    | unclosed hblank' hitem' =>
      have hhead := unclosedText_head hitem'
      rw [hs, skipWhitespaces_blank hblank' hhead] at hnil
      obtain ⟨c, t, rfl, -⟩ := hhead
      cases hnil
  | @item closed items blank key value text rest hblank hitem hrest _ ih =>
    have hskip := @skip_item _ _ _ _ rest hblank hitem
    intro h'
    generalize hs : blank ++ (text ++ rest) = s' at h' hskip
    cases h' with
    | item hblank' hitem' hrest' h' =>
      rw [skip_item hblank' hitem'] at hskip
      have hpair := parsePair_item hitem' hrest'
      rw [hskip, parsePair_item hitem hrest] at hpair
      cases hpair
      exact ih hclosed h'
    | unclosed hblank' hitem' =>
      rw [skipWhitespaces_blank hblank' (unclosedText_head hitem')] at hskip
      have hpair := parsePair_unclosed hitem'
      rw [hskip, parsePair_item hitem hrest] at hpair
      cases hpair
      rw [List.append_nil] at hskip
      exact item_not_unclosed hitem (hskip ▸ hitem')
  | unclosed => cases hclosed

private theorem getElem?_items (items : List (Bytes × Bytes)) (result : ParameterMap) (key : Bytes) :
    (items.foldl (fun result item => emplace result item.1 item.2) result)[key]? =
      result[key]?.or (firstValue items key) :=
  getElem?_foldl_insertIfNew Prod.fst Prod.snd items result key

/-- The parser takes the language of items and gives each key its last value, for an input that does
not end with an escaped quote where a closing one is missing, and in which no key is given a value
that differs from the first one last. -/
theorem parseText_exact_iff (input : Bytes) :
    ((((∃ result, parseText input = .ok result) ↔ ∃ items, ItemsText true items input) ∧
        ∀ result items, parseText input = .ok result → ItemsText true items input →
          ∀ key : Bytes, result[key]? = lastValue items key) ↔
      (∀ items, ¬ ItemsText false items input) ∧
        ∀ items, ItemsText true items input → ∀ key, firstValue items key = lastValue items key) ∧
    ∀ fuel, input.length < fuel → parsePairs fuel ∅ input = parseText input := by
  have hparse {closed items} (h : ItemsText closed items input) : parseText input =
      .ok (items.foldl (fun result item => emplace result item.1 item.2) ∅) :=
    parsePairs_items h (Nat.lt_succ_self _) ∅
  have hfirst (items : List (Bytes × Bytes)) (key : Bytes) :
      (items.foldl (fun result item => emplace result item.1 item.2) (∅ : ParameterMap))[key]? =
        firstValue items key := by
    rw [getElem?_items, Std.ExtTreeMap.getElem?_empty, Option.none_or]
  refine ⟨⟨fun ⟨haccept, hvalues⟩ => ⟨fun items hunclosed => ?_, fun items hitems key => ?_⟩,
    fun ⟨hclosed, hlast⟩ => ⟨⟨fun ⟨result, h⟩ => ?_, fun ⟨items, h⟩ => ⟨_, hparse h⟩⟩,
      fun result items h hitems key => ?_⟩⟩, fun fuel hfuel => parsePairs_fuel hfuel (Nat.lt_succ_self _) ∅⟩
  · obtain ⟨items', hitems'⟩ := haccept.mp ⟨_, hparse hunclosed⟩
    exact itemsText_disjoint hitems' hunclosed
  · rw [← hvalues _ items (hparse hitems) hitems key, hfirst]
  · obtain ⟨closed, items, hitems⟩ := items_of_parsePairs (Nat.lt_succ_self _) h
    cases closed with
    | true => exact ⟨items, hitems⟩
    | false => exact absurd hitems (hclosed items)
  · obtain rfl := Except.ok.inj ((hparse hitems).symm.trans h)
    rw [hfirst, hlast items hitems key]

/-- The text `k="\"` is accepted, and its quote is never closed. -/
theorem parseText_takes_unclosed_quote :
    ¬ ∀ input, (∃ result, parseText input = .ok result) → ∃ items, ItemsText true items input := by
  intro h
  have hkey : IsKeyName [0x6B] := ⟨List.forall_mem_singleton.mpr (.inl rfl), 0x6B, rfl, rfl⟩
  have hunclosed : ItemsText false [([0x6B], [quote])] ([] ++ ([0x6B] ++ equalsSign :: quote :: [backslash, quote])) :=
    .unclosed (by simp) (.quoted quote hkey (.inl rfl) (.escaped quote (.inr rfl) .empty) rfl)
  obtain ⟨items, hitems⟩ := h _ ⟨_, parsePairs_items hunclosed (Nat.lt_succ_self _) ∅⟩
  exact itemsText_disjoint hitems hunclosed

end Exact

end ProcedureParameters
end Kompli
