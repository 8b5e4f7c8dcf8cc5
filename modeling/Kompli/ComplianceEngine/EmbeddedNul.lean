import Kompli.ComplianceEngine.JsonWrapper
import Kompli.Parson.Balanced

/-! No NUL comes in through JSON. -/
namespace Kompli.JsonWrapper
open Parson Ascii

section Strings

private theorem scan_plain {c : UInt8} (hq : c ≠ quote) (hb : c ≠ backslash) (s : Bytes) :
    containsEscapedNul true (c :: s) = containsEscapedNul true s := by
  rw [containsEscapedNul.eq_def]
  simp only [if_neg hq, if_pos hb]

private theorem scan_escape (e : UInt8) (s : Bytes) :
    containsEscapedNul true (backslash :: e :: s) =
      ((e = u && startsWith (utf8 "0000") s) || containsEscapedNul true s) := by
  rw [containsEscapedNul.eq_def]
  rfl

private theorem scan_quote (s : Bytes) : containsEscapedNul true (quote :: s) = containsEscapedNul false s := by
  rw [containsEscapedNul.eq_def]
  rfl

private theorem skips_plain {c : UInt8} {s input rest : Bytes} (hq : c ≠ quote) (hb : c ≠ backslash)
    (h : skipQuotes (c :: s) = some (c :: input, rest)) : skipQuotes s = some (input, rest) := by
  rw [skipQuotes.eq_def] at h
  simp only [if_neg hq, if_neg hb] at h
  obtain ⟨⟨input', rest'⟩, hrest, heq⟩ := Option.map_eq_some_iff.mp h
  cases heq
  exact hrest

private theorem skips_escape {e : UInt8} {s input rest : Bytes}
    (h : skipQuotes (backslash :: e :: s) = some (backslash :: e :: input, rest)) :
    skipQuotes s = some (input, rest) := by
  rw [skipQuotes.eq_def] at h
  obtain ⟨⟨input', rest'⟩, hrest, heq⟩ := Option.map_eq_some_iff.mp h
  cases heq
  exact hrest

/-- A hexadecimal digit ends no string and escapes nothing. -/
private theorem hexCharToInt_some {c : UInt8} {x : Nat} (h : hexCharToInt c = some x) :
    c ≠ quote ∧ c ≠ backslash ∧ x < 16 ∧ (x = 0 ↔ c = zero) := by
  have hall : ∀ i : Fin 256, ∀ x, hexCharToInt (UInt8.ofNat i) = some x →
      UInt8.ofNat i ≠ quote ∧ UInt8.ofNat i ≠ backslash ∧ x < 16 ∧ (x = 0 ↔ UInt8.ofNat i = zero) := by
    intro i x hx
    have hone : ∀ i : Fin 256, ∀ x ∈ hexCharToInt (UInt8.ofNat i),
        UInt8.ofNat i ≠ quote ∧ UInt8.ofNat i ≠ backslash ∧ x < 16 ∧ (x = 0 ↔ UInt8.ofNat i = zero) := by
      decide +kernel
    exact hone i x hx
  have hc := hall ⟨c.toNat, c.toNat_lt⟩ x
  rw [UInt8.ofNat_toNat] at hc
  exact hc h

private theorem parseUtf16Hex_some {s₀ s₁ s₂ s₃ : UInt8} {cp : Nat} (h : parseUtf16Hex s₀ s₁ s₂ s₃ = some cp) :
    (∀ c ∈ [s₀, s₁, s₂, s₃], c ≠ quote ∧ c ≠ backslash) ∧ cp < 0x10000 ∧
      (cp = 0 ↔ s₀ = zero ∧ s₁ = zero ∧ s₂ = zero ∧ s₃ = zero) := by
  obtain ⟨x₁, h₁, h⟩ := Option.bind_eq_some_iff.mp h
  obtain ⟨x₂, h₂, h⟩ := Option.bind_eq_some_iff.mp h
  obtain ⟨x₃, h₃, h⟩ := Option.bind_eq_some_iff.mp h
  obtain ⟨x₄, h₄, h⟩ := Option.bind_eq_some_iff.mp h
  cases h
  obtain ⟨hq₁, hb₁, hlt₁, hzero₁⟩ := hexCharToInt_some h₁
  obtain ⟨hq₂, hb₂, hlt₂, hzero₂⟩ := hexCharToInt_some h₂
  obtain ⟨hq₃, hb₃, hlt₃, hzero₃⟩ := hexCharToInt_some h₃
  obtain ⟨hq₄, hb₄, hlt₄, hzero₄⟩ := hexCharToInt_some h₄
  refine ⟨?_, by omega, ?_⟩
  · simp only [List.forall_mem_cons, List.not_mem_nil, false_implies, implies_true, and_true]
    exact ⟨⟨hq₁, hb₁⟩, ⟨hq₂, hb₂⟩, ⟨hq₃, hb₃⟩, hq₄, hb₄⟩
  · rw [← hzero₁, ← hzero₂, ← hzero₃, ← hzero₄]
    omega

private theorem scan_hex {s₀ s₁ s₂ s₃ : UInt8} {cp : Nat} (h : parseUtf16Hex s₀ s₁ s₂ s₃ = some cp) (s : Bytes) :
    containsEscapedNul true (backslash :: u :: s₀ :: s₁ :: s₂ :: s₃ :: s) =
      (decide (cp = 0) || containsEscapedNul true s) := by
  obtain ⟨hplain, -, hzero⟩ := parseUtf16Hex_some h
  simp only [List.forall_mem_cons, List.not_mem_nil, false_implies, implies_true, and_true] at hplain
  obtain ⟨⟨hq₀, hb₀⟩, ⟨hq₁, hb₁⟩, ⟨hq₂, hb₂⟩, hq₃, hb₃⟩ := hplain
  have hzeros : startsWith (utf8 "0000") (s₀ :: s₁ :: s₂ :: s₃ :: s) = decide (cp = 0) := by
    have hdigits : utf8 "0000" = [zero, zero, zero, zero] := rfl
    rw [hdigits, startsWith, Bool.eq_iff_iff, decide_eq_true_eq, hzero, List.isPrefixOf_iff_prefix]
    simp only [List.cons_prefix_cons, List.nil_prefix, and_true]
    constructor
    · rintro ⟨e₀, e₁, e₂, e₃⟩
      exact ⟨e₀.symm, e₁.symm, e₂.symm, e₃.symm⟩
    · rintro ⟨e₀, e₁, e₂, e₃⟩
      exact ⟨e₀.symm, e₁.symm, e₂.symm, e₃.symm⟩
  rw [scan_escape, hzeros, scan_plain hq₀ hb₀, scan_plain hq₁ hb₁, scan_plain hq₂ hb₂, scan_plain hq₃ hb₃]
  simp

private theorem skips_hex {s₀ s₁ s₂ s₃ : UInt8} {cp : Nat} {s input rest : Bytes}
    (hcp : parseUtf16Hex s₀ s₁ s₂ s₃ = some cp)
    (h : skipQuotes (backslash :: u :: s₀ :: s₁ :: s₂ :: s₃ :: s) =
      some (backslash :: u :: s₀ :: s₁ :: s₂ :: s₃ :: input, rest)) : skipQuotes s = some (input, rest) := by
  have hplain := (parseUtf16Hex_some hcp).1
  simp only [List.forall_mem_cons, List.not_mem_nil, false_implies, implies_true, and_true] at hplain
  obtain ⟨⟨hq₀, hb₀⟩, ⟨hq₁, hb₁⟩, ⟨hq₂, hb₂⟩, hq₃, hb₃⟩ := hplain
  exact skips_plain hq₃ hb₃ (skips_plain hq₂ hb₂ (skips_plain hq₁ hb₁ (skips_plain hq₀ hb₀ (skips_escape h))))

/-- Of the code points only that of NUL is written with a NUL. -/
private theorem zero_mem_encodeUtf8 {cp : Nat} (h : cp < 0x110000) : 0 ∈ encodeUtf8 cp ↔ cp = 0 := by
  have hne {k : Nat} (hk : k % 256 ≠ 0) : (0 : UInt8) ≠ UInt8.ofNat k := by
    intro heq
    have := congrArg UInt8.toNat heq
    simp only [UInt8.toNat_ofNat'] at this
    exact hk this.symm
  rw [encodeUtf8]
  split_ifs with h₁ h₂ h₃
  · rw [List.mem_singleton]
    constructor
    · intro heq
      have := congrArg UInt8.toNat heq
      simp only [UInt8.toNat_ofNat'] at this
      have hzero : (0 : UInt8).toNat = 0 := rfl
      omega
    · rintro rfl
      rfl
  · simp only [List.mem_cons, List.not_mem_nil, or_false, cont]
    refine iff_of_false ?_ (by omega)
    rintro (heq | heq) <;> exact hne (by omega) heq
  · simp only [List.mem_cons, List.not_mem_nil, or_false, cont]
    refine iff_of_false ?_ (by omega)
    rintro (heq | heq | heq) <;> exact hne (by omega) heq
  · simp only [List.mem_cons, List.not_mem_nil, or_false, cont]
    refine iff_of_false ?_ (by omega)
    rintro (heq | heq | heq | heq) <;> exact hne (by omega) heq

/-- The scan sees what the parser makes of a string. -/
private theorem scan_string {input rest output : Bytes}
    (hquoted : skipQuotes (input ++ quote :: rest) = some (input, rest)) (h : processString input = some output) :
    containsEscapedNul true (input ++ quote :: rest) = (decide (0 ∈ output) || containsEscapedNul false rest) := by
  fun_induction processString input generalizing output with
  | case1 =>
    cases h
    exact scan_quote rest
  | case2 => cases h
  | case3 s₀ s₁ s₂ s₃ s ih ihPair =>
    obtain ⟨cp, hcp, h⟩ := Option.bind_eq_some_iff.mp h
    have hrest := skips_hex hcp hquoted
    have hlt := (parseUtf16Hex_some hcp).2.1
    have hscan := scan_hex hcp (s ++ quote :: rest)
    simp only [List.cons_append]
    rw [hscan]
    split_ifs at h with hsingle hlead
    · obtain ⟨tail, htail, rfl⟩ := Option.map_eq_some_iff.mp h
      rw [ih hrest htail, ← Bool.or_assoc]
      congr 1
      rw [Bool.eq_iff_iff]
      simp only [Bool.or_eq_true, decide_eq_true_eq, List.mem_append, zero_mem_encodeUtf8 (by omega : cp < 0x110000)]
    · have hne : cp ≠ 0 := by omega
      rcases s with _ | ⟨e₀, _ | ⟨e₁, _ | ⟨t₀, _ | ⟨t₁, _ | ⟨t₂, _ | ⟨t₃, s⟩⟩⟩⟩⟩⟩ <;> try cases h
      obtain ⟨trail, htrail, hrun⟩ := Option.bind_eq_some_iff.mp h
      split_ifs at hrun with hpair
      obtain ⟨rfl, rfl, hlow, hhigh⟩ := hpair
      obtain ⟨tail, htail, rfl⟩ := Option.map_eq_some_iff.mp hrun
      have htail' := ihPair (skips_hex htrail hrest) htail
      have hne' : trail ≠ 0 := by omega
      have hlead' : (0 : UInt8) ∉ encodeUtf8 ((cp - 0xD800) * 0x400 + (trail - 0xDC00) + 0x10000) := by
        rw [zero_mem_encodeUtf8 (by omega)]
        omega
      rw [decide_eq_false hne, Bool.false_or, List.cons_append, List.cons_append, List.cons_append, List.cons_append,
        List.cons_append, List.cons_append, scan_hex htrail, decide_eq_false hne', Bool.false_or, htail']
      simp only [List.mem_append, hlead', false_or]
  | case4 => cases h
  | case5 e s he ih =>
    obtain ⟨c, hc, h⟩ := Option.bind_eq_some_iff.mp h
    obtain ⟨tail, htail, rfl⟩ := Option.map_eq_some_iff.mp h
    have hne : (0 : UInt8) ≠ c := by
      rintro rfl
      rw [unescape] at hc
      split_ifs at hc <;> cases hc
    simp only [List.cons_append] at hquoted ⊢
    rw [scan_escape, decide_eq_false he, Bool.false_and, Bool.false_or, ih (skips_escape hquoted) htail]
    simp only [List.mem_cons, hne, false_or]
  | case6 => cases h
  | case7 c s hb hc ih =>
    obtain ⟨tail, htail, rfl⟩ := Option.map_eq_some_iff.mp h
    have hne : (0 : UInt8) ≠ c := by
      rintro rfl
      exact hc (by decide)
    have hq : c ≠ quote := by
      rintro rfl
      rw [List.cons_append, skipQuotes.eq_def] at hquoted
      cases hquoted
    rw [List.cons_append] at hquoted ⊢
    rw [scan_plain hq hb, ih (skips_plain hq hb hquoted) htail]
    simp only [List.mem_cons, hne, false_or]

end Strings

section Documents

/-- No name and no string of the value has a NUL in it. -/
abbrev HoldsNoNul (v : JsonValue) : Prop := Texts NulFree (fun _ => True) v

/-- The scan finds something just when a string that the parser reads, or what follows, has a NUL. -/
def Scans (s : Bytes) (noNul : Prop) (rest : Bytes) : Prop :=
  containsEscapedNul false s = false ↔ noNul ∧ containsEscapedNul false rest = false

private theorem Scans.iff {s rest : Bytes} {noNul : Prop} (h : Scans s noNul rest) :
    containsEscapedNul false s = false ↔ noNul ∧ containsEscapedNul false rest = false := h

private theorem scan_other {c : UInt8} (h : c ≠ quote) (s : Bytes) :
    containsEscapedNul false (c :: s) = containsEscapedNul false s := by
  rw [containsEscapedNul.eq_def]
  simp only [decide_eq_false h]

private theorem scan_unquoted {w : Bytes} (h : quote ∉ w) (s : Bytes) :
    containsEscapedNul false (w ++ s) = containsEscapedNul false s := by
  induction w with
  | nil => rfl
  | cons c w ih =>
    rw [List.mem_cons, not_or] at h
    rw [List.cons_append, scan_other (fun heq => h.1 heq.symm), ih h.2]

private theorem scan_skipWhitespaces (s : Bytes) :
    containsEscapedNul false (skipWhitespaces s) = containsEscapedNul false s := by
  have hspaces : quote ∉ s.takeWhile isSpace := by
    intro h
    have hspace := List.mem_takeWhile_imp h
    cases hspace
  conv_rhs => rw [← List.takeWhile_append_dropWhile (p := isSpace) (l := s), scan_unquoted hspaces]
  rfl

/-- The scan after white space and a character of the layout. -/
private theorem scan_after {s t : Bytes} {c : UInt8} (h : skipWhitespaces s = c :: t) (hc : c ≠ quote) :
    containsEscapedNul false s = containsEscapedNul false (skipWhitespaces t) := by
  rw [← scan_skipWhitespaces, h, scan_other hc, scan_skipWhitespaces]

private theorem getQuotedString_scans {s output rest : Bytes} (h : getQuotedString s = some (output, rest)) :
    Scans s (NulFree output) rest := by
  cases s with
  | nil => cases h
  | cons c s =>
    rw [getQuotedString] at h
    split_ifs at h with hc
    subst hc
    obtain ⟨⟨input, rest'⟩, hquotes, h⟩ := Option.bind_eq_some_iff.mp h
    obtain ⟨output', houtput, h⟩ := Option.bind_eq_some_iff.mp h
    cases h
    obtain ⟨rfl, -⟩ := skipQuotes_some hquotes
    have hscan : containsEscapedNul false (quote :: (input ++ quote :: rest)) =
        containsEscapedNul true (input ++ quote :: rest) := by
      rw [containsEscapedNul.eq_def]
      rfl
    rw [Scans, hscan, scan_string hquotes houtput, Bool.or_eq_false_iff, decide_eq_false_iff_not]
    rfl

private theorem token_scans {token s : Bytes} (h : startsWith token s = true) (hquote : quote ∉ token) :
    containsEscapedNul false s = containsEscapedNul false (s.drop token.length) := by
  obtain ⟨t, rfl⟩ := List.isPrefixOf_iff_prefix.mp h
  rw [List.drop_left, scan_unquoted hquote]

variable {num : NumberFormat}

private theorem parseItems_scans {parse : ValueParser} {v : JsonValue} {rest : Bytes}
    (hparse : ∀ s v rest, parse s = some (v, rest) → Scans s (HoldsNoNul v) rest) (fuel : Nat) :
    ∀ (items : List JsonValue) (s : Bytes), parseItems parse fuel items s = some (v, rest) →
      ((∀ item ∈ items, HoldsNoNul item) ∧ containsEscapedNul false s = false ↔
        HoldsNoNul v ∧ containsEscapedNul false rest = false) := by
  induction fuel with
  | zero =>
    intro items s h
    cases h
  | succ fuel ih =>
    intro items s h
    rw [parseItems] at h
    obtain ⟨⟨value, t⟩, hvalue, h⟩ := Option.bind_eq_some_iff.mp h
    dsimp only at h
    have hall : (∀ item ∈ items, HoldsNoNul item) ∧ HoldsNoNul value ↔
        ∀ item ∈ items ++ [value], HoldsNoNul item := by
      rw [List.forall_mem_append, List.forall_mem_singleton]
    rw [(hparse s value t hvalue).iff, ← and_assoc, hall]
    split at h
    · cases h
    · rename_i c t' hskip
      split_ifs at h with hcomma hbracket
      · subst hcomma
        rw [scan_after hskip (by decide)]
        exact ih _ _ h
      · cases h
        subst hbracket
        rw [scan_after hskip (by decide), scan_skipWhitespaces]
        refine and_congr_left fun _ => ⟨.array, fun harray => ?_⟩
        cases harray with
        | array hitems => exact hitems

private theorem parseArrayValue_scans {parse : ValueParser} {s rest : Bytes} {v : JsonValue}
    (hparse : ∀ s v rest, parse s = some (v, rest) → Scans s (HoldsNoNul v) rest)
    (h : parseArrayValue parse s = some (v, rest)) : Scans s (HoldsNoNul v) rest := by
  have hnil : ∀ item ∈ ([] : List JsonValue), HoldsNoNul item := fun item hitem => (nomatch hitem)
  rw [parseArrayValue] at h
  split at h
  · cases h
  · rename_i c t hskip
    split_ifs at h with hbracket
    · cases h
      subst hbracket
      rw [Scans, scan_after hskip (by decide), scan_skipWhitespaces]
      exact ⟨fun h => ⟨.array hnil, h⟩, And.right⟩
    · rw [Scans, ← scan_skipWhitespaces, hskip, ← parseItems_scans hparse _ _ _ h]
      exact ⟨fun h => ⟨hnil, h⟩, And.right⟩

private theorem parseMembers_scans {parse : ValueParser} {v : JsonValue} {rest : Bytes}
    (hparse : ∀ s v rest, parse s = some (v, rest) → Scans s (HoldsNoNul v) rest) (fuel : Nat) :
    ∀ (members : Members) (s : Bytes), parseMembers parse fuel members s = some (v, rest) →
      ((∀ m ∈ members, NulFree m.1 ∧ HoldsNoNul m.2) ∧ containsEscapedNul false s = false ↔
        HoldsNoNul v ∧ containsEscapedNul false rest = false) := by
  induction fuel with
  | zero =>
    intro members s h
    cases h
  | succ fuel ih =>
    intro members s h
    rw [parseMembers] at h
    obtain ⟨⟨name, t⟩, hname, h⟩ := Option.bind_eq_some_iff.mp h
    dsimp only at h
    rw [(getQuotedString_scans hname).iff]
    split at h
    · cases h
    · split at h
      · cases h
      · rename_i c t' hskip
        split at h
        · cases h
        · rename_i hcolon
          rw [ne_eq, Decidable.not_not] at hcolon
          subst hcolon
          obtain ⟨⟨value, u⟩, hvalue, h⟩ := Option.bind_eq_some_iff.mp h
          dsimp only at h
          have hall : ((∀ m ∈ members, NulFree m.1 ∧ HoldsNoNul m.2) ∧ NulFree name) ∧ HoldsNoNul value ↔
              ∀ m ∈ members ++ [(name, value)], NulFree m.1 ∧ HoldsNoNul m.2 := by
            rw [List.forall_mem_append, List.forall_mem_singleton, and_assoc]
          rw [scan_after hskip (by decide), scan_skipWhitespaces, (hparse t' value u hvalue).iff, ← and_assoc,
            ← and_assoc, hall]
          split at h
          · cases h
          · split at h
            · cases h
            · rename_i c u' hskip
              split_ifs at h with hcomma hbrace
              · subst hcomma
                rw [scan_after hskip (by decide)]
                exact ih _ _ h
              · cases h
                subst hbrace
                rw [scan_after hskip (by decide), scan_skipWhitespaces]
                refine and_congr_left fun _ => ⟨fun h => .object (fun m hm => (h m hm).1) fun m hm => (h m hm).2, ?_⟩
                intro hobject
                cases hobject with
                | object hnames hvalues => exact fun m hm => ⟨hnames m hm, hvalues m hm⟩

private theorem parseObjectValue_scans {parse : ValueParser} {s rest : Bytes} {v : JsonValue}
    (hparse : ∀ s v rest, parse s = some (v, rest) → Scans s (HoldsNoNul v) rest)
    (h : parseObjectValue parse s = some (v, rest)) : Scans s (HoldsNoNul v) rest := by
  rw [parseObjectValue] at h
  split at h
  · cases h
  · rename_i c t hskip
    split_ifs at h with hbrace
    · cases h
      subst hbrace
      rw [Scans, scan_after hskip (by decide), scan_skipWhitespaces]
      exact ⟨fun h => ⟨.object (fun _ hm => absurd hm List.not_mem_nil) fun _ hm => absurd hm List.not_mem_nil, h⟩, And.right⟩
    · rw [Scans, ← scan_skipWhitespaces, hskip, ← parseMembers_scans hparse _ _ _ h]
      exact ⟨fun h => ⟨fun _ hm => absurd hm List.not_mem_nil, h⟩, And.right⟩

/-- Of what the parser reads, the scan finds the strings that have a NUL. -/
theorem parseValue_scans (hplain : num.ReadsPlain) (room : Nat) :
    ∀ s v rest, parseValue num room s = some (v, rest) → Scans s (HoldsNoNul v) rest := by
  induction room with
  | zero =>
    intro s v rest h
    cases h
  | succ room ih =>
    intro s v rest h
    have hafter {noNul : Prop} (hnoNul : noNul) {t : Bytes}
        (hscan : containsEscapedNul false s = containsEscapedNul false t) : Scans s noNul t := by
      rw [Scans, hscan]
      exact ⟨fun h => ⟨hnoNul, h⟩, And.right⟩
    rw [parseValue] at h
    split at h
    · cases h
    · rename_i c t hskip
      split_ifs at h with hbrace hbracket hquote hboolean hnumber hnull
      · rw [Scans, scan_after hskip (by rw [hbrace]; decide), scan_skipWhitespaces]
        exact parseObjectValue_scans ih h
      · rw [Scans, scan_after hskip (by rw [hbracket]; decide), scan_skipWhitespaces]
        exact parseArrayValue_scans ih h
      · obtain ⟨⟨string, rest'⟩, hstring, heq⟩ := Option.map_eq_some_iff.mp h
        cases heq
        rw [Scans, ← scan_skipWhitespaces, hskip, (getQuotedString_scans hstring).iff]
        refine and_congr_left fun _ => ⟨.string, fun h => ?_⟩
        cases h with
        | string hnul => exact hnul
      · rw [← hskip] at h
        rw [parseBooleanValue] at h
        split_ifs at h with htrue hfalse
        · cases h
          exact hafter (.boolean true) ((scan_skipWhitespaces s).symm.trans (token_scans htrue (by decide)))
        · cases h
          exact hafter (.boolean false) ((scan_skipWhitespaces s).symm.trans (token_scans hfalse (by decide)))
      · rw [← hskip] at h
        obtain ⟨⟨number, length⟩, hread, h⟩ := Option.bind_eq_some_iff.mp h
        dsimp only at h
        split_ifs at h
        cases h
        refine hafter (.number trivial) ((scan_skipWhitespaces s).symm.trans ?_)
        have hunquoted : quote ∉ (skipWhitespaces s).take length := by
          intro hmem
          have hnone := List.any_eq_false.mp (hplain _ number length hread) quote hmem
          exact hnone (by decide)
        conv_lhs => rw [← List.take_append_drop length (skipWhitespaces s), scan_unquoted hunquoted]
      · rw [← hskip] at h
        rw [parseNullValue] at h
        split_ifs at h with hnull
        cases h
        exact hafter .null ((scan_skipWhitespaces s).symm.trans (token_scans hnull (by decide)))

def withoutMark (input : Bytes) : Bytes := if startsWith byteOrderMark input then input.drop 3 else input

private theorem scan_withoutMark (input : Bytes) :
    containsEscapedNul false (withoutMark input) = containsEscapedNul false input := by
  rw [withoutMark]
  split_ifs with hmark
  · exact (token_scans hmark (by decide)).symm
  · rfl

/-- A text is read just when the parser reads it and there is no NUL, neither in a string of what it reads nor in one
of what follows. -/
theorem fromString_ok_iff (hplain : num.ReadsPlain) {input : Bytes} {v : JsonValue} :
    fromString num input = .ok v ↔ NulFree input ∧ HoldsNoNul v ∧ ∃ rest,
      parseValue num (maxNesting + 1) (withoutMark input) = some (v, rest) ∧ containsEscapedNul false rest = false := by
  have hscan {rest : Bytes} (h : parseValue num (maxNesting + 1) (withoutMark input) = some (v, rest)) :
      containsEscapedNul false input = false ↔ HoldsNoNul v ∧ containsEscapedNul false rest = false := by
    rw [← scan_withoutMark]
    exact parseValue_scans hplain _ _ _ _ h
  have hread (hnul : NulFree input) : jsonParseString num input = some v ↔
      ∃ rest, parseValue num (maxNesting + 1) (withoutMark input) = some (v, rest) := by
    rw [jsonParseString, cString_of_nulFree hnul, ← withoutMark, Option.map_eq_some_iff]
    simp only [Prod.exists, exists_and_right, exists_eq_right]
  rw [fromString, containsNul]
  constructor
  · intro h
    split_ifs at h with hcontains
    rw [Bool.not_eq_true, Bool.or_eq_false_iff, decide_eq_false_iff_not] at hcontains
    cases hparse : jsonParseString num input with
    | none =>
      rw [hparse] at h
      cases h
    | some value =>
      rw [hparse] at h
      cases h
      obtain ⟨rest, hrest⟩ := (hread hcontains.1).mp hparse
      obtain ⟨hvalue, hfollowing⟩ := (hscan hrest).mp hcontains.2
      exact ⟨hcontains.1, hvalue, rest, hrest, hfollowing⟩
  · rintro ⟨hnul, hvalue, rest, hrest, hfollowing⟩
    have hnot : ¬ (decide (0 ∈ input) || containsEscapedNul false input) = true := by
      rw [Bool.not_eq_true, Bool.or_eq_false_iff, decide_eq_false_iff_not]
      exact ⟨hnul, (hscan hrest).mpr ⟨hvalue, hfollowing⟩⟩
    rw [if_neg hnot, (hread hnul).mpr ⟨rest, hrest⟩]

end Documents

section Escapes

/-- What a string holds up to somewhere between its characters: a backslash is there with what it escapes. -/
inductive StringChars : Bytes → Prop
  | nil : StringChars []
  | plain {s c} (h : StringChars s) (hq : c ≠ quote) (hb : c ≠ backslash) : StringChars (s ++ [c])
  | escape {s} (h : StringChars s) (e : UInt8) : StringChars (s ++ [backslash, e])

/-- How many backslashes a text ends with. -/
def backslashes (s : Bytes) : Nat := (s.reverse.takeWhile (· = backslash)).length

/-- What follows is not escaped. -/
theorem StringChars.even {s : Bytes} (h : StringChars s) : backslashes s % 2 = 0 := by
  induction h with
  | nil => rfl
  | plain _ _ hb => simp [backslashes, hb]
  | @escape s _ e ih =>
    by_cases he : e = backslash
    · subst he
      have hrun : backslashes (s ++ [backslash, backslash]) = backslashes s + 2 := by simp [backslashes]
      omega
    · simp [backslashes, he]

/-- The escape of a NUL, in a string and not itself escaped. -/
def EscapesNul (input : Bytes) : Prop :=
  ∃ before inside after, input = before ++ quote :: (inside ++ (utf8 "\\u0000" ++ after)) ∧ StringChars inside ∧
    backslashes inside % 2 = 0

/-- Where the scan stands in a text. -/
private def StandsAt (input : Bytes) : (inString : Bool) → Bytes → Prop
  | false, s => ∃ before, input = before ++ s
  | true, s => ∃ before inside, input = before ++ quote :: (inside ++ s) ∧ StringChars inside

private theorem escapesNul_of_scan {input s : Bytes} {inString : Bool} (hstands : StandsAt input inString s)
    (h : containsEscapedNul inString s = true) : EscapesNul input := by
  fun_induction containsEscapedNul inString s with
  | case1 => cases h
  | case2 c s ih =>
    obtain ⟨before, rfl⟩ := hstands
    refine ih ?_ h
    by_cases hc : c = quote
    · subst hc
      exact ⟨before, [], rfl, .nil⟩
    · rw [decide_eq_false hc]
      exact ⟨before ++ [c], by simp⟩
  | case3 s ih =>
    obtain ⟨before, inside, rfl, -⟩ := hstands
    exact ih ⟨before ++ quote :: (inside ++ [quote]), by simp⟩ h
  | case4 c s hq hb ih =>
    obtain ⟨before, inside, rfl, hinside⟩ := hstands
    exact ih ⟨before, inside ++ [c], by simp, hinside.plain hq hb⟩ h
  | case5 => cases h
  | case6 c hq hb e s ih =>
    obtain ⟨before, inside, rfl, hinside⟩ := hstands
    rw [ne_eq, Decidable.not_not] at hb
    subst hb
    rw [Bool.or_eq_true, Bool.and_eq_true, decide_eq_true_eq] at h
    rcases h with ⟨rfl, hzeros⟩ | hrest
    · obtain ⟨after, rfl⟩ := List.isPrefixOf_iff_prefix.mp hzeros
      exact ⟨before, inside, after, rfl, hinside, hinside.even⟩
    · exact ih ⟨before, inside ++ [backslash, e], by simp, hinside.escape e⟩ hrest

end Escapes

/-- What is read holds no NUL, so that its strings are whole as C strings; what is refused for a NUL has one, as it is
or as the escape of one. -/
theorem fromString_noNul {num : NumberFormat} (hplain : num.ReadsPlain) (input : Bytes) :
    (∀ v, fromString num input = .ok v →
      Texts (fun text => NulFree text ∧ cString text = text) (fun _ => True) v) ∧
    (fromString num input = .error { message := utf8 "JSON input contains embedded NUL", code := EINVAL } →
      0 ∈ input ∨ EscapesNul input) := by
  constructor
  · intro v h
    obtain ⟨-, hvalue, -⟩ := (fromString_ok_iff hplain).mp h
    exact hvalue.mono (fun text hnul => ⟨hnul, cString_of_nulFree hnul⟩) fun _ h => h
  · intro h
    rw [fromString, containsNul] at h
    split_ifs at h with hcontains
    · rw [Bool.or_eq_true, decide_eq_true_eq] at hcontains
      exact hcontains.imp_right fun hscan => @escapesNul_of_scan _ _ false ⟨[], rfl⟩ hscan
    · cases hparse : jsonParseString num input with
      | none =>
        rw [hparse] at h
        exact absurd (congrArg Error.message (Except.error.inj h)) (by decide)
      | some value =>
        rw [hparse] at h
        cases h

/-- A backslash that is escaped does not escape what follows it. -/
theorem fromString_noNul_escaped :
    ∃ v, fromString { print := fun _ => [], read := fun _ => none } (utf8 "[\"\\\\u0000\"]") = .ok v ∧
      Texts (fun text => NulFree text ∧ cString text = text) (fun _ => True) v := by
  have hok : (fromString { print := fun _ => [], read := fun _ => none } (utf8 "[\"\\\\u0000\"]")).isOk = true := by
    decide +kernel
  cases hread : fromString { print := fun _ => [], read := fun _ => none } (utf8 "[\"\\\\u0000\"]") with
  | error e =>
    rw [hread] at hok
    cases hok
  | ok v => exact ⟨v, rfl, (fromString_noNul (fun _ _ _ h => by cases h) _).1 v hread⟩

end Kompli.JsonWrapper
