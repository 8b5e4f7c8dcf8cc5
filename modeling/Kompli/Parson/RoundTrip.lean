import Kompli.Parson.Text

/-! The parser reads back what the serializer wrote, unless it nests too deep. -/
namespace Kompli.Parson
open Ascii

section Strings

private theorem parseUtf16Hex_control {c : UInt8} (hc : c < 0x20) :
    parseUtf16Hex zero zero (hexDigit (c >>> 4)) (hexDigit (c &&& 0xF)) = some c.toNat := by
  refine of_toNat_lt (n := 32) (P := fun c => parseUtf16Hex zero zero (hexDigit (c >>> 4))
    (hexDigit (c &&& 0xF)) = some c.toNat) ?_ hc
  decide

private theorem skipQuotes_plain {c : UInt8} (hq : c ≠ quote) (hb : c ≠ backslash) (s : Bytes) :
    skipQuotes (c :: s) = (skipQuotes s).map fun (input, rest) => (c :: input, rest) := by
  rw [skipQuotes.eq_def]
  simp only [if_neg hq, if_neg hb]

private theorem skipQuotes_escaped (c : UInt8) (s : Bytes) :
    skipQuotes (backslash :: c :: s) =
      (skipQuotes s).map fun (input, rest) => (backslash :: c :: input, rest) := by
  rw [skipQuotes.eq_def]
  rfl

private theorem skipQuotes_escape (c : UInt8) (s : Bytes) :
    skipQuotes (escape c ++ s) = (skipQuotes s).map fun (input, rest) => (escape c ++ input, rest) := by
  rcases escape_cases c with ⟨h, hq, hb, -⟩ | ⟨e, h, -⟩ | ⟨hc, h⟩
  · rw [h]
    exact skipQuotes_plain hq hb s
  · rw [h]
    exact skipQuotes_escaped e s
  · obtain ⟨hhigh, hlow⟩ := hexDigits_plain hc
    obtain ⟨hq, hb, -⟩ := isPlain_iff.mp hhigh
    obtain ⟨hq', hb', -⟩ := isPlain_iff.mp hlow
    simp only [h, List.cons_append, List.nil_append, skipQuotes_escaped,
      skipQuotes_plain (c := zero) (by decide) (by decide), skipQuotes_plain hq hb,
      skipQuotes_plain hq' hb', Option.map_map]
    rfl

theorem skipQuotes_escapes (string rest : Bytes) :
    skipQuotes (string.flatMap escape ++ quote :: rest) = some (string.flatMap escape, rest) := by
  induction string with
  | nil =>
    rw [List.flatMap_nil, List.nil_append, skipQuotes.eq_def]
    rfl
  | cons c string ih =>
    rw [List.flatMap_cons, List.append_assoc, skipQuotes_escape, ih]
    rfl

private theorem processString_plain {c : UInt8} (hb : c ≠ backslash) (hc : ¬ c < 0x20) (s : Bytes) :
    processString (c :: s) = (processString s).map (c :: ·) := by
  rw [processString.eq_def]
  simp only [if_neg hb, if_neg hc]

private theorem processString_escaped {e c : UInt8} (he : unescape e = some c) (hu : e ≠ u) (s : Bytes) :
    processString (backslash :: e :: s) = (processString s).map (c :: ·) := by
  rw [processString.eq_def]
  simp only [if_neg hu, he, ↓reduceIte]
  rfl

private theorem processString_control {c : UInt8} (hc : c < 0x20) (s : Bytes) :
    processString (backslash :: u :: zero :: zero :: hexDigit (c >>> 4) :: hexDigit (c &&& 0xF) :: s) =
      (processString s).map (c :: ·) := by
  have hlt : c.toNat < 0x20 := hc
  have hencode : encodeUtf8 c.toNat = [c] := by
    rw [encodeUtf8, if_pos (by omega), UInt8.ofNat_toNat]
  rw [processString.eq_def]
  simp only [parseUtf16Hex_control hc, Option.bind_eq_bind, Option.bind_some, ↓reduceIte]
  rw [if_pos (Or.inl (by omega)), hencode]
  rfl

theorem processString_escape (c : UInt8) (s : Bytes) :
    processString (escape c ++ s) = (processString s).map (c :: ·) := by
  rcases escape_cases c with ⟨h, -, hb, hc⟩ | ⟨e, h, he, hu⟩ | ⟨hc, h⟩
  · rw [h]
    exact processString_plain hb hc s
  · rw [h]
    exact processString_escaped he hu s
  · rw [h]
    exact processString_control hc s

theorem processString_escapes (string : Bytes) :
    processString (string.flatMap escape) = some string := by
  induction string with
  | nil => rfl
  | cons c string ih =>
    rw [List.flatMap_cons, processString_escape, ih]
    rfl

theorem getQuotedString_serializeString (string rest : Bytes) :
    getQuotedString (serializeString string ++ rest) = some (string, rest) := by
  have hquotes := skipQuotes_escapes string rest
  rw [serializeString, List.cons_append, List.append_assoc, List.singleton_append, getQuotedString,
    if_pos rfl, hquotes]
  simp only [Option.bind_eq_bind, Option.bind_some, processString_escapes]

theorem parseStringValue_serializeString (string rest : Bytes) :
    parseStringValue (serializeString string ++ rest) = some (.string string, rest) := by
  rw [parseStringValue, getQuotedString_serializeString]
  rfl

end Strings

section Layout

/-- Such a text is left as it is where white space is skipped. -/
def Solid (s : Bytes) : Prop := ∃ c t, s = c :: t ∧ isSpace c = false

theorem skipWhitespaces_of_solid {s : Bytes} (h : Solid s) : skipWhitespaces s = s := by
  obtain ⟨c, t, rfl, hc⟩ := h
  rw [skipWhitespaces, List.dropWhile_cons, if_neg (by simp [hc])]

private theorem skipWhitespaces_spaces {spaces : Bytes} (h : spaces.all isSpace = true) {s : Bytes}
    (hs : Solid s) : skipWhitespaces (spaces ++ s) = s := by
  rw [skipWhitespaces, List.dropWhile_append_of_pos (List.all_eq_true.mp h)]
  exact skipWhitespaces_of_solid hs

theorem skipWhitespaces_afterColon (pretty : Bool) {s : Bytes} (hs : Solid s) :
    skipWhitespaces (afterColon pretty ++ s) = s := by
  refine skipWhitespaces_spaces ?_ hs
  cases pretty <;> decide

theorem skipWhitespaces_indent (pretty : Bool) (level : Nat) {s : Bytes} (hs : Solid s) :
    skipWhitespaces (lineBreak pretty ++ (indent pretty level ++ s)) = s := by
  rw [← List.append_assoc]
  refine skipWhitespaces_spaces ?_ hs
  cases pretty with
  | false => rfl
  | true =>
    have hindent : (indent true level).all isSpace = true := by
      induction level with
      | zero => rfl
      | succ level ih =>
        rw [indent, if_pos rfl, appendIndent, List.replicate_succ, List.flatten_cons, List.all_append]
        exact Bool.and_eq_true_iff.mpr ⟨by decide, ih⟩
    rw [List.all_append, hindent]
    rfl

end Layout

/-- What may follow a value in a serialized text. -/
def Delimited (rest : Bytes) : Prop :=
  ∀ c ∈ rest.head?, c = comma ∨ c = rightBracket ∨ c = rightBrace ∨ c = 0x0A

/-- A number that the C library reads back as it wrote it. -/
structure NumberFormat.Rereads (num : NumberFormat) (bits : UInt64) : Prop where
  starts : ∃ c t, num.print bits = c :: t ∧ (c = minus ∨ isDigit c = true)
  nulFree : NulFree (num.print bits)
  decimal : isDecimal (num.print bits) = true
  valid : isNumberInvalid bits = false
  read : ∀ rest, Delimited rest → num.read (num.print bits ++ rest) = some (bits, (num.print bits).length)

/-- The values the parser can return, as far as names go, with numbers that are read back. -/
inductive WellFormed (num : NumberFormat) : JsonValue → Prop
  | null : WellFormed num .null
  | string (value) : WellFormed num (.string value)
  | boolean (value) : WellFormed num (.boolean value)
  | number {bits} (h : num.Rereads bits) : WellFormed num (.number bits)
  | array {items} (h : ∀ item ∈ items, WellFormed num item) : WellFormed num (.array items)
  | object {members} (h : ∀ m ∈ members, WellFormed num m.2) (nodup : (members.map Prod.fst).Nodup)
      (nulFree : ∀ m ∈ members, NulFree m.1) : WellFormed num (.object members)

/-- A value that needs no more nesting than `room`. -/
def nestsWithin : (room : Nat) → JsonValue → Bool
  | 0, _ => false
  | room + 1, .array items => items.all (nestsWithin room)
  | room + 1, .object members => members.all fun m => nestsWithin room m.2
  | _ + 1, _ => true

section Values

variable {num : NumberFormat} {pretty : Bool}

private theorem Delimited.cons {c : UInt8} {s : Bytes}
    (h : c = comma ∨ c = rightBracket ∨ c = rightBrace ∨ c = 0x0A) : Delimited (c :: s) := by
  intro x hx
  obtain rfl : c = x := by simpa using hx
  exact h

private theorem delimited_closing {bracket : UInt8} (h : bracket = rightBracket ∨ bracket = rightBrace)
    (pretty : Bool) (level : Nat) (rest : Bytes) :
    Delimited (lineBreak pretty ++ (indent pretty level ++ bracket :: rest)) := by
  cases pretty with
  | false =>
    exact Delimited.cons (by tauto)
  | true => exact Delimited.cons (by decide)

theorem delimited_serializeItems (num : NumberFormat) (pretty : Bool) (level : Nat) (items : List JsonValue) (rest : Bytes) :
    Delimited (serializeItems num pretty level items ++ rest) := by
  cases items with
  | nil =>
    simp only [serializeItems, List.append_assoc, List.singleton_append]
    exact delimited_closing (Or.inl rfl) pretty level rest
  | cons item items => exact Delimited.cons (Or.inl rfl)

theorem delimited_serializeMembers (num : NumberFormat) (pretty : Bool) (level : Nat)
    (members : List (Bytes × JsonValue)) (rest : Bytes) :
    Delimited (serializeMembers num pretty level members ++ rest) := by
  cases members with
  | nil =>
    simp only [serializeMembers, List.append_assoc, List.singleton_append]
    exact delimited_closing (Or.inr rfl) pretty level rest
  | cons member members => exact Delimited.cons (Or.inl rfl)

/-- The first byte of a number is none of those that start something else. -/
private theorem number_byte {c : UInt8} (h : c = minus ∨ isDigit c = true) :
    isSpace c = false ∧ c ∉ [rightBracket, 0xEF, leftBrace, leftBracket, quote, f, t] := by
  have hlt : c.toNat < 0x3A := by
    obtain rfl | h := h
    · decide
    · simp only [isDigit, Bool.and_eq_true, decide_eq_true_eq, UInt8.le_iff_toNat_le] at h
      have hnine : nine.toNat = 0x39 := rfl
      omega
  revert h
  refine of_toNat_lt (n := 0x3A) (P := fun c => (c = minus ∨ isDigit c = true) → isSpace c = false ∧
    c ∉ [rightBracket, 0xEF, leftBrace, leftBracket, quote, f, t]) ?_ hlt
  decide

/-- The first byte of a serialized value. -/
theorem serialize_starts {v : JsonValue} (h : WellFormed num v) (pretty : Bool) (level : Nat) :
    ∃ c t, serialize num pretty level v = c :: t ∧ isSpace c = false ∧ c ≠ rightBracket ∧ c ≠ 0xEF := by
  cases h with
  | null => exact ⟨_, _, rfl, by decide⟩
  | string value => exact ⟨_, _, rfl, by decide⟩
  | boolean value => cases value <;> exact ⟨_, _, rfl, by decide⟩
  | number h =>
    obtain ⟨c, t, hprint, hc⟩ := h.starts
    obtain ⟨hspace, hspecial⟩ := number_byte hc
    simp only [List.mem_cons, not_or] at hspecial
    exact ⟨c, t, by rw [serialize, hprint], hspace, hspecial.1, hspecial.2.1⟩
  | @array items h => cases items <;> exact ⟨_, _, by rw [serialize], by decide⟩
  | @object members h _ _ => cases members <;> exact ⟨_, _, by rw [serialize], by decide⟩

private theorem serialize_solid {v : JsonValue} (h : WellFormed num v) (pretty : Bool) (level : Nat) (s : Bytes) :
    Solid (serialize num pretty level v ++ s) := by
  obtain ⟨c, t, hv, hc, -⟩ := serialize_starts h pretty level
  exact ⟨c, t ++ s, by rw [hv, List.cons_append], hc⟩

private theorem solid_cons {c : UInt8} (h : isSpace c = false) (s : Bytes) : Solid (c :: s) :=
  ⟨c, s, rfl, h⟩

private theorem serializeString_solid (string s : Bytes) : Solid (serializeString string ++ s) :=
  solid_cons (by decide) _

/-- The parser reads back the values it is given the texts of, as far as they fit in `room`. -/
def ReadsBack (num : NumberFormat) (pretty : Bool) (room : Nat) (v : JsonValue) : Prop :=
  ∀ level rest, Delimited rest → parseValue num room (serialize num pretty level v ++ rest) =
    if nestsWithin room v then some (v, rest) else none

private theorem parseItems_serializeItems {room level : Nat} (rest : Bytes) (items : List JsonValue) :
    ∀ (item : JsonValue) (parsed : List JsonValue) (fuel : Nat), items.length < fuel →
      (∀ x ∈ item :: items, WellFormed num x ∧ ReadsBack num pretty room x) →
      parseItems (parseValue num room) fuel parsed
          (serialize num pretty (level + 1) item ++ (serializeItems num pretty level items ++ rest)) =
        if (item :: items).all (nestsWithin room) then some (.array (parsed ++ item :: items), rest)
        else none := by
  induction items with
  | nil =>
    intro item parsed fuel hfuel h
    obtain ⟨fuel, rfl⟩ := Nat.exists_eq_add_of_lt hfuel
    have hitem := (h item List.mem_cons_self).2 (level + 1) _
      (delimited_serializeItems num pretty level [] rest)
    rw [parseItems, hitem]
    cases hfits : nestsWithin room item with
    | false => simp [hfits]
    | true =>
      simp only [serializeItems, List.append_assoc, List.singleton_append, ↓reduceIte,
        Option.bind_eq_bind, Option.bind_some]
      rw [skipWhitespaces_indent pretty level (solid_cons (by decide) rest)]
      simp [hfits, show rightBracket ≠ comma by decide]
  | cons next items ih =>
    intro item parsed fuel hfuel h
    obtain ⟨fuel, rfl⟩ := Nat.exists_eq_add_of_lt hfuel
    have hitem := (h item List.mem_cons_self).2 (level + 1) _
      (delimited_serializeItems num pretty level (next :: items) rest)
    have hnext := h next (by simp)
    have hrest := ih next (parsed ++ [item]) ((next :: items).length + fuel)
      (by simp only [List.length_cons]; omega) fun x hx => h x (List.mem_cons_of_mem _ hx)
    rw [parseItems, hitem]
    cases hfits : nestsWithin room item with
    | false => simp [hfits]
    | true =>
      simp only [serializeItems, List.cons_append, List.append_assoc, ↓reduceIte, Option.bind_eq_bind,
        Option.bind_some]
      rw [skipWhitespaces_of_solid (solid_cons (by decide) _)]
      simp only [↓reduceIte]
      rw [skipWhitespaces_indent pretty (level + 1) (serialize_solid hnext.1 pretty (level + 1) _), hrest]
      simp [hfits]

private theorem serializeItems_length (num : NumberFormat) (pretty : Bool) (level : Nat) (items : List JsonValue) :
    items.length < (serializeItems num pretty level items).length := by
  induction items with
  | nil => simp only [serializeItems, List.length_append, List.length_nil, List.length_cons]; omega
  | cons item items ih => simp only [serializeItems, List.length_append, List.length_cons]; omega

private theorem parseValue_leftBracket (num : NumberFormat) (room : Nat) (s : Bytes) :
    parseValue num (room + 1) (leftBracket :: s) = parseArrayValue (parseValue num room) s := rfl

private theorem parseValue_leftBrace (num : NumberFormat) (room : Nat) (s : Bytes) :
    parseValue num (room + 1) (leftBrace :: s) = parseObjectValue (parseValue num room) s := rfl

private theorem array_readsBack {room : Nat} {items : List JsonValue}
    (h : ∀ x ∈ items, WellFormed num x ∧ ReadsBack num pretty room x) :
    ReadsBack num pretty (room + 1) (.array items) := by
  intro level rest _
  cases items with
  | nil => rfl
  | cons item items =>
    have hwf := (h item List.mem_cons_self).1
    obtain ⟨c, t, htext, -, hbracket, -⟩ := serialize_starts hwf pretty (level + 1)
    have hsolid := serialize_solid hwf pretty (level + 1)
      (serializeItems num pretty level items ++ rest)
    have hlength := serializeItems_length num pretty level items
    simp only [serialize, List.cons_append, List.append_assoc, parseValue_leftBracket, parseArrayValue]
    rw [skipWhitespaces_indent pretty (level + 1) hsolid, htext, List.cons_append]
    simp only [if_neg hbracket]
    rw [← List.cons_append, ← htext,
      parseItems_serializeItems rest items item [] _ (by simp only [List.length_append]; omega) h]
    rfl

private theorem getValue_eq_none {members : List (Bytes × JsonValue)} {name : Bytes}
    (h : name ∉ members.map Prod.fst) : JsonValue.getValue members name = none := by
  rw [JsonValue.getValue, List.lookup_eq_none_iff]
  intro m hm
  rw [bne_iff_ne]
  rintro rfl
  exact h (List.mem_map_of_mem hm)

/-- White space before a value does not matter. -/
theorem parseValue_afterColon (room : Nat) {s : Bytes} (hs : Solid s) :
    parseValue num room (afterColon pretty ++ s) = parseValue num room s := by
  cases room with
  | zero => rfl
  | succ room =>
    rw [parseValue, parseValue, skipWhitespaces_afterColon pretty hs, skipWhitespaces_of_solid hs]

private theorem parseMembers_member {room level fuel : Nat} {parsed : List (Bytes × JsonValue)}
    {name : Bytes} {value : JsonValue} (hname : NulFree name) (hnew : name ∉ parsed.map Prod.fst)
    (hwf : WellFormed num value) (hvalue : ReadsBack num pretty room value) {s : Bytes}
    (hs : Delimited s) :
    parseMembers (parseValue num room) (fuel + 1) parsed
        (serializeString name ++ (colon :: (afterColon pretty ++ (serialize num pretty level value ++ s)))) =
      if nestsWithin room value then
        match skipWhitespaces s with
        | [] => none
        | c :: s =>
          if c = comma then
            parseMembers (parseValue num room) fuel (parsed ++ [(name, value)]) (skipWhitespaces s)
          else if c = rightBrace then some (.object (parsed ++ [(name, value)]), s)
          else none
      else none := by
  have hsolid := serialize_solid hwf pretty level s
  rw [parseMembers, getQuotedString_serializeString]
  simp only [Option.bind_eq_bind, Option.bind_some, hname, not_true_eq_false, ↓reduceIte]
  rw [skipWhitespaces_of_solid (solid_cons (by decide) _)]
  simp only [ne_eq, not_true_eq_false, ↓reduceIte]
  rw [parseValue_afterColon room hsolid, hvalue level s hs]
  cases nestsWithin room value with
  | false => rfl
  | true =>
    have hnone : ¬ (JsonValue.getValue parsed name).isSome = true := by
      rw [getValue_eq_none hnew]
      exact Bool.false_ne_true
    rewrite [if_pos rfl, if_pos rfl, Option.bind_some, if_neg hnone]
    rfl

private theorem name_new {parsed members : List (Bytes × JsonValue)} {name : Bytes} {value : JsonValue}
    (h : ((parsed ++ (name, value) :: members).map Prod.fst).Nodup) : name ∉ parsed.map Prod.fst := by
  rw [List.map_append, List.map_cons, List.nodup_append] at h
  intro hmem
  exact h.2.2 name hmem name List.mem_cons_self rfl

private theorem parseMembers_serializeMembers {room level : Nat} (rest : Bytes)
    (members : List (Bytes × JsonValue)) :
    ∀ (name : Bytes) (value : JsonValue) (parsed : List (Bytes × JsonValue)) (fuel : Nat),
      members.length < fuel →
      (∀ m ∈ (name, value) :: members,
        NulFree m.1 ∧ WellFormed num m.2 ∧ ReadsBack num pretty room m.2) →
      ((parsed ++ (name, value) :: members).map Prod.fst).Nodup →
      parseMembers (parseValue num room) fuel parsed
          (serializeString name ++ (colon :: (afterColon pretty ++
            (serialize num pretty (level + 1) value ++
              (serializeMembers num pretty level members ++ rest))))) =
        if ((name, value) :: members).all fun m => nestsWithin room m.2 then
          some (.object (parsed ++ (name, value) :: members), rest)
        else none := by
  induction members with
  | nil =>
    intro name value parsed fuel hfuel h hnodup
    obtain ⟨fuel, rfl⟩ := Nat.exists_eq_add_of_lt hfuel
    obtain ⟨hname, hwf, hvalue⟩ := h _ List.mem_cons_self
    rw [parseMembers_member hname (name_new hnodup) hwf hvalue (delimited_serializeMembers num pretty level [] rest)]
    cases hfits : nestsWithin room value with
    | false => simp [hfits]
    | true =>
      simp only [serializeMembers, List.append_assoc, List.singleton_append, ↓reduceIte]
      rw [skipWhitespaces_indent pretty level (solid_cons (by decide) rest)]
      simp [hfits, show rightBrace ≠ comma by decide]
  | cons next members ih =>
    intro name value parsed fuel hfuel h hnodup
    obtain ⟨fuel, rfl⟩ := Nat.exists_eq_add_of_lt hfuel
    obtain ⟨hname, hwf, hvalue⟩ := h _ List.mem_cons_self
    have hrest := ih next.1 next.2 (parsed ++ [(name, value)]) ((next :: members).length + fuel)
      (by simp only [List.length_cons]; omega) (fun m hm => h m (List.mem_cons_of_mem _ hm))
      (by simpa using hnodup)
    rw [parseMembers_member hname (name_new hnodup) hwf hvalue
      (delimited_serializeMembers num pretty level (next :: members) rest)]
    cases hfits : nestsWithin room value with
    | false => simp [hfits]
    | true =>
      simp only [serializeMembers, List.cons_append, List.append_assoc, ↓reduceIte]
      rw [skipWhitespaces_of_solid (solid_cons (by decide) _)]
      simp only [↓reduceIte]
      rw [skipWhitespaces_indent pretty (level + 1) (serializeString_solid next.1 _), hrest]
      simp only [List.all_cons, hfits, Bool.true_and, List.append_assoc, List.singleton_append]

private theorem serializeMembers_length (num : NumberFormat) (pretty : Bool) (level : Nat) (members : List (Bytes × JsonValue)) :
    members.length < (serializeMembers num pretty level members).length := by
  induction members with
  | nil => simp only [serializeMembers, List.length_append, List.length_nil, List.length_cons]; omega
  | cons m members ih => simp only [serializeMembers, List.length_append, List.length_cons]; omega

private theorem object_readsBack {room : Nat} {members : List (Bytes × JsonValue)}
    (h : ∀ m ∈ members, NulFree m.1 ∧ WellFormed num m.2 ∧ ReadsBack num pretty room m.2)
    (hnodup : (members.map Prod.fst).Nodup) : ReadsBack num pretty (room + 1) (.object members) := by
  intro level rest _
  cases members with
  | nil => rfl
  | cons m members =>
    have hlength := serializeMembers_length num pretty level members
    simp only [serialize, List.cons_append, List.append_assoc, parseValue_leftBrace, parseObjectValue]
    rw [skipWhitespaces_indent pretty (level + 1) (serializeString_solid m.1 _), serializeString,
      List.cons_append]
    simp only [if_neg (show quote ≠ rightBrace by decide)]
    rw [← List.cons_append, ← serializeString, parseMembers_serializeMembers rest members m.1 m.2 [] _
      (by simp only [List.length_append, List.length_cons]; omega) h hnodup]
    rfl

private theorem number_readsBack {bits : UInt64} (h : num.Rereads bits) (room : Nat) :
    ReadsBack num pretty (room + 1) (.number bits) := by
  intro level rest hrest
  obtain ⟨c, s, hprint, hc⟩ := h.starts
  obtain ⟨hspace, hspecial⟩ := number_byte hc
  have hread := h.read rest hrest
  have hdecimal := h.decimal
  simp only [serialize, nestsWithin, ↓reduceIte]
  rw [hprint] at hread hdecimal ⊢
  rw [List.cons_append, parseValue, skipWhitespaces_of_solid (solid_cons hspace _)]
  simp only [List.mem_cons, List.not_mem_nil, or_false, not_or] at hspecial
  simp only [hspecial, hc, ↓reduceIte, or_self, parseNumberValue]
  rw [← List.cons_append, hread]
  simp [hdecimal, h.valid]

/-- The parser, given what the serializer wrote of a value, gives that value and leaves
what follows it; or it fails, if the value nests too deep for it. -/
theorem parseValue_serialize {v : JsonValue} (h : WellFormed num v) (room : Nat) :
    ReadsBack num pretty room v := by
  induction h generalizing room with
  | null =>
    intro level rest _
    cases room <;> rfl
  | string value =>
    intro level rest _
    cases room with
    | zero => rfl
    | succ room => exact parseStringValue_serializeString value rest
  | boolean value =>
    intro level rest _
    cases room with
    | zero => rfl
    | succ room => cases value <;> rfl
  | number h =>
    cases room with
    | zero => exact fun level rest _ => rfl
    | succ room => exact number_readsBack h room
  | array h ih =>
    cases room with
    | zero => exact fun level rest _ => rfl
    | succ room => exact array_readsBack fun x hx => ⟨h x hx, ih x hx room⟩
  | object h hnodup hnul ih =>
    cases room with
    | zero => exact fun level rest _ => rfl
    | succ room =>
      exact object_readsBack (fun m hm => ⟨hnul m hm, h m hm, ih m hm room⟩) hnodup

private theorem WellFormed.texts {v : JsonValue} (h : WellFormed num v) :
    Texts (fun _ => True) (fun bits => NulFree (num.print bits)) v := by
  induction h with
  | null => exact .null
  | string value => exact .string trivial
  | boolean value => exact .boolean value
  | number h => exact .number h.nulFree
  | array h ih => exact .array ih
  | object h hnodup hnul ih => exact .object (fun _ _ => trivial) ih

/-- What the serializer writes is the C string that its callers take it for. -/
theorem serialize_nulFree {v : JsonValue} (h : WellFormed num v) (level : Nat) :
    NulFree (serialize num pretty level v) :=
  (nulFree_rule num).serialize h.texts level

/-- Parsing a serialized text, whatever the text goes on with after the value. -/
theorem jsonParseString_serialize {v : JsonValue} (h : WellFormed num v) (pretty : Bool) (level : Nat) {rest : Bytes}
    (hrest : Delimited (cString rest)) :
    jsonParseString num (serialize num pretty level v ++ rest) =
      if nestsWithin (maxNesting + 1) v then some v else none := by
  obtain ⟨c, t, htext, -, -, hmark⟩ := serialize_starts h pretty level
  have hstart : startsWith byteOrderMark (serialize num pretty level v ++ cString rest) = false := by
    rw [htext]
    simp only [startsWith, byteOrderMark, List.cons_append, List.isPrefixOf_cons_cons, Bool.and_eq_false_iff,
      beq_eq_false_iff_ne]
    exact Or.inl hmark.symm
  rw [jsonParseString, cString_append (serialize_nulFree h level), hstart]
  simp only [Bool.false_eq_true, ↓reduceIte, parseValue_serialize h _ level _ hrest]
  split <;> rfl

end Values

end Kompli.Parson
