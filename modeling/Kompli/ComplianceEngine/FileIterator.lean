import Kompli.ComplianceEngine.DistributionInfo

/-! The readers of os-release and of the override file as they move their iterator, which must not
be moved once it is at the end. -/
namespace Kompli
open Parson Ascii Foundation

/-- `std::istream_iterator<char>`: what it has not read, and whether it was moved when that was nothing. -/
structure FileIterator where
  rest : Bytes
  pastEnd : Bool := false

namespace FileIterator

abbrev newline : UInt8 := 0x0A

/-- `++input`. -/
def next : FileIterator → FileIterator
  | ⟨[], _⟩ => ⟨[], true⟩
  | ⟨_ :: rest, pastEnd⟩ => ⟨rest, pastEnd⟩

/-- From the `#` to the end of its line. -/
def skipComment (input : FileIterator) : FileIterator :=
  ⟨input.next.rest.dropWhile (· ≠ newline), input.next.pastEnd⟩

theorem next_length (input : FileIterator) : input.next.rest.length = input.rest.length - 1 := by
  rcases input with ⟨_ | ⟨c, rest⟩, pastEnd⟩ <;> rfl

theorem skipComment_length (input : FileIterator) : input.skipComment.rest.length ≤ input.rest.length - 1 := by
  have hline := (List.dropWhile_suffix (· ≠ newline) (l := input.next.rest)).length_le
  rw [next_length] at hline
  exact hline

end FileIterator

namespace DistributionInfo

/-- `ParseKey`. -/
def readKey (result : Bytes) (hasSpaces : Bool) : FileIterator → Except Error (Bytes × FileIterator)
  | input@⟨[], _⟩ =>
    if result = [] then .ok ([], input) else .error (invalid "Unexpected end of input while parsing a key")
  | input@⟨value :: _, _⟩ =>
    if value = equals then
      if result = [] then .error (invalid "Unexpected '=' at the start of a key") else .ok (result, input.next)
    else if value = hash then
      if result ≠ [] then .error (invalid "Unexpected comment character '#' in a key")
      else readKey result hasSpaces input.skipComment.next
    else if isSpace value then readKey result (hasSpaces || result ≠ []) input.next
    else if hasSpaces then .error (invalid "Unexpected space in a key")
    else readKey (result ++ [value]) hasSpaces input.next
termination_by input => input.rest.length
decreasing_by
  all_goals
    have hcomment := FileIterator.skipComment_length input
    simp_all only [FileIterator.next_length, List.length_cons]
    omega

/-- `ParseValue`. -/
def readValue (result : Bytes) (quoted : Bool) : FileIterator → Except Error (Bytes × FileIterator)
  | input@⟨[], _⟩ =>
    if quoted then .error (invalid "Unexpected end of input while parsing a quoted value") else .ok (result, input)
  | input@⟨value :: _, _⟩ =>
    if value = quote then
      if quoted then .ok (result, input.next)
      else if result ≠ [] then .error (invalid "Unexpected quote character past the start of value")
      else readValue result true input.next
    else if value = hash ∧ ¬ quoted then .ok (result, input.skipComment.next)
    else if isSpace value then
      if quoted then readValue result quoted input.next else .ok (result, input.next)
    else readValue (result ++ [value]) quoted input.next
termination_by input => input.rest.length
decreasing_by
  all_goals
    simp_all only [FileIterator.next_length, List.length_cons]
    omega

section Rest

private theorem parseKey_comment (hasSpaces : Bool) (input : Bytes) :
    parseKey [] hasSpaces true input = parseKey [] hasSpaces false (input.dropWhile (· ≠ newline)).tail := by
  induction input with
  | nil => rfl
  | cons c input ih =>
    rw [parseKey]
    by_cases hc : c = newline
    · simp [hc]
    · simp only [ne_eq, hc, not_false_eq_true, decide_true, ih, List.dropWhile_cons_of_pos]

private theorem skipComment_next_rest (c : UInt8) (rest : Bytes) (pastEnd : Bool) :
    (FileIterator.mk (c :: rest) pastEnd).skipComment.next.rest = (rest.dropWhile (· ≠ newline)).tail := by
  rw [FileIterator.skipComment, FileIterator.next]
  rcases rest.dropWhile (· ≠ newline) with _ | ⟨d, rest'⟩ <;> rfl

/-- What is read does not depend on whether the iterator was moved past the end. -/
theorem parseKey_eq (result : Bytes) (hasSpaces : Bool) (input : FileIterator) :
    parseKey result hasSpaces false input.rest =
      (readKey result hasSpaces input).map fun (key, input) => (key, input.rest) := by
  fun_induction readKey result hasSpaces input with
  | case1 => rfl
  | case2 result hasSpaces pastEnd hne =>
    obtain ⟨c, result, rfl⟩ := List.exists_cons_of_ne_nil hne
    rfl
  | case6 result hasSpaces rest pastEnd hresult hequals ih =>
    obtain rfl := not_not.mp hresult
    rw [skipComment_next_rest, ← parseKey_comment] at ih
    rw [← ih, parseKey.eq_def]
    simp [show hash ≠ equals from hequals]
  | case3 | case4 | case5 | case7 | case8 | case9 =>
    rw [parseKey.eq_def]
    simp_all [FileIterator.next, Except.map]

theorem parseValue_eq (result : Bytes) (quoted : Bool) (input : FileIterator) :
    parseValue result quoted input.rest =
      (readValue result quoted input).map fun (value, input) => (value, input.rest) := by
  fun_induction readValue result quoted input with
  | case1 => rfl
  | case2 result quoted pastEnd h =>
    rw [Bool.not_eq_true] at h
    rw [h]
    rfl
  | case6 result quoted value rest pastEnd hquote hcomment =>
    rw [parseValue.eq_def]
    obtain ⟨rfl, hquoted⟩ := hcomment
    simp [hquote, hquoted, Except.map, skipComment_next_rest]
  | case3 | case4 | case5 | case7 | case8 | case9 =>
    rw [parseValue.eq_def]
    simp_all [FileIterator.next, Except.map]

end Rest

section Loop

private theorem readKey_length {input input₁ : FileIterator} {key : Bytes}
    (h : readKey [] false input = .ok (key, input₁)) (hkey : key ≠ []) : input₁.rest.length < input.rest.length := by
  have hparse := parseKey_eq [] false input
  rw [h] at hparse
  exact parseKey_length hparse hkey

private theorem readValue_length {input input₁ : FileIterator} {value : Bytes}
    (h : readValue [] false input = .ok (value, input₁)) : input₁.rest.length ≤ input.rest.length := by
  have hparse := parseValue_eq [] false input
  rw [h] at hparse
  exact parseValue_length hparse

/-- The loop of `ParseDistributionInfoFile`, with its iterator. -/
def readEntries (input : FileIterator) (result : ByteMap Bytes) : Except Error (ByteMap Bytes × FileIterator) :=
  if input.rest = [] then .ok (result, input)
  else
    match _hkey : readKey [] false input with
    | .error e => .error e
    | .ok (key, input₁) =>
      if _hempty : key = [] then .ok (result, input₁)
      else
        match _hvalue : readValue [] false input₁ with
        | .error e => .error e
        | .ok (value, input₂) => readEntries input₂ (result.insert key value)
termination_by input.rest.length
decreasing_by
  exact Nat.lt_of_le_of_lt (readValue_length _hvalue) (readKey_length _hkey _hempty)

theorem readEntries_nil (pastEnd : Bool) (result : ByteMap Bytes) :
    readEntries ⟨[], pastEnd⟩ result = .ok (result, ⟨[], pastEnd⟩) := by
  rw [readEntries, if_pos rfl]

/-- One turn of the loop: a key and its value, or the end. -/
theorem readEntries_step {input : FileIterator} (h : input.rest ≠ []) (result : ByteMap Bytes) :
    readEntries input result = (do
      let (key, input₁) ← readKey [] false input
      if key = [] then .ok (result, input₁)
      else do
        let (value, input₂) ← readValue [] false input₁
        readEntries input₂ (result.insert key value)) := by
  rw [readEntries, if_neg h]
  split
  · next e hkey => rw [hkey]; rfl
  · next key input₁ hkey =>
    simp only [hkey, except_ok_bind]
    split_ifs with hempty
    · rfl
    · split
      · next e hvalue => rw [hvalue]; rfl
      · next value input₂ hvalue => rw [hvalue]; rfl

private theorem parseEntries_step {input : Bytes} (h : input ≠ []) (result : ByteMap Bytes) :
    parseEntries input result = (do
      let (key, input₁) ← parseKey [] false false input
      if key = [] then .ok result
      else do
        let (value, input₂) ← parseValue [] false input₁
        parseEntries input₂ (result.insert key value)) := by
  rw [parseEntries, if_neg h]
  split
  · next e hkey => rw [hkey]; rfl
  · next key input₁ hkey =>
    simp only [hkey, except_ok_bind]
    split_ifs with hempty
    · rfl
    · split
      · next e hvalue => rw [hvalue]; rfl
      · next value input₂ hvalue => rw [hvalue]; rfl

theorem parseEntries_eq (input : FileIterator) (result : ByteMap Bytes) :
    parseEntries input.rest result = (readEntries input result).map Prod.fst := by
  fun_induction readEntries input result with
  | case1 input result h =>
    rw [parseEntries, if_pos h]
    rfl
  | case2 input result h e hkey =>
    rw [parseEntries_step h, parseKey_eq, hkey]
    rfl
  | case3 input result h input₁ hkey =>
    rw [parseEntries_step h, parseKey_eq, hkey]
    rfl
  | case4 input result h key input₁ hkey hempty e hvalue =>
    rw [parseEntries_step h, parseKey_eq, hkey]
    simp only [Except.map, except_ok_bind, hempty, ↓reduceIte, parseValue_eq, hvalue]
    rfl
  | case5 input result h key input₁ hkey hempty value input₂ hvalue ih =>
    rw [parseEntries_step h, parseKey_eq, hkey]
    simp only [Except.map, except_ok_bind, hempty, ↓reduceIte, parseValue_eq, hvalue]
    exact ih

end Loop

end DistributionInfo
end Kompli
