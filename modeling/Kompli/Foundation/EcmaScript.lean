import Kompli.Foundation.Bytes
import Kompli.Foundation.Regex

/-! The syntax of regular expressions in ECMAScript over bytes: characters and escapes, classes without ranges,
groups, alternatives, the greedy quantifiers that are one character, and the assertions. What else there is of it
is not read. -/
namespace Kompli.Foundation.EcmaScript

def isAlnum (c : UInt8) : Bool := (0x30 ≤ c && c ≤ 0x39) || (0x41 ≤ c && c ≤ 0x5A) || (0x61 ≤ c && c ≤ 0x7A)

def isWord (c : UInt8) : Bool := isAlnum c || c = 0x5F

def isSpace (c : UInt8) : Bool := c = 0x20 || (0x09 ≤ c && c ≤ 0x0D)

def isAnyButLineEnd (c : UInt8) : Bool := c ≠ 0x0A && c ≠ 0x0D

/-- One of a class, or, where it is negated, none of it. -/
def oneOf (negated : Bool) (members : List (UInt8 → Bool)) (c : UInt8) : Bool := negated != members.any (· c)

section Tokens

inductive Token where
  | atom (r : Regex UInt8)
  | assertion (r : Regex UInt8)
  | star
  | plus
  | optional
  | bar
  | openGroup
  | closeGroup

/-- What is being read. -/
inductive Mode where
  | pattern
  | escape
  | classStart
  | members (negated : Bool) (read : List (UInt8 → Bool))
  | memberEscape (negated : Bool) (read : List (UInt8 → Bool))
  | name (negated : Bool) (read : List (UInt8 → Bool)) (text : Bytes)

/-- A letter with a backslash stands for something else, a sign for itself. -/
def escaped (c : UInt8) : Option (UInt8 → Bool) :=
  if c = 0x6E then some (· = 0x0A)
  else if c = 0x72 then some (· = 0x0D)
  else if c = 0x74 then some (· = 0x09)
  else if c = 0x73 then some isSpace
  else if c = 0x77 then some isWord
  else if isWord c then none
  else some (· = c)

def named (text : Bytes) : Option (UInt8 → Bool) :=
  if text = utf8 ":alnum:" then some isAlnum
  else if text = utf8 ":space:" then some isSpace
  else none

def readPattern (c : UInt8) : Option (Mode × List Token) :=
  if c = 0x5C then some (.escape, [])
  else if c = 0x5B then some (.classStart, [])
  else if c = 0x5E then some (.pattern, [.assertion .start])
  else if c = 0x24 then some (.pattern, [.assertion .stop])
  else if c = 0x2E then some (.pattern, [.atom (.char fun d => d ≠ 0x0A ∧ d ≠ 0x0D)])
  else if c = 0x2A then some (.pattern, [.star])
  else if c = 0x2B then some (.pattern, [.plus])
  else if c = 0x3F then some (.pattern, [.optional])
  else if c = 0x7C then some (.pattern, [.bar])
  else if c = 0x28 then some (.pattern, [.openGroup])
  else if c = 0x29 then some (.pattern, [.closeGroup])
  else if c ∈ utf8 "]\x7b\x7d" then none
  else some (.pattern, [.atom (.char fun d => d = c)])

/-- A minus stands for itself at the start of a class. -/
def readMember (negated : Bool) (read : List (UInt8 → Bool)) (c : UInt8) : Option (Mode × List Token) :=
  if c = 0x5D then some (.pattern, [.atom (.char (oneOf negated read))])
  else if c = 0x5C then some (.memberEscape negated read, [])
  else if c = 0x5B then some (.name negated read [], [])
  else if c = 0x2D ∧ read ≠ [] then none
  else some (.members negated (read ++ [fun d => decide (d = c)]), [])

def readByte (mode : Mode) (c : UInt8) : Option (Mode × List Token) :=
  match mode with
  | .pattern => readPattern c
  | .escape =>
    if c = 0x62 then some (.pattern, [.assertion (.boundary isWord)])
    else (escaped c).map fun p => (.pattern, [.atom (.char p)])
  | .classStart => if c = 0x5E then some (.members true [], []) else readMember false [] c
  | .members negated read => readMember negated read c
  | .memberEscape negated read => (escaped c).map fun p => (.members negated (read ++ [p]), [])
  | .name negated read text =>
    if c = 0x5D then (named text).map fun p => (.members negated (read ++ [p]), [])
    else some (.name negated read (text ++ [c]), [])

def tokens : Mode → Bytes → Option (List Token)
  | .pattern, [] => some []
  | _, [] => none
  | mode, c :: pattern =>
    match readByte mode c with
    | none => none
    | some (next, found) => (tokens next pattern).map (found ++ ·)

end Tokens

section Groups

/-- A group that is open: its alternatives so far, and the terms of the last one, each list from its end; and
whether the last term can be quantified. -/
structure Group where
  alternatives : List (Regex UInt8) := []
  terms : List (Regex UInt8) := []
  quantifiable : Bool := false

def Group.regex (group : Group) : Regex UInt8 :=
  group.alternatives.foldl (fun r alternative => .alt alternative r) (.seqs group.terms.reverse)

def Group.add (group : Group) (r : Regex UInt8) (quantifiable : Bool) : Group :=
  { group with terms := r :: group.terms, quantifiable }

def Group.quantify (group : Group) (quantifier : Regex UInt8 → Regex UInt8) : Option Group :=
  match group.terms, group.quantifiable with
  | r :: terms, true => some { group with terms := quantifier r :: terms, quantifiable := false }
  | _, _ => none

def readToken (group : Group) (outer : List Group) : Token → Option (Group × List Group)
  | .atom r => some (group.add r true, outer)
  | .assertion r => some (group.add r false, outer)
  | .star => (group.quantify .star).map (·, outer)
  | .plus => (group.quantify .plus).map (·, outer)
  | .optional => (group.quantify .optional).map (·, outer)
  | .bar => some ({ alternatives := .seqs group.terms.reverse :: group.alternatives }, outer)
  | .openGroup => some ({}, group :: outer)
  | .closeGroup =>
    match outer with
    | [] => none
    | enclosing :: outer => some (enclosing.add group.regex true, outer)

def readTokens (group : Group) (outer : List Group) : List Token → Option (Regex UInt8)
  | [] => if outer.isEmpty then some group.regex else none
  | token :: rest =>
    match readToken group outer token with
    | none => none
    | some (group, outer) => readTokens group outer rest

/-- `std::regex` of a pattern. -/
def compile (pattern : Bytes) : Option (Regex UInt8) := (tokens .pattern pattern).bind (readTokens {} [])

end Groups

section Pieces

/-- What a part of a pattern is read as, and what is being read after it. -/
def advance : Mode → Bytes → Option (Mode × List Token)
  | mode, [] => some (mode, [])
  | mode, c :: pattern =>
    match readByte mode c with
    | none => none
    | some (next, found) => (advance next pattern).map fun (last, more) => (last, found ++ more)

/-- A pattern is read part by part. -/
theorem tokens_append {mode next : Mode} {pattern : Bytes} {found : List Token}
    (h : advance mode pattern = some (next, found)) (rest : Bytes) :
    tokens mode (pattern ++ rest) = (tokens next rest).map (found ++ ·) := by
  induction pattern generalizing mode found with
  | nil =>
    cases h
    simp
  | cons c pattern ih =>
    rw [advance] at h
    rw [List.cons_append, tokens]
    split at h
    · cases h
    · next middle first hbyte =>
      obtain ⟨⟨last, more⟩, hadvance, heq⟩ := Option.map_eq_some_iff.mp h
      cases heq
      simp only [ih hadvance, Option.map_map]
      exact congrArg (Option.map · _) (funext fun rest => (List.append_assoc _ _ _).symm)

theorem advance_append {mode next last : Mode} {pattern rest : Bytes} {found more : List Token}
    (h : advance mode pattern = some (next, found)) (hrest : advance next rest = some (last, more)) :
    advance mode (pattern ++ rest) = some (last, found ++ more) := by
  induction pattern generalizing mode found with
  | nil =>
    cases h
    exact hrest
  | cons c pattern ih =>
    rw [advance] at h
    rw [List.cons_append, advance]
    split at h
    · cases h
    · next middle first hbyte =>
      obtain ⟨⟨last', more'⟩, hadvance, heq⟩ := Option.map_eq_some_iff.mp h
      cases heq
      simp only [ih hadvance]
      simp

/-- Atoms are the next terms of the group. -/
theorem readTokens_atoms (rs : List (Regex UInt8)) (group : Group) (outer : List Group) :
    ∃ quantifiable, ∀ rest, readTokens group outer (rs.map Token.atom ++ rest) =
      readTokens { group with terms := rs.reverse ++ group.terms, quantifiable } outer rest := by
  induction rs generalizing group with
  | nil => exact ⟨group.quantifiable, fun rest => rfl⟩
  | cons r rs ih =>
    obtain ⟨quantifiable, h⟩ := ih (group.add r true)
    refine ⟨quantifiable, fun rest => ?_⟩
    rw [List.map_cons, List.cons_append, readTokens]
    simp only [readToken]
    rw [h rest]
    simp [Group.add]

end Pieces

end Kompli.Foundation.EcmaScript
