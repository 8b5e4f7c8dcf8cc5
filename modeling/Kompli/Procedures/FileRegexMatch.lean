import Kompli.ComplianceEngine.StringTools
import Kompli.Foundation.Loop
import Kompli.Foundation.RegexSearch

/-! The matches of a pattern in a file, one line at a time or in the file as a whole. -/
namespace Kompli.FileRegexMatch
open Parson Ascii Foundation StringTools
open Foundation.Loop (Turn)
open RegexSearch
open Streams (newline)

/-- A compiled pattern. -/
abbrev Regex := (text : Bytes) → Expression text.length

section Evaluation

structure Options where
  minimumValue : Option Int64 := none
  maximumValue : Option Int64 := none
  allMatches : Bool := false
  wholeFile : Bool := false
  noneMatches : Bool := false

structure MultilineMatchResult where
  success : Bool
  selected : Bool
  deriving DecidableEq, Repr

/-- `ParseInteger`. -/
def parseInteger (text : Bytes) : Except Error Int64 :=
  let digits := if text.head? = some minusSign ∨ text.head? = some plusSign then text.tail else text
  let value : Int := if text.head? = some minusSign then -Decimal.value digits else Decimal.value digits
  if text = [] then .error { message := utf8 "Integer value is empty", code := EINVAL }
  else if digits = [] ∨ digits.any (! isDigit ·) then .error { message := utf8 "Invalid integer syntax", code := EINVAL }
  else if value < -2 ^ 63 ∨ 2 ^ 63 ≤ value then
    .error { message := utf8 "Integer value is out of range", code := ERANGE }
  else .ok (Int64.ofInt value)

/-- The first group, or all of the match where there is none. -/
def capturedValue (contents : Bytes) (found : Match) : Bytes :=
  match found.group with
  | some (offset, length) => (contents.drop offset).take length
  | none => (contents.drop found.position).take found.length

/-- `evaluateMatch` of the value that was captured. -/
def valueMatches (options : Options) (stateRegex : Option Regex) (capturedValue : Bytes) : Bool :=
  let numeric :=
    if options.minimumValue.isSome || options.maximumValue.isSome then
      match parseInteger capturedValue with
      | .error _ => false
      | .ok number => options.minimumValue.all (· ≤ number) && options.maximumValue.all (number ≤ ·)
    else true
  numeric && stateRegex.all fun regex => (regexSearch (regex capturedValue) 0 {}).isSome

/-- What the loops keep, and which matches have been evaluated. -/
structure Scan where
  matchingValueFound : Bool := false
  selected : Bool := false
  evaluated : List Match := []

/-- A result, and which matches were evaluated for it. -/
structure Outcome where
  result : MultilineMatchResult
  evaluated : List Match

variable (options : Options) (stateRegex : Option Regex)

/-- `evaluateWholeFileMatch`, which the loop over lines spells out. -/
def evaluateMatch (contents : Bytes) (found : Match) (scan : Scan) : Turn Outcome Scan :=
  let matching := valueMatches options stateRegex (capturedValue contents found)
  let evaluated := scan.evaluated ++ [found]
  if options.noneMatches && matching then .leave { result := { success := false, selected := true }, evaluated }
  else if options.allMatches && ! matching then .leave { result := { success := false, selected := true }, evaluated }
  else if ! options.allMatches && ! options.noneMatches && matching then
    .leave { result := { success := true, selected := true }, evaluated }
  else .again { matchingValueFound := scan.matchingValueFound || matching, selected := true, evaluated }

/-- After the loops. -/
def finish (scan : Scan) : Outcome where
  result :=
    { success := if options.noneMatches then scan.selected else scan.matchingValueFound, selected := scan.selected }
  evaluated := scan.evaluated

end Evaluation

section Loops

variable (options : Options) (stateRegex : Option Regex) (contents : Bytes) (expression : Expression contents.length)

structure Anchored where
  offset : Nat := 0
  scan : Scan := {}

/-- Where the next line starts, if one does. -/
def nextLine (contents : Bytes) (offset : Nat) : Option Nat := (findFrom newline contents offset).map (· + 1)

/-- The loop for a pattern that starts with `^`. -/
def anchoredTurn (state : Anchored) : Turn Outcome Anchored :=
  if contents.length < state.offset then .leave (finish options state.scan)
  else
    match regexSearch expression state.offset { continuous := true } with
    | some found =>
      match evaluateMatch options stateRegex contents found state.scan with
      | .leave outcome => .leave outcome
      | .again scan => .again { offset := state.offset + max found.length 1, scan }
    | none =>
      match nextLine contents state.offset with
      | none => .leave (finish options state.scan)
      | some offset => .again { state with offset }

structure Unanchored where
  start : Nat := 0
  flags : Flags := {}
  scan : Scan := {}

/-- The loop for all other patterns: an empty match is followed by one that is not empty, or by a step of a byte. -/
def unanchoredTurn (state : Unanchored) : Turn Outcome Unanchored :=
  match regexSearch expression state.start state.flags with
  | none => .leave (finish options state.scan)
  | some found =>
    match evaluateMatch options stateRegex contents found state.scan with
    | .leave outcome => .leave outcome
    | .again scan =>
      let start := found.position + found.length
      if found.length ≠ 0 then .again { start, flags := { prevAvail := true }, scan }
      else if start = contents.length then .leave (finish options scan)
      else
        match regexSearch expression start { prevAvail := start ≠ 0, notNull := true, continuous := true } with
        | none => .again { start := start + 1, flags := { prevAvail := true }, scan }
        | some nonempty =>
          match evaluateMatch options stateRegex contents nonempty scan with
          | .leave outcome => .leave outcome
          | .again scan => .again { start := start + nonempty.length, flags := { prevAvail := true }, scan }

def caret : UInt8 := 0x5E

/-- Nothing where the fuel does not suffice. -/
def wholeFileMatch (fuel : Nat) (matchPattern : Bytes) : Option Outcome :=
  if matchPattern.head? = some caret then
    Loop.run (anchoredTurn options stateRegex contents expression) fuel {}
  else Loop.run (unanchoredTurn options stateRegex contents expression) fuel {}

/-- One match for each line. -/
def matchLines (matchRegex : Regex) : List Bytes → Scan → Outcome
  | [], scan => finish options scan
  | line :: lines, scan =>
    match regexSearch (matchRegex line) 0 {} with
    | none => matchLines matchRegex lines scan
    | some found =>
      match evaluateMatch options stateRegex line found scan with
      | .leave outcome => outcome
      | .again scan => matchLines matchRegex lines scan

/-- `compile` makes an expression of a pattern, with or without regard to case, or says why the pattern is none.
`file` is what the file holds, or why it is not opened. -/
def multilineMatch (fuel : Nat) (compile : Bytes → Bool → Except Bytes Regex) (filename : Bytes)
    (file : Except Int Bytes) (matchPattern : Bytes) (statePattern : Option Bytes) (ignoreCase : Bool × Bool)
    (options : Options) : Option (Except Error Outcome) :=
  let regexError (what : Bytes) : Error := { message := utf8 "Regex error: " ++ what, code := EINVAL }
  match file with
  | .error errno => some (.error { message := utf8 "Failed to open file: " ++ filename, code := errno })
  | .ok contents =>
    match compile matchPattern ignoreCase.1, statePattern.mapM fun pattern => compile pattern ignoreCase.2 with
    | .error what, _ => some (.error (regexError what))
    | .ok _, .error what => some (.error (regexError what))
    | .ok matchRegex, .ok stateRegex =>
      if options.wholeFile then
        (wholeFileMatch options stateRegex contents (matchRegex contents) fuel matchPattern).map .ok
      else
        let lines := if contents = [] then [[]] else Streams.lines contents
        some (.ok (matchLines options stateRegex matchRegex lines {}))

end Loops

end Kompli.FileRegexMatch
