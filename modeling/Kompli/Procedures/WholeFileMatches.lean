import Kompli.Procedures.FileRegexMatch

/-! Which matches the loops over a whole file evaluate: those of an anchored pattern at the starts of lines, as long as
no match ends where the pattern is found again inside a line, and for other patterns all that follow one another. -/
namespace Kompli.FileRegexMatch
open Foundation Foundation.Loop RegexSearch
open Streams (newline)

section Evaluation

variable {options : Options} {stateRegex : Option Regex} {contents : Bytes} {found : Match} {scan : Scan}

/-- Evaluating the match ends the function. -/
def exits (options : Options) (stateRegex : Option Regex) (contents : Bytes) (found : Match) : Bool :=
  let matching := valueMatches options stateRegex (capturedValue contents found)
  (options.noneMatches && matching) || (options.allMatches && ! matching) ||
    (! options.allMatches && ! options.noneMatches && matching)

theorem evaluateMatch_of_exits (h : exits options stateRegex contents found = true) (scan : Scan) :
    ∃ result, evaluateMatch options stateRegex contents found scan =
      .leave { result, evaluated := scan.evaluated ++ [found] } := by
  rw [exits] at h
  simp only [evaluateMatch]
  split_ifs with hnone hall hany
  · exact ⟨_, rfl⟩
  · exact ⟨_, rfl⟩
  · exact ⟨_, rfl⟩
  · simp only [hnone, hall, hany, Bool.or_self] at h
    cases h

theorem evaluateMatch_of_not_exits (h : exits options stateRegex contents found = false) (scan : Scan) :
    ∃ next, evaluateMatch options stateRegex contents found scan = .again next ∧
      next.evaluated = scan.evaluated ++ [found] := by
  rw [exits] at h
  simp only [Bool.or_eq_false_iff] at h
  simp only [evaluateMatch, h, if_false, Bool.false_eq_true]
  exact ⟨_, rfl, rfl⟩

/-- The matches up to the first that ends the function. -/
def throughExit (options : Options) (stateRegex : Option Regex) (contents : Bytes) : List Match → List Match
  | [] => []
  | found :: rest =>
    if exits options stateRegex contents found then [found] else found :: throughExit options stateRegex contents rest

theorem throughExit_append {before : List Match} (h : ∀ found ∈ before, exits options stateRegex contents found = false)
    (rest : List Match) :
    throughExit options stateRegex contents (before ++ rest) = before ++ throughExit options stateRegex contents rest := by
  induction before with
  | nil => rfl
  | cons found before ih =>
    obtain ⟨hfound, hbefore⟩ := List.forall_mem_cons.mp h
    simp only [List.cons_append, throughExit, hfound, Bool.false_eq_true, if_false, ih hbefore]

end Evaluation

theorem nextLine_spec {contents : Bytes} {offset next : Nat} (h : nextLine contents offset = some next) :
    LineStart newline contents next ∧ offset < next ∧ next ≤ contents.length := by
  obtain ⟨place, hplace, rfl⟩ := Option.map_eq_some_iff.mp h
  obtain ⟨hstart, hless, -⟩ := LineStart.of_findFrom hplace
  have hle := (findFrom_some hplace).1
  exact ⟨hstart, by omega, hless⟩

section Anchored

variable (options : Options) (stateRegex : Option Regex) {contents : Bytes} (expression : Expression contents.length)

/-- Where the search goes on after a match. -/
def afterMatch (found : Match) : Nat := found.position + max found.length 1

/-- What an anchored pattern finds at a place, as if the text began there. -/
def foundAt (place : Nat) : Option Match := matchFrom expression false false place

/-- The line starts that a scan of line starts alone comes to: after a match, the place where it ends if that is one,
and else the start of the next line. -/
inductive Reached : Nat → Prop where
  | first : Reached 0
  | ended {place found} : Reached place → foundAt expression place = some found →
      exits options stateRegex contents found = false → LineStart newline contents (afterMatch found) →
      Reached (afterMatch found)
  | inside {place found next} : Reached place → foundAt expression place = some found →
      exits options stateRegex contents found = false → ¬ LineStart newline contents (afterMatch found) →
      nextLine contents (afterMatch found) = some next → Reached next
  | without {place next} : Reached place → foundAt expression place = none → nextLine contents place = some next →
      Reached next

/-- The pattern is not found again inside a line where a match has ended. -/
def KeepsToLines : Prop :=
  ∀ place found, Reached options stateRegex expression place → foundAt expression place = some found →
    exits options stateRegex contents found = false → ¬ LineStart newline contents (afterMatch found) →
      foundAt expression (afterMatch found) = none

variable {options stateRegex expression} {state next : Anchored} {place fuel : Nat} {found : Match} {outcome : Outcome}

theorem position_of_foundAt (h : foundAt expression place = some found) :
    found.position = place ∧ found.position + found.length ≤ contents.length := by
  obtain ⟨what, hwhat, rfl⟩ := Option.map_eq_some_iff.mp h
  exact ⟨rfl, expression.within hwhat⟩

theorem regexSearch_continuous : regexSearch expression place { continuous := true } = foundAt expression place := rfl

theorem Reached.lineStart (h : Reached options stateRegex expression place) : LineStart newline contents place := by
  cases h with
  | first => exact .inl rfl
  | ended _ _ _ hstart => exact hstart
  | inside _ _ _ _ hnext => exact (nextLine_spec hnext).1
  | without _ _ hnext => exact (nextLine_spec hnext).1

/-- A turn at a match. -/
theorem anchoredTurn_found (state : Anchored) (h : foundAt expression state.offset = some found) :
    anchoredTurn options stateRegex contents expression state =
      match evaluateMatch options stateRegex contents found state.scan with
      | .leave outcome => .leave outcome
      | .again scan => .again { offset := afterMatch found, scan } := by
  obtain ⟨hposition, hwithin⟩ := position_of_foundAt h
  have hend : ¬ contents.length < state.offset := by omega
  cases hturn : evaluateMatch options stateRegex contents found state.scan <;>
    simp [anchoredTurn, hend, regexSearch_continuous, h, afterMatch, hposition, hturn]

variable (options stateRegex) in
/-- A turn without one. -/
theorem anchoredTurn_without (h : foundAt expression state.offset = none) :
    anchoredTurn options stateRegex contents expression state = .leave (finish options state.scan) ∨
      ∃ offset, nextLine contents state.offset = some offset ∧
        anchoredTurn options stateRegex contents expression state = .again { state with offset } := by
  rw [anchoredTurn, regexSearch_continuous, h]
  split_ifs with hend
  · exact .inl rfl
  · cases hnext : nextLine contents state.offset with
    | none => exact .inl rfl
    | some offset => exact .inr ⟨offset, rfl, rfl⟩

theorem anchoredTurn_next (h : nextLine contents state.offset = some place)
    (hnone : foundAt expression state.offset = none) :
    anchoredTurn options stateRegex contents expression state = .again { state with offset := place } := by
  obtain ⟨-, hless, hle⟩ := nextLine_spec h
  rw [anchoredTurn, if_neg (by omega), regexSearch_continuous, hnone, h]

/-- What a turn does that is not the last. -/
theorem anchoredTurn_cases (h : anchoredTurn options stateRegex contents expression state = .again next) :
    (∃ found, foundAt expression state.offset = some found ∧ exits options stateRegex contents found = false ∧
      next.offset = afterMatch found ∧ next.scan.evaluated = state.scan.evaluated ++ [found]) ∨
    (foundAt expression state.offset = none ∧ nextLine contents state.offset = some next.offset ∧
      next.scan = state.scan) := by
  cases hfound : foundAt expression state.offset with
  | none =>
    rcases anchoredTurn_without options stateRegex hfound with hleave | ⟨offset, hnext, hagain⟩
    · rw [hleave] at h
      cases h
    · rw [hagain] at h
      cases h
      exact .inr ⟨rfl, hnext, rfl⟩
  | some found =>
    rw [anchoredTurn_found state hfound] at h
    cases hexits : exits options stateRegex contents found with
    | true =>
      obtain ⟨result, hresult⟩ := evaluateMatch_of_exits hexits state.scan
      rw [hresult] at h
      cases h
    | false =>
      obtain ⟨scan, hscan, hevaluated⟩ := evaluateMatch_of_not_exits hexits state.scan
      rw [hscan] at h
      cases h
      exact .inl ⟨found, rfl, hexits, rfl, hevaluated⟩

/-- What has been evaluated when a turn is the last. -/
theorem anchoredTurn_last (h : anchoredTurn options stateRegex contents expression state = .leave outcome) :
    (∃ found, foundAt expression state.offset = some found ∧ outcome.evaluated = state.scan.evaluated ++ [found]) ∨
      (foundAt expression state.offset = none ∧ outcome.evaluated = state.scan.evaluated) := by
  cases hfound : foundAt expression state.offset with
  | none =>
    rcases anchoredTurn_without options stateRegex hfound with hleave | ⟨offset, hnext, hagain⟩
    · rw [hleave] at h
      cases h
      exact .inr ⟨rfl, rfl⟩
    · rw [hagain] at h
      cases h
  | some found =>
    rw [anchoredTurn_found state hfound] at h
    cases hexits : exits options stateRegex contents found with
    | true =>
      obtain ⟨result, hresult⟩ := evaluateMatch_of_exits hexits state.scan
      rw [hresult] at h
      cases h
      exact .inl ⟨found, rfl, rfl⟩
    | false =>
      obtain ⟨scan, hscan, -⟩ := evaluateMatch_of_not_exits hexits state.scan
      rw [hscan] at h
      cases h

variable (options stateRegex expression) in
theorem anchored_terminates :
    ∃ outcome, Loop.run (anchoredTurn options stateRegex contents expression) (contents.length + 2) {} = some outcome := by
  refine (run_total (fun _ => True) (fun _ => True) (fun state : Anchored => contents.length + 1 - state.offset)
    (fun state next _ h => ⟨trivial, ?_⟩) (fun _ _ _ _ => trivial) trivial (Nat.lt_succ_self _)).imp fun _ h => h.1
  rcases anchoredTurn_cases h with ⟨found, hfound, -, hoffset, -⟩ | ⟨-, hnext, -⟩
  · obtain ⟨hposition, hwithin⟩ := position_of_foundAt hfound
    rw [afterMatch] at hoffset
    omega
  · obtain ⟨-, hless, hle⟩ := nextLine_spec hnext
    omega

variable (options stateRegex expression) in
/-- The search goes on at a line start of the scan, or where it finds nothing inside the line of a match. -/
def OnLines (state : Anchored) : Prop :=
  (∀ found ∈ state.scan.evaluated, LineStart newline contents found.position) ∧
    (Reached options stateRegex expression state.offset ∨
      ∃ place found, Reached options stateRegex expression place ∧ foundAt expression place = some found ∧
        exits options stateRegex contents found = false ∧ ¬ LineStart newline contents (afterMatch found) ∧
        state.offset = afterMatch found ∧ foundAt expression (afterMatch found) = none)

/-- In such a state, what is found is found at a line start of the scan. -/
theorem OnLines.reached (h : OnLines options stateRegex expression state)
    (hfound : foundAt expression state.offset = some found) : Reached options stateRegex expression state.offset := by
  rcases h.2 with hreached | ⟨_, _, _, _, _, _, hoffset, hnone⟩
  · exact hreached
  · rw [← hoffset, hfound] at hnone
    cases hnone

theorem OnLines.evaluated (h : OnLines options stateRegex expression state)
    (hfound : foundAt expression state.offset = some found) :
    ∀ other ∈ state.scan.evaluated ++ [found], LineStart newline contents other.position := by
  rw [List.forall_mem_append, List.forall_mem_singleton, (position_of_foundAt hfound).1]
  exact ⟨h.1, (h.reached hfound).lineStart⟩

theorem OnLines.turn (hkeeps : KeepsToLines options stateRegex expression)
    (h : OnLines options stateRegex expression state)
    (hturn : anchoredTurn options stateRegex contents expression state = .again next) :
    OnLines options stateRegex expression next := by
  rcases anchoredTurn_cases hturn with ⟨found, hfound, hexits, hoffset, hevaluated⟩ | ⟨hnone, hnext, hscan⟩
  · have hreached := h.reached hfound
    refine ⟨hevaluated ▸ h.evaluated hfound, ?_⟩
    by_cases hstart : LineStart newline contents (afterMatch found)
    · exact .inl (hoffset ▸ .ended hreached hfound hexits hstart)
    · exact .inr ⟨_, found, hreached, hfound, hexits, hstart, hoffset, hkeeps _ found hreached hfound hexits hstart⟩
  · refine ⟨hscan ▸ h.1, .inl ?_⟩
    rcases h.2 with hreached | ⟨place, found, hreached, hfound, hexits, hstart, hoffset, -⟩
    · exact .without hreached hnone hnext
    · exact .inside hreached hfound hexits hstart (hoffset ▸ hnext)

theorem evaluated_on_lines (hkeeps : KeepsToLines options stateRegex expression)
    (hrun : Loop.run (anchoredTurn options stateRegex contents expression) fuel {} = some outcome) :
    ∀ found ∈ outcome.evaluated, LineStart newline contents found.position := by
  refine run_rule (OnLines options stateRegex expression)
    (fun outcome => ∀ found ∈ outcome.evaluated, LineStart newline contents found.position)
    (fun _ _ h hturn => h.turn hkeeps hturn) (fun state outcome h hturn => ?_) ⟨by simp, .inl .first⟩ hrun
  rcases anchoredTurn_last hturn with ⟨found, hfound, hevaluated⟩ | ⟨-, hevaluated⟩
  · exact hevaluated ▸ h.evaluated hfound
  · exact hevaluated ▸ h.1

/-- What is found where the loop comes to is evaluated. -/
theorem evaluated_of_comes (hcomes : Comes (anchoredTurn options stateRegex contents expression) {} state)
    (hfound : foundAt expression state.offset = some found)
    (hrun : Loop.run (anchoredTurn options stateRegex contents expression) fuel {} = some outcome) :
    found ∈ outcome.evaluated := by
  obtain ⟨fuel, hrun⟩ := run_of_comes hcomes hrun
  refine run_rule (fun later => later = state ∨ found ∈ later.scan.evaluated)
    (fun outcome => found ∈ outcome.evaluated) (fun later next h hturn => .inr ?_)
    (fun later outcome h hturn => ?_) (.inl rfl) hrun
  · rcases anchoredTurn_cases hturn with ⟨other, hother, -, -, hevaluated⟩ | ⟨hnone, -, hscan⟩
    · rw [hevaluated, List.mem_append, List.mem_singleton]
      rcases h with rfl | hmem
      · exact .inr (Option.some.inj (hfound.symm.trans hother))
      · exact .inl hmem
    · rcases h with rfl | hmem
      · rw [hfound] at hnone
        cases hnone
      · exact hscan ▸ hmem
  · rcases anchoredTurn_last hturn with ⟨other, hother, hevaluated⟩ | ⟨hnone, hevaluated⟩
    · rw [hevaluated, List.mem_append, List.mem_singleton]
      rcases h with rfl | hmem
      · exact .inr (Option.some.inj (hfound.symm.trans hother))
      · exact .inl hmem
    · rcases h with rfl | hmem
      · rw [hfound] at hnone
        cases hnone
      · exact hevaluated ▸ hmem

/-- Where every match that is evaluated is at a line start, the loop comes to the line starts of the scan. -/
theorem comes_of_reached
    (hrun : Loop.run (anchoredTurn options stateRegex contents expression) fuel {} = some outcome)
    (hlines : ∀ found ∈ outcome.evaluated, LineStart newline contents found.position)
    (h : Reached options stateRegex expression place) :
    ∃ scan, Comes (anchoredTurn options stateRegex contents expression) {} { offset := place, scan } := by
  have hafter {place : Nat} {found : Match} {scan : Scan} (hfound : foundAt expression place = some found)
      (hexits : exits options stateRegex contents found = false)
      (hcomes : Comes (anchoredTurn options stateRegex contents expression) {} { offset := place, scan }) :
      ∃ scan, Comes (anchoredTurn options stateRegex contents expression) {} { offset := afterMatch found, scan } := by
    obtain ⟨next, hnext, -⟩ := evaluateMatch_of_not_exits hexits scan
    refine ⟨next, hcomes.tail ?_⟩
    rw [anchoredTurn_found { offset := place, scan } hfound, hnext]
  induction h with
  | first => exact ⟨{}, .refl⟩
  | ended _ hfound hexits _ ih =>
    obtain ⟨scan, hcomes⟩ := ih
    exact hafter hfound hexits hcomes
  | inside _ hfound hexits hstart hnext ih =>
    obtain ⟨scan, hcomes⟩ := ih
    obtain ⟨scan, hcomes⟩ := hafter hfound hexits hcomes
    refine ⟨scan, hcomes.tail (anchoredTurn_next hnext ?_)⟩
    refine Option.eq_none_iff_forall_ne_some.mpr fun other hother => hstart ?_
    have hline := hlines other (evaluated_of_comes hcomes hother hrun)
    rwa [(position_of_foundAt hother).1] at hline
  | without _ hnone hnext ih =>
    obtain ⟨scan, hcomes⟩ := ih
    exact ⟨scan, hcomes.tail (anchoredTurn_next hnext hnone)⟩

theorem keepsToLines_of_evaluated
    (hrun : Loop.run (anchoredTurn options stateRegex contents expression) fuel {} = some outcome)
    (hlines : ∀ found ∈ outcome.evaluated, LineStart newline contents found.position) :
    KeepsToLines options stateRegex expression := by
  intro place found hreached hfound hexits hstart
  obtain ⟨scan, hcomes⟩ := comes_of_reached hrun hlines hreached
  obtain ⟨next, hnext, -⟩ := evaluateMatch_of_not_exits hexits scan
  have hturn : anchoredTurn options stateRegex contents expression { offset := place, scan } =
      .again { offset := afterMatch found, scan := next } := by
    rw [anchoredTurn_found { offset := place, scan } hfound, hnext]
  refine Option.eq_none_iff_forall_ne_some.mpr fun other hother => hstart ?_
  have hline := hlines other (evaluated_of_comes (hcomes.tail hturn) hother hrun)
  rwa [(position_of_foundAt hother).1] at hline

end Anchored

section Unanchored

variable {options : Options} {stateRegex : Option Regex} {contents : Bytes} {expression : Expression contents.length}
  {state : Unanchored} {start : Nat} {found : Match}

/-- The search after an empty match. -/
theorem regexSearch_nonempty (start : Nat) :
    regexSearch expression start { prevAvail := start ≠ 0, notNull := true, continuous := true } =
      occursNonemptyAt expression start := rfl

/-- What a turn does at a segment: it evaluates its matches up to one that ends the function, if there is one, and goes
on where the segment ends, if that is in the text. -/
def AtSegment (options : Options) (stateRegex : Option Regex) (contents : Bytes) (scan : Scan)
    (segment : List Match) (next : Nat) (turn : Turn Outcome Unanchored) : Prop :=
  (∃ outcome, turn = .leave outcome ∧ (∃ found ∈ segment, exits options stateRegex contents found = true) ∧
    outcome.evaluated = scan.evaluated ++ throughExit options stateRegex contents segment) ∨
  ((∀ found ∈ segment, exits options stateRegex contents found = false) ∧
    ∃ later : Scan, later.evaluated = scan.evaluated ++ segment ∧
      (turn = .again { start := next, flags := { prevAvail := next ≠ 0 }, scan := later } ∨
        turn = .leave (finish options later) ∧ contents.length < next))

variable (options stateRegex expression start) in
theorem unanchoredTurn_spec (scan : Scan) :
    (unanchoredTurn options stateRegex contents expression { start, flags := { prevAvail := start ≠ 0 }, scan } =
        .leave (finish options scan) ∧ ∀ place, start ≤ place → occursAt expression place = none) ∨
      ∃ segment next, Segment expression start segment next ∧
        AtSegment options stateRegex contents scan segment next
          (unanchoredTurn options stateRegex contents expression
            { start, flags := { prevAvail := start ≠ 0 }, scan }) := by
  have hsearch := regexSearch_first expression start
  revert hsearch
  rw [unanchoredTurn]
  dsimp only
  cases regexSearch expression start { prevAvail := start ≠ 0 } with
  | none => exact fun hnone => .inl ⟨rfl, hnone⟩
  | some found =>
    intro hfirst
    refine .inr ?_
    dsimp only
    cases hexits : exits options stateRegex contents found with
    | true =>
      -- whatever follows, the function ends here
      obtain ⟨result, hresult⟩ := evaluateMatch_of_exits hexits scan
      obtain ⟨rest, next, hsegment⟩ := hfirst.exists_segment
      refine ⟨_, _, hsegment, .inl ⟨_, by rw [hresult], ⟨found, List.mem_cons_self, hexits⟩, ?_⟩⟩
      rw [throughExit, if_pos hexits]
    | false =>
      obtain ⟨later, hlater, hevaluated⟩ := evaluateMatch_of_not_exits hexits scan
      have hnot : ∀ other ∈ [found], exits options stateRegex contents other = false := List.forall_mem_singleton.mpr hexits
      rw [hlater]
      dsimp only
      by_cases hlength : found.length = 0
      · have hend : found.position + found.length = found.position := by omega
        rw [if_neg (not_not.mpr hlength), hend, regexSearch_nonempty]
        by_cases hlast : found.position = contents.length
        · have hnone : occursNonemptyAt expression found.position = none := by
            refine Option.eq_none_iff_forall_ne_some.mpr fun nonempty hnonempty => ?_
            have hplace := occursNonemptyAt_position hnonempty
            omega
          rw [if_pos hlast]
          exact ⟨_, _, .empty hfirst hlength hnone, .inr ⟨hnot, later, hevaluated, .inr ⟨rfl, by omega⟩⟩⟩
        · rw [if_neg hlast]
          cases hnonempty : occursNonemptyAt expression found.position with
          | none =>
            refine ⟨_, _, .empty hfirst hlength hnonempty, .inr ⟨hnot, later, hevaluated, .inl ?_⟩⟩
            have hnext : found.position + 1 ≠ 0 := by omega
            simp only [hnext, ne_eq, not_false_eq_true, decide_true]
          | some nonempty =>
            have hplace := occursNonemptyAt_position hnonempty
            refine ⟨_, _, .both hfirst hlength hnonempty, ?_⟩
            dsimp only
            cases hexits' : exits options stateRegex contents nonempty with
            | true =>
              obtain ⟨result, hresult⟩ := evaluateMatch_of_exits hexits' later
              refine .inl ⟨_, by rw [hresult], ⟨nonempty, by simp, hexits'⟩, ?_⟩
              simp only [throughExit, hexits, hexits', Bool.false_eq_true, if_false, if_true, hevaluated, List.append_assoc,
                List.cons_append, List.nil_append]
            | false =>
              obtain ⟨last, hlast', hevaluated'⟩ := evaluateMatch_of_not_exits hexits' later
              have hboth : ∀ other ∈ [found, nonempty], exits options stateRegex contents other = false :=
                List.forall_mem_cons.mpr ⟨hexits, List.forall_mem_singleton.mpr hexits'⟩
              refine .inr ⟨hboth, last, by rw [hevaluated', hevaluated, List.append_assoc]; rfl, .inl ?_⟩
              have hnext : nonempty.position + nonempty.length ≠ 0 := by omega
              rw [hlast', ← hplace.1]
              simp only [hnext, ne_eq, not_false_eq_true, decide_true]
      · rw [if_pos hlength]
        refine ⟨_, _, .nonempty hfirst hlength, .inr ⟨hnot, later, hevaluated, .inl ?_⟩⟩
        have hnext : found.position + found.length ≠ 0 := by omega
        simp only [hnext, ne_eq, not_false_eq_true, decide_true]

theorem throughExit_of_exits {segment : List Match} (h : ∃ found ∈ segment, exits options stateRegex contents found = true)
    (rest : List Match) :
    throughExit options stateRegex contents (segment ++ rest) = throughExit options stateRegex contents segment := by
  induction segment with
  | nil =>
    obtain ⟨found, hmem, -⟩ := h
    cases hmem
  | cons first segment ih =>
    rw [List.cons_append, throughExit, throughExit]
    split_ifs with hfirst
    · rfl
    · obtain ⟨found, hmem, hexits⟩ := h
      rcases List.mem_cons.mp hmem with rfl | hmem
      · exact absurd hexits hfirst
      · rw [ih ⟨found, hmem, hexits⟩]

variable (options stateRegex expression) in
/-- None of the matches evaluated so far ends the function, and together with those that follow they are all. -/
structure Follows (state : Unanchored) : Prop where
  flags : state.flags = { prevAvail := state.start ≠ 0 }
  goes_on : ∀ found ∈ state.scan.evaluated, exits options stateRegex contents found = false
  all : ∀ rest, Successive expression state.start rest → Successive expression 0 (state.scan.evaluated ++ rest)

variable (options stateRegex expression) in
/-- The matches that follow one another from the start on have been evaluated, up to one that ends the function. -/
def EvaluatesAll (outcome : Outcome) : Prop :=
  ∃ all, Successive expression 0 all ∧ outcome.evaluated = throughExit options stateRegex contents all

theorem Follows.turn {next : Unanchored} (h : Follows options stateRegex expression state)
    (hturn : unanchoredTurn options stateRegex contents expression state = .again next) :
    Follows options stateRegex expression next ∧
      contents.length + 1 - next.start < contents.length + 1 - state.start := by
  obtain ⟨start, flags, scan⟩ := state
  obtain ⟨hflags, hgoes, hall⟩ := h
  have hprev : flags = { prevAvail := start ≠ 0 } := hflags
  clear hflags
  subst hprev
  rcases unanchoredTurn_spec options stateRegex expression start scan with
    ⟨hleave, -⟩ | ⟨segment, after, hsegment, ⟨outcome, hleave, -⟩ | ⟨hnot, later, hevaluated, hagain | ⟨hleave, -⟩⟩⟩
  · cases hleave.symm.trans hturn
  · cases hleave.symm.trans hturn
  · cases hagain.symm.trans hturn
    have hbounds := hsegment.bounds
    refine ⟨⟨rfl, ?_, fun rest hrest => ?_⟩, by dsimp only; omega⟩
    · dsimp only
      rw [hevaluated, List.forall_mem_append]
      exact ⟨hgoes, hnot⟩
    · dsimp only
      rw [hevaluated, List.append_assoc]
      exact hall _ (.segment hsegment hrest)
  · cases hleave.symm.trans hturn

theorem Follows.last {outcome : Outcome} (h : Follows options stateRegex expression state)
    (hturn : unanchoredTurn options stateRegex contents expression state = .leave outcome) :
    EvaluatesAll options stateRegex expression outcome := by
  obtain ⟨start, flags, scan⟩ := state
  obtain ⟨hflags, hgoes, hall⟩ := h
  have hprev : flags = { prevAvail := start ≠ 0 } := hflags
  clear hflags
  subst hprev
  rcases unanchoredTurn_spec options stateRegex expression start scan with
    ⟨hleave, hnone⟩ | ⟨segment, after, hsegment,
      ⟨other, hleave, hexits, hevaluated⟩ | ⟨hnot, later, hevaluated, hagain | ⟨hleave, hend⟩⟩⟩
  · cases hleave.symm.trans hturn
    refine ⟨_, hall [] (.done hnone), ?_⟩
    rw [throughExit_append hgoes, throughExit, List.append_nil]
    rfl
  · cases hleave.symm.trans hturn
    obtain ⟨rest, hrest⟩ := exists_successive expression after
    refine ⟨_, hall _ (.segment hsegment hrest), ?_⟩
    rw [throughExit_append hgoes, throughExit_of_exits hexits, hevaluated]
  · cases hagain.symm.trans hturn
  · cases hleave.symm.trans hturn
    have hrest : Successive expression after [] := .done fun place hle => occursAt_beyond (by omega)
    refine ⟨_, hall _ (.segment hsegment hrest), ?_⟩
    rw [throughExit_append hgoes, throughExit_append hnot, throughExit, List.append_nil]
    exact hevaluated

variable (options stateRegex expression) in
theorem unanchored_evaluates :
    ∃ outcome, Loop.run (unanchoredTurn options stateRegex contents expression) (contents.length + 2) {} = some outcome ∧
      EvaluatesAll options stateRegex expression outcome :=
  run_total (Follows options stateRegex expression) (EvaluatesAll options stateRegex expression)
    (fun state => contents.length + 1 - state.start) (fun _ _ h hturn => h.turn hturn)
    (fun _ _ h hturn => h.last hturn) ⟨rfl, by simp, fun _ hrest => hrest⟩ (Nat.lt_succ_self _)

end Unanchored

section WholeFile

variable {compile : Bytes → Bool → Except Bytes Regex} {matchPattern contents : Bytes} {statePattern : Option Bytes}
  {ignoreCase : Bool × Bool} {options : Options} {matchRegex : Regex} {stateRegex : Option Regex}

/-- The function ends; with an anchored pattern it evaluates matches at line starts alone, and with any other the
matches that follow one another, up to one that ends the function. -/
def RespectsAnchors (compile : Bytes → Bool → Except Bytes Regex) (filename contents matchPattern : Bytes)
    (statePattern : Option Bytes) (ignoreCase : Bool × Bool) (options : Options) (matchRegex : Regex)
    (stateRegex : Option Regex) : Prop :=
  ∃ outcome, multilineMatch (contents.length + 2) compile filename (.ok contents) matchPattern statePattern ignoreCase
      options = some (.ok outcome) ∧
    (matchPattern.head? = some caret → ∀ found ∈ outcome.evaluated, LineStart newline contents found.position) ∧
    (matchPattern.head? ≠ some caret → EvaluatesAll options stateRegex (matchRegex contents) outcome)

/-- Exactly where no match of an anchored pattern ends inside a line where the pattern is found again. -/
theorem respectsAnchors_iff (filename : Bytes) (hwhole : options.wholeFile = true)
    (hmatch : compile matchPattern ignoreCase.1 = .ok matchRegex)
    (hstate : (statePattern.mapM fun pattern => compile pattern ignoreCase.2) = .ok stateRegex) :
    RespectsAnchors compile filename contents matchPattern statePattern ignoreCase options matchRegex stateRegex ↔
      (matchPattern.head? = some caret → KeepsToLines options stateRegex (matchRegex contents)) := by
  have hrun : multilineMatch (contents.length + 2) compile filename (.ok contents) matchPattern statePattern ignoreCase
      options = (wholeFileMatch options stateRegex contents (matchRegex contents) (contents.length + 2)
        matchPattern).map .ok := by
    simp only [multilineMatch, hmatch, hstate, hwhole, if_true]
  rw [RespectsAnchors, hrun, wholeFileMatch]
  by_cases hcaret : matchPattern.head? = some caret
  · obtain ⟨outcome, hanchored⟩ := anchored_terminates options stateRegex (matchRegex contents)
    simp only [hcaret, if_true, hanchored, Option.map_some, Option.some.injEq, Except.ok.injEq, forall_const, ne_eq,
      not_true, false_implies, and_true, exists_eq_left']
    exact ⟨keepsToLines_of_evaluated hanchored, fun hkeeps => evaluated_on_lines hkeeps hanchored⟩
  · obtain ⟨outcome, hunanchored, hall⟩ := unanchored_evaluates options stateRegex (matchRegex contents)
    simp only [hcaret, if_false, hunanchored, Option.map_some, Option.some.injEq, Except.ok.injEq, ne_eq,
      not_false_eq_true, forall_const, false_implies, true_and, exists_eq_left', hall]

/-- The expression `^a`: at the beginning of what it searches, if no byte before is to be looked at. -/
def letterA : Regex := fun text =>
  { matchAt := fun prevAvail _ place =>
      if prevAvail = false ∧ text[place]? = some 0x61 then some { length := 1 } else none
    within := by
      intro prevAvail notNull place found h
      split_ifs at h with hfound
      obtain ⟨hlt, -⟩ := List.getElem?_eq_some_iff.mp hfound.2
      cases h
      exact hlt
    not_null := by
      intro prevAvail place found h
      split_ifs at h
      cases h
      exact Nat.one_ne_zero }

/-- `aa` has a match of `^a` in the middle of its line. -/
theorem not_respectsAnchors_inside :
    ¬ RespectsAnchors (fun _ _ => .ok letterA) [] (utf8 "aa") (utf8 "^a") none (false, false)
      { wholeFile := true, allMatches := true } letterA none := by
  rintro ⟨outcome, hrun, hlines, -⟩
  have hevaluated : multilineMatch 4 (fun _ _ => .ok letterA) [] (.ok (utf8 "aa")) (utf8 "^a") none (false, false)
      { wholeFile := true, allMatches := true } = some (.ok
        { result := { success := true, selected := true },
          evaluated := [{ length := 1, position := 0 }, { length := 1, position := 1 }] }) :=
    rfl
  cases hrun.symm.trans hevaluated
  exact absurd (hlines rfl _ (List.mem_cons_of_mem _ List.mem_cons_self)) (by decide)

/-- In `ab` and `ac`, each on its line, `^a` has its matches where the lines start. -/
theorem respectsAnchors_lines :
    RespectsAnchors (fun _ _ => .ok letterA) [] (utf8 "ab\nac") (utf8 "^a") none (false, false)
      { wholeFile := true, allMatches := true } letterA none ∧
    multilineMatch 7 (fun _ _ => .ok letterA) [] (.ok (utf8 "ab\nac")) (utf8 "^a") none (false, false)
      { wholeFile := true, allMatches := true } = some (.ok
        { result := { success := true, selected := true },
          evaluated := [{ length := 1, position := 0 }, { length := 1, position := 3 }] }) := by
  refine ⟨(respectsAnchors_iff [] rfl rfl rfl).mpr fun _ place found _ hfound _ _ => ?_, rfl⟩
  rcases place with _ | _ | _ | _ | place
  · cases hfound
    rfl
  · cases hfound
  · cases hfound
  · cases hfound
    rfl
  · rcases place with _ | place <;> cases hfound

end WholeFile

end Kompli.FileRegexMatch
