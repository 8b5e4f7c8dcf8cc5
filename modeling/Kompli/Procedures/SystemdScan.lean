import Kompli.Procedures.SystemdReader

/-! What the rewriter of a configuration of systemd knows after some of its lines. -/
namespace Kompli.SystemdConfig
open Parson Ascii Foundation Streams StringTools

section Scan

/-- A line as the rewriter trims it. -/
def trimmed (line : Bytes) : Bytes := trimWhiteSpaces (withoutCarriageReturn line)

/-- What is before the `=`. -/
def keyText (line : Bytes) : Bytes := (withoutCarriageReturn line).takeWhile (· ≠ equals)

/-- Whether the rewriter is in the block after some lines. -/
def inTarget (targetBlock : Bytes) (before : List Bytes) : Bool :=
  before.foldl (fun inside line => if isHeader (trimmed line) then trimmed line = targetBlock else inside) false

/-- The rewriter takes the line for one of the parameter. -/
def Takes (targetBlock parameter : Bytes) (before : List Bytes) (line : Bytes) : Prop :=
  inTarget targetBlock before = true ∧ isHeader (trimmed line) = false ∧ trimmed line ≠ [] ∧
    (trimmed line).head? ≠ some 0x23 ∧ (trimmed line).head? ≠ some 0x3B ∧ equals ∈ withoutCarriageReturn line ∧
      trimWhiteSpaces (keyText line) = parameter

instance (targetBlock parameter : Bytes) (before : List Bytes) (line : Bytes) :
    Decidable (Takes targetBlock parameter before line) :=
  inferInstanceAs (Decidable (_ ∧ _))

/-- The last line that the rewriter takes for one of the parameter, and the lines before it. -/
structure LastTaken (targetBlock parameter : Bytes) (lines before : List Bytes) (line : Bytes) : Prop where
  isPrefix : before ++ [line] <+: lines
  takes : Takes targetBlock parameter before line
  last : ∀ other otherLine, other ++ [otherLine] <+: lines → Takes targetBlock parameter other otherLine →
    other.length ≤ before.length

/-- The lines up to the last end of the block. -/
structure UpToEnd (targetBlock : Bytes) (lines before : List Bytes) : Prop where
  isPrefix : before <+: lines
  inside : inTarget targetBlock before = true
  last : ∀ other, other <+: lines → inTarget targetBlock other = true → other.length ≤ before.length

/-- What is known after some lines. -/
structure Scanned (targetBlock parameter : Bytes) (lines : List Bytes) (scan : Scan) : Prop where
  lineStart : scan.lineStart = (joined lines).length
  inTargetBlock : scan.inTargetBlock = inTarget targetBlock lines
  foundTargetBlock : scan.foundTargetBlock = true ↔ ∃ before, before <+: lines ∧ inTarget targetBlock before = true
  no_replacement : scan.replacement = none →
    ∀ before line, before ++ [line] <+: lines → ¬ Takes targetBlock parameter before line
  replacement : ∀ start stop, scan.replacement = some (start, stop) →
    ∃ before line, LastTaken targetBlock parameter lines before line ∧
      start = (joined before).length + ((keyText line).length + 1) ∧
      stop = (joined before).length + (withoutCarriageReturn line).length
  insertionPosition : scan.foundTargetBlock = true → scan.inTargetBlock = false →
    ∃ before, UpToEnd targetBlock lines before ∧ scan.insertionPosition = some (joined before).length

variable {targetBlock parameter : Bytes} {lines before : List Bytes} {line : Bytes} {scan : Scan}

theorem inTarget_concat (lines : List Bytes) (line : Bytes) :
    inTarget targetBlock (lines ++ [line]) =
      if isHeader (trimmed line) then decide (trimmed line = targetBlock) else inTarget targetBlock lines := by
  rw [inTarget, List.foldl_append, List.foldl_cons, List.foldl_nil, inTarget]

theorem length_joined_concat (lines : List Bytes) (line : Bytes) :
    (joined (lines ++ [line])).length = (joined lines).length + (line.length + 1) := by
  simp [joined]

private theorem concat_prefix_concat {other : List Bytes} {otherLine : Bytes} (h : other ++ [otherLine] <+: lines ++ [line]) :
    (other = lines ∧ otherLine = line) ∨ other ++ [otherLine] <+: lines := by
  rcases List.prefix_concat_iff.mp h with heq | hstarts
  · exact .inl (List.append_singleton_inj.mp heq)
  · exact .inr hstarts

private theorem length_of_concat_prefix {other : List Bytes} {otherLine : Bytes} (h : other ++ [otherLine] <+: lines) :
    other.length + 1 ≤ lines.length := by
  simpa using h.length_le

theorem UpToEnd.concat (h : UpToEnd targetBlock lines before) (hout : inTarget targetBlock (lines ++ [line]) = false) :
    UpToEnd targetBlock (lines ++ [line]) before where
  isPrefix := h.isPrefix.trans (List.prefix_append lines [line])
  inside := h.inside
  last other hother hinside := by
    rcases List.prefix_concat_iff.mp hother with rfl | hstarts
    · rw [hout] at hinside
      cases hinside
    · exact h.last other hstarts hinside

theorem UpToEnd.of_leaves (hinside : inTarget targetBlock lines = true) (hout : inTarget targetBlock (lines ++ [line]) = false) :
    UpToEnd targetBlock (lines ++ [line]) lines where
  isPrefix := List.prefix_append lines [line]
  inside := hinside
  last other hother hinside' := by
    rcases List.prefix_concat_iff.mp hother with rfl | hstarts
    · rw [hout] at hinside'
      cases hinside'
    · exact hstarts.length_le

theorem LastTaken.of_takes (h : Takes targetBlock parameter lines line) : LastTaken targetBlock parameter (lines ++ [line]) lines line where
  isPrefix := List.prefix_rfl
  takes := h
  last other otherLine hother _ := by
    have hlength := length_of_concat_prefix hother
    rw [List.length_append, List.length_singleton] at hlength
    omega

theorem LastTaken.concat {taken : Bytes} (h : LastTaken targetBlock parameter lines before taken)
    (hnot : ¬ Takes targetBlock parameter lines line) : LastTaken targetBlock parameter (lines ++ [line]) before taken where
  isPrefix := h.isPrefix.trans (List.prefix_append lines [line])
  takes := h.takes
  last other otherLine hother htakes := by
    rcases concat_prefix_concat hother with ⟨rfl, rfl⟩ | hstarts
    · exact absurd htakes hnot
    · exact h.last other otherLine hstarts htakes

theorem scanLine_eq (scan : Scan) (line : Bytes) :
    scanLine targetBlock parameter scan line =
      if isHeader (trimmed line) then
        { lineStart := scan.lineStart + (line.length + 1)
          replacement := scan.replacement
          insertionPosition := if scan.inTargetBlock then some scan.lineStart else scan.insertionPosition
          inTargetBlock := trimmed line = targetBlock
          foundTargetBlock := scan.foundTargetBlock || trimmed line = targetBlock }
      else if scan.inTargetBlock ∧ trimmed line ≠ [] ∧ (trimmed line).head? ≠ some 0x23 ∧
          (trimmed line).head? ≠ some 0x3B ∧ equals ∈ withoutCarriageReturn line ∧
          trimWhiteSpaces (keyText line) = parameter then
        { scan with
          lineStart := scan.lineStart + (line.length + 1)
          replacement :=
            some (scan.lineStart + ((keyText line).length + 1), scan.lineStart + (withoutCarriageReturn line).length) }
      else { scan with lineStart := scan.lineStart + (line.length + 1) } := rfl

theorem scanLine_lineStart : (scanLine targetBlock parameter scan line).lineStart = scan.lineStart + (line.length + 1) := by
  rw [scanLine_eq]
  split_ifs <;> rfl

theorem scanLine_inTargetBlock : (scanLine targetBlock parameter scan line).inTargetBlock =
    if isHeader (trimmed line) then decide (trimmed line = targetBlock) else scan.inTargetBlock := by
  rw [scanLine_eq]
  split_ifs <;> rfl

theorem scanLine_foundTargetBlock : (scanLine targetBlock parameter scan line).foundTargetBlock =
    (scan.foundTargetBlock || (isHeader (trimmed line) && decide (trimmed line = targetBlock))) := by
  rw [scanLine_eq]
  split_ifs with hheader htakes <;> simp [hheader]

theorem scanLine_insertionPosition : (scanLine targetBlock parameter scan line).insertionPosition =
    if isHeader (trimmed line) ∧ scan.inTargetBlock then some scan.lineStart else scan.insertionPosition := by
  rw [scanLine_eq]
  split_ifs <;> simp_all

theorem scanLine_replacement (hinside : scan.inTargetBlock = inTarget targetBlock lines) :
    (scanLine targetBlock parameter scan line).replacement =
      if Takes targetBlock parameter lines line then
        some (scan.lineStart + ((keyText line).length + 1), scan.lineStart + (withoutCarriageReturn line).length)
      else scan.replacement := by
  have htakes : Takes targetBlock parameter lines line ↔ isHeader (trimmed line) = false ∧ scan.inTargetBlock ∧
      trimmed line ≠ [] ∧ (trimmed line).head? ≠ some 0x23 ∧ (trimmed line).head? ≠ some 0x3B ∧
      equals ∈ withoutCarriageReturn line ∧ trimWhiteSpaces (keyText line) = parameter := by
    rw [hinside]
    exact and_left_comm
  rw [scanLine_eq]
  by_cases hheader : isHeader (trimmed line) = true
  · have hnot : ¬ Takes targetBlock parameter lines line := by
      rw [htakes, hheader]
      simp
    rw [if_pos hheader, if_neg hnot]
  · rw [if_neg hheader]
    split_ifs with hline hsame hsame
    · rfl
    · exact absurd (htakes.mpr ⟨by simpa using hheader, hline⟩) hsame
    · exact absurd (htakes.mp hsame).2 hline
    · rfl

/-- One line more. -/
theorem Scanned.scanLine (h : Scanned targetBlock parameter lines scan) (line : Bytes) :
    Scanned targetBlock parameter (lines ++ [line]) (scanLine targetBlock parameter scan line) where
  lineStart := by rw [scanLine_lineStart, h.lineStart, length_joined_concat]
  inTargetBlock := by rw [scanLine_inTargetBlock, h.inTargetBlock, inTarget_concat]
  foundTargetBlock := by
    have hopens : (isHeader (trimmed line) && decide (trimmed line = targetBlock)) = true →
        inTarget targetBlock (lines ++ [line]) = true := by
      rw [Bool.and_eq_true, inTarget_concat]
      rintro ⟨hheader, hsame⟩
      rw [if_pos hheader, hsame]
    rw [scanLine_foundTargetBlock, Bool.or_eq_true, h.foundTargetBlock]
    constructor
    · rintro (⟨before, hstarts, hinside⟩ | hheader)
      · exact ⟨before, hstarts.trans (List.prefix_append lines [line]), hinside⟩
      · exact ⟨lines ++ [line], List.prefix_rfl, hopens hheader⟩
    · rintro ⟨before, hstarts, hinside⟩
      rcases List.prefix_concat_iff.mp hstarts with rfl | hstarts'
      · by_cases hheader : isHeader (trimmed line) = true
        · rw [inTarget_concat, if_pos hheader] at hinside
          exact .inr (by rw [hheader, hinside]; rfl)
        · rw [inTarget_concat, if_neg hheader] at hinside
          exact .inl ⟨lines, List.prefix_rfl, hinside⟩
      · exact .inl ⟨before, hstarts', hinside⟩
  no_replacement := by
    rw [scanLine_replacement h.inTargetBlock]
    split_ifs with htakes
    · exact fun hnone => (nomatch hnone)
    · intro hnone before taken hstarts
      rcases concat_prefix_concat hstarts with ⟨rfl, rfl⟩ | hstarts'
      · exact htakes
      · exact h.no_replacement hnone before taken hstarts'
  replacement := by
    rw [scanLine_replacement h.inTargetBlock]
    intro start stop hsome
    split_ifs at hsome with htakes
    · cases hsome
      exact ⟨lines, line, .of_takes htakes, by rw [h.lineStart], by rw [h.lineStart]⟩
    · obtain ⟨before, taken, hlast, hstart, hstop⟩ := h.replacement start stop hsome
      exact ⟨before, taken, hlast.concat htakes, hstart, hstop⟩
  insertionPosition := by
    intro hfound hout
    rw [scanLine_inTargetBlock] at hout
    rw [scanLine_foundTargetBlock] at hfound
    rw [scanLine_insertionPosition]
    have hout' : inTarget targetBlock (lines ++ [line]) = false := by rw [inTarget_concat, ← h.inTargetBlock, hout]
    by_cases hinside : scan.inTargetBlock = true
    · have hheader : isHeader (trimmed line) = true := by
        by_contra hnot
        rw [if_neg hnot, hinside] at hout
        cases hout
      rw [if_pos ⟨hheader, hinside⟩, h.lineStart]
      exact ⟨lines, .of_leaves (h.inTargetBlock ▸ hinside) hout', rfl⟩
    · rw [if_neg (fun hboth => hinside hboth.2)]
      have hfound' : scan.foundTargetBlock = true := by
        rw [Bool.or_eq_true] at hfound
        refine hfound.resolve_right fun hopens => ?_
        rw [Bool.and_eq_true] at hopens
        rw [if_pos hopens.1, hopens.2] at hout
        cases hout
      obtain ⟨before, hlast, hposition⟩ := h.insertionPosition hfound' (by simpa using hinside)
      exact ⟨before, hlast.concat hout', hposition⟩

/-- What is known after all lines. -/
theorem scanned (targetBlock parameter : Bytes) (lines : List Bytes) :
    Scanned targetBlock parameter lines (lines.foldl (scanLine targetBlock parameter) {}) := by
  induction lines using List.reverseRecOn with
  | nil =>
    refine ⟨rfl, rfl, ?_, fun _ before line h => ?_, fun start stop h => (nomatch h), fun h => (nomatch h)⟩
    · constructor
      · intro h
        cases h
      · rintro ⟨before, hstarts, hinside⟩
        rw [List.prefix_nil.mp hstarts] at hinside
        cases hinside
    · have hlength := length_of_concat_prefix h
      simp at hlength
  | append_singleton lines line ih =>
    rw [List.foldl_append, List.foldl_cons, List.foldl_nil]
    exact ih.scanLine line

end Scan

end Kompli.SystemdConfig
