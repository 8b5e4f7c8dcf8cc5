import Kompli.Foundation.Lines
import Kompli.Foundation.MapEntries
import Kompli.Procedures.FilesystemMountOption
import Mathlib.Data.List.Forall2

/-! The lines of a table of file systems: which of them are counted, and where the reader does not end. -/
namespace Kompli.FilesystemMountOption
open Foundation Streams

section Counting

/-- The entries, with the numbers of the lines that they stand on. -/
def entriesFrom : Nat → List Bytes → List (Nat × Mntent)
  | _, [] => []
  | n, line :: rest =>
    match entryOfLine line with
    | some mnt => (n, mnt) :: entriesFrom (n + 1) rest
    | none => entriesFrom (n + 1) rest

def physicalEntries (contents : Bytes) : List (Nat × Mntent) := entriesFrom 1 (lines contents)

/-- A blank or a comment that does not start the line: the loop leaves it to `getmntent`, which does not count. -/
structure Slips (line : Bytes) : Prop where
  no_entry : entryOfLine line = none
  ne_nil : line ≠ []
  no_hash : line.head? ≠ some hash

instance (line : Bytes) : Decidable (Slips line) :=
  decidable_of_iff (entryOfLine line = none ∧ line ≠ [] ∧ line.head? ≠ some hash)
    ⟨fun h => ⟨h.1, h.2.1, h.2.2⟩, fun h => ⟨h.no_entry, h.ne_nil, h.no_hash⟩⟩

/-- Whether `getmntent` goes on after a line. -/
def goesOn (inside : Bool) (line : Bytes) : Bool := (entryOfLine line).isNone && (inside || decide (Slips line))

/-- The entries with the numbers that they get; `n` lines have been counted, and `inside` of `getmntent` none is. -/
def countedFrom : Nat → Bool → List Bytes → List (Nat × Mntent)
  | _, _, [] => []
  | n, inside, line :: rest =>
    let n := if inside then n else n + 1
    match entryOfLine line with
    | some mnt => (n, mnt) :: countedFrom n false rest
    | none => countedFrom n (goesOn inside line) rest

variable {n k : Nat} {inside : Bool}

/-- The same entry, with a smaller number. -/
def Behind (counted physical : Nat × Mntent) : Prop := counted.2 = physical.2 ∧ counted.1 < physical.1

theorem countedFrom_behind (ls : List Bytes) (h : (if inside then n else n + 1) < k) :
    List.Forall₂ Behind (countedFrom n inside ls) (entriesFrom k ls) := by
  induction ls generalizing n k inside with
  | nil => exact .nil
  | cons line rest ih =>
    rw [countedFrom, entriesFrom]
    cases entryOfLine line with
    | some mnt => exact .cons ⟨rfl, h⟩ (ih (by simpa using h))
    | none =>
      refine ih ?_
      split_ifs at h ⊢ <;> omega

/-- From a line on that slips the numbers are behind. -/
theorem countedFrom_slip {slip : Bytes} (hslip : Slips slip) (front back : List Bytes)
    (h : (if inside then n else n + 1) ≤ k) :
    ∃ counted behind physical k', countedFrom n inside (front ++ slip :: back) = counted ++ behind ∧
      entriesFrom k (front ++ slip :: back) = physical ++ entriesFrom k' back ∧
      List.Forall₂ Behind behind (entriesFrom k' back) := by
  induction front generalizing n k inside with
  | nil =>
    have hgoes : goesOn inside slip = true := by simp [goesOn, hslip.no_entry, hslip]
    refine ⟨[], countedFrom (if inside then n else n + 1) true back, [], k + 1, ?_, ?_, ?_⟩
    · simp [countedFrom, hslip.no_entry, hgoes]
    · simp [entriesFrom, hslip.no_entry]
    · refine countedFrom_behind back ?_
      simp only [if_true]
      omega
  | cons line front ih =>
    rw [List.cons_append, countedFrom, entriesFrom]
    cases entryOfLine line with
    | some mnt =>
      obtain ⟨counted, behind, physical, k', hcounted, hphysical, hbehind⟩ :=
        @ih (if inside then n else n + 1) (k + 1) false (by simpa using h)
      exact ⟨_ :: counted, behind, _ :: physical, k', congrArg _ hcounted, congrArg _ hphysical, hbehind⟩
    | none =>
      refine ih ?_
      split_ifs at h ⊢ <;> omega

/-- No line that slips comes before an entry. -/
def InStep (ls : List Bytes) : Prop :=
  ∀ front slip back, ls = front ++ slip :: back → Slips slip → ∀ line ∈ back, entryOfLine line = none

theorem InStep.tail {line : Bytes} {rest : List Bytes} (h : InStep (line :: rest)) : InStep rest := by
  intro front slip back hrest
  refine h (line :: front) slip back ?_
  rw [hrest]
  rfl

private theorem countedFrom_no_entry {ls : List Bytes} (h : ∀ line ∈ ls, entryOfLine line = none) :
    countedFrom n inside ls = [] ∧ entriesFrom k ls = [] := by
  induction ls generalizing n k inside with
  | nil => exact ⟨rfl, rfl⟩
  | cons line rest ih =>
    rw [List.forall_mem_cons] at h
    rw [countedFrom, entriesFrom, h.1]
    exact ih h.2

theorem countedFrom_of_inStep {ls : List Bytes} (h : InStep ls) : countedFrom n false ls = entriesFrom (n + 1) ls := by
  induction ls generalizing n with
  | nil => rfl
  | cons line rest ih =>
    by_cases hslip : Slips line
    · have hnone := h [] line rest rfl hslip
      obtain ⟨hcounted, hentries⟩ := @countedFrom_no_entry (n + 1) (n + 1 + 1) true rest hnone
      rw [countedFrom, entriesFrom, hslip.no_entry]
      simp only [goesOn, hslip.no_entry, hslip, hentries]
      simpa using hcounted
    · rw [countedFrom, entriesFrom]
      have hgoes : goesOn false line = false := by simp [goesOn, hslip]
      cases entryOfLine line with
      | some mnt => exact congrArg _ (ih h.tail)
      | none =>
        dsimp only
        rw [hgoes]
        exact ih h.tail

theorem entriesFrom_ge {ls : List Bytes} : ∀ x ∈ entriesFrom k ls, k ≤ x.1 := by
  induction ls generalizing k with
  | nil =>
    intro x hx
    cases hx
  | cons line rest ih =>
    intro x hx
    rw [entriesFrom] at hx
    cases hentry : entryOfLine line with
    | some mnt =>
      rw [hentry] at hx
      rcases List.mem_cons.mp hx with rfl | hx
      · exact le_rfl
      · exact (Nat.le_succ k).trans (ih x hx)
    | none =>
      rw [hentry] at hx
      exact (Nat.le_succ k).trans (ih x hx)

theorem entriesFrom_increasing (ls : List Bytes) : (entriesFrom k ls).Pairwise fun x y => x.1 < y.1 := by
  induction ls generalizing k with
  | nil => exact .nil
  | cons line rest ih =>
    rw [entriesFrom]
    cases entryOfLine line with
    | some mnt => exact List.pairwise_cons.mpr ⟨fun y hy => entriesFrom_ge y hy, ih⟩
    | none => exact ih

end Counting

section Reading

variable {line rest : Bytes}

theorem readEntry_line (h : newline ∉ line) (start rest : Bytes) :
    readEntry start (line ++ newline :: rest) =
      match entryOfLine (start.reverse ++ line) with
      | some mnt => (some mnt, { rest })
      | none => readEntry [] rest := by
  induction line generalizing start with
  | nil =>
    cases h : entryOfLine start.reverse <;> simp [readEntry, h]
  | cons c line ih =>
    rw [List.mem_cons, not_or] at h
    rw [List.cons_append, readEntry, if_neg (Ne.symm h.1), ih h.2]
    simp only [List.reverse_cons, List.append_assoc, List.singleton_append]

theorem readEntry_last (h : newline ∉ line) (start : Bytes) :
    readEntry start line = (entryOfLine (start.reverse ++ line), { rest := [], eof := true }) := by
  induction line generalizing start with
  | nil => rw [readEntry, List.append_nil]
  | cons c line ih =>
    rw [List.mem_cons, not_or] at h
    rw [readEntry, if_neg (Ne.symm h.1), ih h.2, List.reverse_cons, List.append_assoc, List.singleton_append]

theorem skipComment_newline (fuel : Nat) (rest : Bytes) : skipComment (fuel + 1) newline rest = some rest := by
  cases rest <;> rw [skipComment, if_pos rfl]

theorem skipComment_line {b : UInt8} (hb : b ≠ newline) (h : newline ∉ line) {fuel : Nat} (hfuel : line.length + 1 < fuel) :
    skipComment fuel b (line ++ newline :: rest) = some rest := by
  induction line generalizing b fuel with
  | nil =>
    obtain ⟨fuel, rfl⟩ : ∃ k, fuel = k + 2 := ⟨fuel - 2, by simp only [List.length_nil] at hfuel; omega⟩
    rw [List.nil_append, skipComment, if_neg hb]
    exact skipComment_newline fuel rest
  | cons c line ih =>
    rw [List.mem_cons, not_or] at h
    rw [List.length_cons] at hfuel
    obtain ⟨fuel, rfl⟩ : ∃ k, fuel = k + 1 := ⟨fuel - 1, by omega⟩
    rw [List.cons_append, skipComment, if_neg hb]
    exact ih (Ne.symm h.1) h.2 (by omega)

/-- At the end of the file there is nothing that would end the loop. -/
theorem skipComment_last {b : UInt8} (hb : b ≠ newline) (h : newline ∉ line) (fuel : Nat) :
    skipComment fuel b line = none := by
  induction fuel generalizing b line with
  | zero => rfl
  | succ fuel ih =>
    cases line with
    | nil =>
      rw [skipComment, if_neg hb]
      exact ih hb h
    | cons c line =>
      rw [List.mem_cons, not_or] at h
      rw [skipComment, if_neg hb]
      exact ih (Ne.symm h.1) h.2

/-- What the loop does with what `getmntent` gives; `n` lines have been counted with this one. -/
def afterEntry (fuel : Nat) (n : Nat) (fstabMap : ByteMap FstabEntry) : Option Mntent × File → Option (ByteMap FstabEntry)
  | (none, file) => parseLoop fuel (Int32.ofNat n) fstabMap file
  | (some mnt, file) =>
    parseLoop fuel (Int32.ofNat n) (fstabMap.insert mnt.dir (fstabEntry mnt (Int32.ofNat n))) file

/-- The loop, or what is left of its step while `getmntent` goes on. -/
def resume (fuel : Nat) (n : Nat) (inside : Bool) (fstabMap : ByteMap FstabEntry) (rest : Bytes) :
    Option (ByteMap FstabEntry) :=
  if inside then afterEntry fuel n fstabMap (readEntry [] rest)
  else parseLoop fuel (Int32.ofNat n) fstabMap { rest }

def insertEntries (fstabMap : ByteMap FstabEntry) (entries : List (Nat × Mntent)) : ByteMap FstabEntry :=
  entries.foldl (fun fstabMap x => fstabMap.insert x.2.dir (fstabEntry x.2 (Int32.ofNat x.1))) fstabMap

/-- The last line is a comment without an end, and it is not left to `getmntent`. -/
def Stuck (inside : Bool) (contents : Bytes) : Prop :=
  ∃ before comment, lines contents = before ++ [comment] ∧ comment.head? = some hash ∧
    contents.getLast? ≠ some newline ∧ before.foldl goesOn inside = false

private theorem lines_ne_nil {s : Bytes} (h : s ≠ []) : lines s ≠ [] := by
  cases s with
  | nil => exact absurd rfl h
  | cons c s =>
    rw [lines]
    split_ifs
    · simp
    · split <;> simp

theorem stuck_cons (h : newline ∉ line) (inside : Bool) :
    Stuck inside (line ++ newline :: rest) ↔ Stuck (goesOn inside line) rest := by
  rw [Stuck, Stuck, lines_append h]
  by_cases hrest : rest = []
  · subst hrest
    constructor
    · rintro ⟨_, _, _, _, hlast, _⟩
      exact absurd (by simp) hlast
    · rintro ⟨before, comment, hlines, _⟩
      exact absurd hlines (by simp [lines])
  · have hlast : (line ++ newline :: rest).getLast? = rest.getLast? := by
      rw [List.getLast?_append_of_ne_nil _ (List.cons_ne_nil _ _), List.getLast?_cons_of_ne_nil hrest]
    rw [hlast]
    constructor
    · rintro ⟨before, comment, hlines, hcomment, hend, hinside⟩
      cases before with
      | nil =>
        have hnil : lines rest = [] := (List.cons.inj hlines).2
        exact absurd hnil (lines_ne_nil hrest)
      | cons first before =>
        obtain ⟨rfl, htail⟩ := List.cons.inj hlines
        exact ⟨before, comment, htail, hcomment, hend, hinside⟩
    · rintro ⟨before, comment, hlines, hcomment, hend, hinside⟩
      exact ⟨line :: before, comment, by rw [hlines]; rfl, hcomment, hend, hinside⟩

theorem stuck_last (h : newline ∉ line) (inside : Bool) :
    Stuck inside line ↔ line.head? = some hash ∧ inside = false := by
  by_cases hne : line = []
  · subst hne
    constructor
    · rintro ⟨before, comment, hlines, _⟩
      exact absurd hlines (by simp [lines])
    · rintro ⟨hhead, -⟩
      cases hhead
  · have hend : line.getLast? ≠ some newline := fun hlast => h (List.mem_of_getLast? hlast)
    rw [Stuck, lines_of_not_mem h hne]
    constructor
    · rintro ⟨before, comment, hlines, hcomment, -, hinside⟩
      obtain ⟨rfl, rfl⟩ : before = [] ∧ line = comment := by
        cases before with
        | nil => exact ⟨rfl, (List.cons.inj hlines).1⟩
        | cons first before => exact absurd (List.cons.inj hlines).2.symm (by simp)
      exact ⟨hcomment, hinside⟩
    · rintro ⟨hhead, hinside⟩
      exact ⟨[], line, rfl, hhead, hend, hinside⟩

theorem entryOfLine_hash (s : Bytes) : entryOfLine (hash :: s) = none := by
  have hhead : (cString (hash :: s)).dropWhile isBlank = hash :: cString s := by
    rw [cString, List.takeWhile_cons_of_pos (by decide), List.dropWhile_cons_of_neg (by decide), cString]
  simp only [entryOfLine, hhead, List.head?_cons, or_true, if_true]

/-- A line where the loop does not ask `getmntent`. -/
theorem goesOn_false (hnone : entryOfLine line = none) : goesOn false line = true ↔ line ≠ [] ∧ line.head? ≠ some hash := by
  simp only [goesOn, hnone, Option.isNone_none, Bool.true_and, Bool.false_or, decide_eq_true_eq]
  exact ⟨fun h => ⟨h.ne_nil, h.no_hash⟩, fun h => ⟨hnone, h.1, h.2⟩⟩

theorem ofNat_succ (n : Nat) : Int32.ofNat n + 1 = Int32.ofNat (n + 1) := (Int32.ofNat_add n 1).symm

/-- What one line that ends does to the loop. -/
theorem resume_line (h : newline ∉ line) {fuel : Nat} (hfuel : line.length + 1 < fuel) (n : Nat) (inside : Bool)
    (fstabMap : ByteMap FstabEntry) :
    resume (if inside then fuel else fuel + 1) n inside fstabMap (line ++ newline :: rest) =
      let n := if inside then n else n + 1
      match entryOfLine line with
      | some mnt => resume fuel n false (fstabMap.insert mnt.dir (fstabEntry mnt (Int32.ofNat n))) rest
      | none => resume fuel n (goesOn inside line) fstabMap rest := by
  cases inside with
  | true =>
    simp only [if_true, resume]
    rw [readEntry_line h, List.reverse_nil, List.nil_append]
    cases hentry : entryOfLine line with
    | some mnt => rfl
    | none =>
      have hgoes : goesOn true line = true := by simp [goesOn, hentry]
      simp [hgoes, afterEntry]
  | false =>
    simp only [Bool.false_eq_true, if_false]
    rw [resume, if_neg (by simp)]
    cases line with
    | nil =>
      obtain ⟨fuel, rfl⟩ : ∃ k, fuel = k + 1 := ⟨fuel - 1, by omega⟩
      have hgoes : goesOn false [] = false := rfl
      have hnone : entryOfLine [] = none := rfl
      simp only [parseLoop, List.nil_append, or_true, if_true, skipComment_newline, hnone, hgoes, resume, ofNat_succ,
        Bool.false_eq_true, if_false]
    | cons b line =>
      rw [List.mem_cons, not_or] at h
      have hb : b ≠ newline := Ne.symm h.1
      by_cases hhash : b = hash
      · subst hhash
        have hskip := @skipComment_line line rest hash (by decide) h.2 fuel (by rw [List.length_cons] at hfuel; omega)
        have hgoes : goesOn false (hash :: line) = false := by
          rw [Bool.eq_false_iff]
          exact fun hgoes => ((goesOn_false (entryOfLine_hash line)).mp hgoes).2 rfl
        simp only [parseLoop, List.cons_append, true_or, if_true, hskip, entryOfLine_hash, hgoes, resume, ofNat_succ,
          Bool.false_eq_true, if_false]
      · have hread := @readEntry_line (b :: line) (by rw [List.mem_cons, not_or]; exact h) [] rest
        rw [List.reverse_nil, List.nil_append] at hread
        simp only [parseLoop, List.cons_append, hhash, hb, or_self, if_false, Bool.false_eq_true, getmntent, ofNat_succ]
        rw [List.cons_append] at hread
        rw [hread]
        cases hentry : entryOfLine (b :: line) with
        | some mnt => simp [resume]
        | none =>
          have hgoes : goesOn false (b :: line) = true :=
            (goesOn_false hentry).mpr ⟨List.cons_ne_nil b line, by simpa using hhash⟩
          simp only [hgoes, resume, if_true]
          rcases readEntry [] rest with ⟨_ | mnt, file⟩ <;> rfl

private theorem afterEntry_eof (fuel n : Nat) (fstabMap : ByteMap FstabEntry) (mnt : Option Mntent) :
    afterEntry (fuel + 1) n fstabMap (mnt, { rest := [], eof := true }) =
      some (insertEntries fstabMap (mnt.toList.map fun mnt => (n, mnt))) := by
  cases mnt <;> simp [afterEntry, parseLoop, insertEntries]

private theorem countedFrom_singleton (n : Nat) (inside : Bool) (line : Bytes) :
    countedFrom n inside [line] = (entryOfLine line).toList.map fun mnt => (if inside then n else n + 1, mnt) := by
  rw [countedFrom]
  cases entryOfLine line <;> rfl

/-- What the loop does with a last line that does not end. -/
theorem resume_last (h : newline ∉ line) (fuel n : Nat) (inside : Bool) (fstabMap : ByteMap FstabEntry) :
    (line.head? = some hash ∧ inside = false → resume (fuel + 2) n inside fstabMap line = none) ∧
      (¬ (line.head? = some hash ∧ inside = false) → resume (fuel + 2) n inside fstabMap line =
        some (insertEntries fstabMap (countedFrom n inside (lines line)))) := by
  cases line with
  | nil =>
    have hnone : entryOfLine [] = none := rfl
    refine ⟨fun hhash => (nomatch hhash.1), fun _ => ?_⟩
    cases inside with
    | true =>
      rw [resume, if_pos rfl, readEntry, List.reverse_nil, hnone, afterEntry_eof]
      rfl
    | false => rfl
  | cons b line =>
    have hread : readEntry [] (b :: line) = (entryOfLine (b :: line), { rest := [], eof := true }) :=
      readEntry_last h []
    rw [lines_of_not_mem h (List.cons_ne_nil b line), countedFrom_singleton]
    cases inside with
    | true =>
      refine ⟨fun hhash => (nomatch hhash.2), fun _ => ?_⟩
      rw [resume, if_pos rfl, hread, afterEntry_eof]
      rfl
    | false =>
      rw [List.mem_cons, not_or] at h
      have hb : b ≠ newline := Ne.symm h.1
      rw [resume, if_neg (by simp)]
      constructor
      · rintro ⟨hhash, -⟩
        obtain rfl : b = hash := Option.some.inj hhash
        simp only [parseLoop, true_or, if_true, skipComment_last hb h.2, Bool.false_eq_true, if_false]
      · intro hhash
        have hb' : b ≠ hash := fun hb' => hhash ⟨by rw [hb']; rfl, rfl⟩
        have hlast := afterEntry_eof fuel (n + 1) fstabMap (entryOfLine (b :: line))
        simp only [parseLoop, hb, hb', or_self, if_false, Bool.false_eq_true, getmntent, hread]
        rw [ofNat_succ, ← hlast]
        cases entryOfLine (b :: line) <;> rfl

/-- What the loop makes of a text, line by line, once it has been given time. -/
theorem resume_spec (contents : Bytes) (n : Nat) (inside : Bool) (fstabMap : ByteMap FstabEntry) :
    ∃ bound, ∀ fuel, bound ≤ fuel →
      (Stuck inside contents → resume fuel n inside fstabMap contents = none) ∧
        (¬ Stuck inside contents → resume fuel n inside fstabMap contents =
          some (insertEntries fstabMap (countedFrom n inside (lines contents)))) := by
  induction contents using lines_induction newline generalizing n inside fstabMap with
  | last line hline =>
    refine ⟨2, fun fuel hfuel => ?_⟩
    obtain ⟨fuel, rfl⟩ : ∃ k, fuel = k + 2 := ⟨fuel - 2, by omega⟩
    rw [stuck_last hline]
    exact resume_last hline fuel n inside fstabMap
  | cons line rest hline ih =>
    let n' := if inside then n else n + 1
    have hcounted : countedFrom n inside (lines (line ++ newline :: rest)) =
        match entryOfLine line with
        | some mnt => (n', mnt) :: countedFrom n' false (lines rest)
        | none => countedFrom n' (goesOn inside line) (lines rest) := by
      rw [lines_append hline, countedFrom]
    rw [stuck_cons hline, hcounted]
    have hgoes {mnt : Mntent} (hentry : entryOfLine line = some mnt) : goesOn inside line = false := by
      simp [goesOn, hentry]
    -- the state after the line, and a bound for what follows
    obtain ⟨bound, hbound⟩ :
        ∃ bound, ∀ fuel, bound ≤ fuel → line.length + 1 < fuel →
          (Stuck (goesOn inside line) rest →
            resume (if inside then fuel else fuel + 1) n inside fstabMap (line ++ newline :: rest) = none) ∧
          (¬ Stuck (goesOn inside line) rest →
            resume (if inside then fuel else fuel + 1) n inside fstabMap (line ++ newline :: rest) =
              some (insertEntries fstabMap (match entryOfLine line with
                | some mnt => (n', mnt) :: countedFrom n' false (lines rest)
                | none => countedFrom n' (goesOn inside line) (lines rest)))) := by
      cases hentry : entryOfLine line with
      | some mnt =>
        obtain ⟨bound, hbound⟩ := ih n' false (fstabMap.insert mnt.dir (fstabEntry mnt (Int32.ofNat n')))
        refine ⟨bound, fun fuel hfuel hlength => ?_⟩
        rw [resume_line hline hlength, hgoes hentry]
        simp only [hentry]
        exact hbound fuel hfuel
      | none =>
        obtain ⟨bound, hbound⟩ := ih n' (goesOn inside line) fstabMap
        refine ⟨bound, fun fuel hfuel hlength => ?_⟩
        rw [resume_line hline hlength]
        simp only [hentry]
        exact hbound fuel hfuel
    refine ⟨bound + line.length + 3, fun fuel hfuel => ?_⟩
    cases inside with
    | true => exact hbound fuel (by omega) (by omega)
    | false =>
      obtain ⟨fuel, rfl⟩ : ∃ k, fuel = k + 1 := ⟨fuel - 1, by omega⟩
      exact hbound fuel (by omega) (by omega)

/-- More time does not change what has been returned. -/
theorem skipComment_mono {fuel : Nat} {b : UInt8} {read : Bytes} (h : skipComment fuel b rest = some read) :
    skipComment (fuel + 1) b rest = some read := by
  induction fuel generalizing b rest with
  | zero => cases h
  | succ fuel ih =>
    by_cases hb : b = newline
    · subst hb
      rw [skipComment_newline] at h ⊢
      exact h
    · cases rest with
      | nil =>
        rw [skipComment, if_neg hb] at h ⊢
        exact ih h
      | cons c rest =>
        rw [skipComment, if_neg hb] at h ⊢
        exact ih h

theorem parseLoop_mono {fuel : Nat} {lineno : Int32} {fstabMap read : ByteMap FstabEntry} {file : File}
    (h : parseLoop fuel lineno fstabMap file = some read) : parseLoop (fuel + 1) lineno fstabMap file = some read := by
  induction fuel generalizing lineno fstabMap file with
  | zero => cases h
  | succ fuel ih =>
    obtain ⟨text, eof⟩ := file
    rw [parseLoop] at h ⊢
    cases eof with
    | true => exact h
    | false =>
      simp only [Bool.false_eq_true, if_false] at h ⊢
      cases text with
      | nil => exact h
      | cons b text =>
        dsimp only at h ⊢
        split_ifs at h ⊢ with hb
        · cases hskip : skipComment fuel b text with
          | none =>
            rw [hskip] at h
            cases h
          | some rest =>
            rw [hskip] at h
            rw [skipComment_mono hskip]
            exact ih h
        · generalize getmntent (b :: text) = read at h ⊢
          rcases read with ⟨_ | mnt, file⟩
          · exact ih h
          · exact ih h

end Reading

section Fstab

/-- The entry that a mount point has is that of the last line that names it, and this is the number of the line. -/
def StandsOn (contents dir : Bytes) (entry : FstabEntry) : Prop :=
  ∃ before after, ∃ number : Nat, ∃ mnt, physicalEntries contents = before ++ (number, mnt) :: after ∧
    mnt.dir = dir ∧ (∀ x ∈ after, x.2.dir ≠ dir) ∧ entry = fstabEntry mnt entry.lineno ∧ entry.lineno.toInt = number

/-- All entries are on lines that an `int` can number. -/
def Numbered (contents : Bytes) : Prop := ∀ x ∈ physicalEntries contents, x.1 < 2 ^ 31

variable {contents : Bytes}

theorem parseFstab_some_iff {fstabMap : ByteMap FstabEntry} :
    (∃ fuel, parseFstab fuel contents = some fstabMap) ↔
      ¬ Stuck false contents ∧ fstabMap = insertEntries ∅ (countedFrom 0 false (lines contents)) := by
  obtain ⟨bound, hbound⟩ := resume_spec contents 0 false ∅
  have hresume (fuel : Nat) : parseFstab fuel contents = resume fuel 0 false ∅ contents := rfl
  have hmono {fuel : Nat} (h : parseFstab fuel contents = some fstabMap) (more : Nat) :
      parseFstab (fuel + more) contents = some fstabMap := by
    induction more with
    | zero => exact h
    | succ more ih => exact parseLoop_mono ih
  constructor
  · rintro ⟨fuel, h⟩
    obtain ⟨hstuck, hends⟩ := hbound (fuel + bound) (by omega)
    have hmore := hmono h bound
    rw [hresume] at hmore
    have hnot : ¬ Stuck false contents := by
      intro hs
      rw [hstuck hs] at hmore
      cases hmore
    rw [hends hnot] at hmore
    exact ⟨hnot, (Option.some.inj hmore).symm⟩
  · rintro ⟨hnot, rfl⟩
    exact ⟨bound, (hbound bound le_rfl).2 hnot⟩

private theorem forall₂_find {R : Nat × Mntent → Nat × Mntent → Prop} (hR : ∀ x y, R x y → x.2 = y.2) {dir : Bytes}
    {xs ys : List (Nat × Mntent)} (h : List.Forall₂ R xs ys) {y : Nat × Mntent}
    (hy : ys.find? (fun y => y.2.dir = dir) = some y) : ∃ x, xs.find? (fun x => x.2.dir = dir) = some x ∧ R x y := by
  induction h with
  | nil => cases hy
  | @cons x y' xs ys hxy _ ih =>
    by_cases hdir : y'.2.dir = dir
    · rw [List.find?_cons_of_pos (by simpa using hdir)] at hy
      cases hy
      exact ⟨x, List.find?_cons_of_pos (by simpa [hR x y hxy] using hdir), hxy⟩
    · rw [List.find?_cons_of_neg (by simpa using hdir)] at hy
      rw [List.find?_cons_of_neg (by simpa [hR x y' hxy] using hdir)]
      exact ih hy

/-- What a mount point has in the map is of its last entry. -/
theorem getElem?_insertEntries (entries : List (Nat × Mntent)) (dir : Bytes) :
    (insertEntries ∅ entries)[dir]? =
      (entries.reverse.find? fun x => x.2.dir = dir).map fun x => fstabEntry x.2 (Int32.ofNat x.1) := by
  have h := @getElem?_foldl_insert_last Bytes FstabEntry (Nat × Mntent) compare _ _ _ (fun x => x.2.dir)
    (fun x => fstabEntry x.2 (Int32.ofNat x.1)) entries ∅ dir
  rw [Std.ExtTreeMap.getElem?_empty, Option.or_none] at h
  exact h

theorem find_reverse_iff {entries : List (Nat × Mntent)} {dir : Bytes} {x : Nat × Mntent} :
    (entries.reverse.find? fun x => x.2.dir = dir) = some x ↔
      ∃ before after, entries = before ++ x :: after ∧ x.2.dir = dir ∧ ∀ y ∈ after, y.2.dir ≠ dir := by
  rw [List.find?_eq_some_iff_append]
  constructor
  · rintro ⟨hdir, after, before, hentries, hafter⟩
    refine ⟨before.reverse, after.reverse, ?_, by simpa using hdir, fun y hy => ?_⟩
    · rw [← List.reverse_reverse entries, hentries]
      simp
    · simpa using hafter y (List.mem_reverse.mp hy)
  · rintro ⟨before, after, rfl, hdir, hafter⟩
    refine ⟨by simpa using hdir, after.reverse, before.reverse, by simp, fun y hy => ?_⟩
    simpa using hafter y (List.mem_reverse.mp hy)

/-- A mount point is on the line that it is said to be on where the code's numbers are those of the lines. -/
theorem standsOn_iff {dir : Bytes} {entry : FstabEntry} : StandsOn contents dir entry ↔
    ∃ x, ((physicalEntries contents).reverse.find? fun x => x.2.dir = dir) = some x ∧
      entry = fstabEntry x.2 entry.lineno ∧ entry.lineno.toInt = x.1 := by
  constructor
  · rintro ⟨before, after, number, mnt, hentries, hdir, hafter, hentry, hnumber⟩
    exact ⟨(number, mnt), find_reverse_iff.mpr ⟨before, after, hentries, hdir, hafter⟩, hentry, hnumber⟩
  · rintro ⟨⟨number, mnt⟩, hfind, hentry, hnumber⟩
    obtain ⟨before, after, hentries, hdir, hafter⟩ := find_reverse_iff.mp hfind
    exact ⟨before, after, number, mnt, hentries, hdir, hafter, hentry, hnumber⟩

private theorem exists_entry {line : Bytes} {mnt : Mntent} (hentry : entryOfLine line = some mnt) {ls : List Bytes}
    (hline : line ∈ ls) (k : Nat) : ∃ number, (number, mnt) ∈ entriesFrom k ls := by
  induction ls generalizing k with
  | nil => cases hline
  | cons first rest ih =>
    rw [entriesFrom]
    rcases List.mem_cons.mp hline with rfl | hline
    · exact ⟨k, by rw [hentry]; exact List.mem_cons_self⟩
    · obtain ⟨number, hnumber⟩ := ih hline (k + 1)
      cases entryOfLine first with
      | some other => exact ⟨number, List.mem_cons_of_mem _ hnumber⟩
      | none => exact ⟨number, hnumber⟩

private theorem toInt_ofNat_le (n : Nat) : (Int32.ofNat n).toInt ≤ n := by
  have hsize : ((Int32.size : Nat) : Int) = 4294967296 := rfl
  rw [Int32.toInt_ofNat', Int.bmod, hsize]
  split_ifs <;> omega

/-- An entry after a line that slips gets a number that is too small. -/
theorem inStep_of_standsOn
    (h : ∀ dir entry, (insertEntries ∅ (countedFrom 0 false (lines contents)))[dir]? = some entry →
      StandsOn contents dir entry) : InStep (lines contents) := by
  intro front slip back hlines hslip line hline
  rw [Option.eq_none_iff_forall_ne_some]
  intro mnt hentry
  obtain ⟨counted, behind, physical, k, hcounted, hphysical, hbehind⟩ :=
    @countedFrom_slip 0 1 false slip hslip front back (by simp)
  rw [← hlines] at hcounted hphysical
  obtain ⟨number, hnumber⟩ := exists_entry hentry hline k
  -- the last entry of the mount point comes after the line, in the file and in the code's list
  obtain ⟨y, hy⟩ : ∃ y, ((entriesFrom k back).reverse.find? fun y => y.2.dir = mnt.dir) = some y := by
    rw [← Option.isSome_iff_exists, List.find?_isSome]
    exact ⟨(number, mnt), List.mem_reverse.mpr hnumber, by simp⟩
  obtain ⟨x, hx, hxy⟩ := forall₂_find (fun x y hxy => hxy.1) (List.forall₂_reverse_iff.mpr hbehind) hy
  have hget := getElem?_insertEntries (countedFrom 0 false (lines contents)) mnt.dir
  rw [hcounted, List.reverse_append, List.find?_append, hx, Option.some_or, Option.map_some, ← hcounted] at hget
  obtain ⟨z, hz, -, hlineno⟩ := standsOn_iff.mp (h _ _ hget)
  rw [physicalEntries, hphysical, List.reverse_append, List.find?_append, hy, Option.some_or] at hz
  cases hz
  have hle := toInt_ofNat_le x.1
  have hlt := hxy.2
  have hlineno' : (Int32.ofNat x.1).toInt = y.1 := hlineno
  omega

theorem numbered_of_standsOn (hstep : InStep (lines contents))
    (h : ∀ dir entry, (insertEntries ∅ (countedFrom 0 false (lines contents)))[dir]? = some entry →
      StandsOn contents dir entry) : Numbered contents := by
  intro x hx
  rw [countedFrom_of_inStep hstep, ← physicalEntries] at h
  obtain ⟨z, hz⟩ : ∃ z, ((physicalEntries contents).reverse.find? fun z => z.2.dir = x.2.dir) = some z := by
    rw [← Option.isSome_iff_exists, List.find?_isSome]
    exact ⟨x, List.mem_reverse.mpr hx, by simp⟩
  have hget := getElem?_insertEntries (physicalEntries contents) x.2.dir
  rw [hz, Option.map_some] at hget
  obtain ⟨z', hz', -, hlineno⟩ := standsOn_iff.mp (h _ _ hget)
  obtain rfl : z = z' := Option.some.inj (hz.symm.trans hz')
  have hlt := (Int32.ofNat z.1).toInt_lt
  have hlineno' : (Int32.ofNat z.1).toInt = z.1 := hlineno
  obtain ⟨before, after, hentries, -, hafter⟩ := find_reverse_iff.mp hz
  have hle : x.1 ≤ z.1 := by
    have hincreasing := @entriesFrom_increasing 1 (lines contents)
    rw [← physicalEntries, hentries, List.pairwise_append] at hincreasing
    rw [hentries, List.mem_append, List.mem_cons] at hx
    rcases hx with hbefore | rfl | hx
    · exact (hincreasing.2.2 x hbefore z List.mem_cons_self).le
    · exact le_rfl
    · exact absurd rfl (hafter x hx)
  omega

/-- The last line is a comment without an end, and between it and the last entry no line slips. -/
def EndsInComment (contents : Bytes) : Prop :=
  ∃ before comment, lines contents = before ++ [comment] ∧ comment.head? = some hash ∧
    contents.getLast? ≠ some newline ∧
    ∀ front slip back, before = front ++ slip :: back → Slips slip → ∃ line ∈ back, entryOfLine line ≠ none

private theorem foldl_goesOn (ls : List Bytes) (inside : Bool) :
    ls.foldl goesOn inside = true ↔
      (inside = true ∧ ∀ line ∈ ls, entryOfLine line = none) ∨
        ∃ front slip back, ls = front ++ slip :: back ∧ Slips slip ∧ ∀ line ∈ back, entryOfLine line = none := by
  induction ls generalizing inside with
  | nil => simp
  | cons line rest ih =>
    rw [List.foldl_cons, ih]
    constructor
    · rintro (⟨hgoes, hrest⟩ | ⟨front, slip, back, rfl, hslip, hback⟩)
      · rw [goesOn, Bool.and_eq_true, Bool.or_eq_true, Option.isNone_iff_eq_none, decide_eq_true_eq] at hgoes
        rcases hgoes with ⟨hnone, hinside | hslip⟩
        · exact .inl ⟨hinside, List.forall_mem_cons.mpr ⟨hnone, hrest⟩⟩
        · exact .inr ⟨[], line, rest, rfl, hslip, hrest⟩
      · exact .inr ⟨line :: front, slip, back, rfl, hslip, hback⟩
    · rintro (⟨rfl, hall⟩ | ⟨front, slip, back, hsplit, hslip, hback⟩)
      · rw [List.forall_mem_cons] at hall
        exact .inl ⟨by simp [goesOn, hall.1], hall.2⟩
      · cases front with
        | nil =>
          obtain ⟨rfl, rfl⟩ := List.cons.inj hsplit
          exact .inl ⟨by simp [goesOn, hslip.no_entry, hslip], hback⟩
        | cons first front =>
          obtain ⟨rfl, rfl⟩ := List.cons.inj hsplit
          exact .inr ⟨front, slip, back, rfl, hslip, hback⟩

theorem stuck_iff : Stuck false contents ↔ EndsInComment contents := by
  have hfold (before : List Bytes) : before.foldl goesOn false = false ↔
      ∀ front slip back, before = front ++ slip :: back → Slips slip → ∃ line ∈ back, entryOfLine line ≠ none := by
    rw [← Bool.not_eq_true, foldl_goesOn]
    constructor
    · intro h front slip back hbefore hslip
      by_contra hback
      refine h (.inr ⟨front, slip, back, hbefore, hslip, fun line hline => ?_⟩)
      by_contra hentry
      exact hback ⟨line, hline, hentry⟩
    · rintro h (⟨hfalse, -⟩ | ⟨front, slip, back, hbefore, hslip, hback⟩)
      · cases hfalse
      · obtain ⟨line, hline, hentry⟩ := h front slip back hbefore hslip
        exact hentry (hback line hline)
  simp only [Stuck, EndsInComment, hfold]

/-- The reader ends and numbers the mount points rightly just where the file does not end in such a comment, no line
that slips comes before an entry, and there are not too many lines. -/
theorem parseFstab_counts_iff (contents : Bytes) :
    (∃ fuel fstabMap, parseFstab fuel contents = some fstabMap ∧
      ∀ dir entry, fstabMap[dir]? = some entry → StandsOn contents dir entry) ↔
      ¬ EndsInComment contents ∧ InStep (lines contents) ∧ Numbered contents := by
  rw [← stuck_iff]
  constructor
  · rintro ⟨fuel, fstabMap, hparse, hstands⟩
    obtain ⟨hstuck, rfl⟩ := parseFstab_some_iff.mp ⟨fuel, hparse⟩
    have hstep := inStep_of_standsOn hstands
    exact ⟨hstuck, hstep, numbered_of_standsOn hstep hstands⟩
  · rintro ⟨hstuck, hstep, hnumbered⟩
    obtain ⟨fuel, hparse⟩ := parseFstab_some_iff.mpr ⟨hstuck, rfl⟩
    refine ⟨fuel, _, hparse, fun dir entry hentry => ?_⟩
    rw [countedFrom_of_inStep hstep, ← physicalEntries, getElem?_insertEntries, Option.map_eq_some_iff] at hentry
    obtain ⟨x, hfind, rfl⟩ := hentry
    have hmem := List.mem_reverse.mp (List.mem_of_find?_eq_some hfind)
    exact standsOn_iff.mpr ⟨x, hfind, rfl, Int32.toInt_ofNat_of_lt (hnumbered x hmem)⟩

/-- A comment at the end keeps the reader busy, and a comment after a blank is not counted. -/
theorem comments_disturb :
    (∀ fuel, parseFstab fuel (utf8 "# the end") = none) ∧
      ((parseFstab 10 (utf8 " # the root\n/dev/sda1 / ext4 rw 0 1\n")).map fun fstabMap =>
        fstabMap[utf8 "/"]?.map fun entry => entry.lineno) = some (some 1) ∧
      (physicalEntries (utf8 " # the root\n/dev/sda1 / ext4 rw 0 1\n")).map Prod.fst = [2] := by
  refine ⟨fun fuel => ?_, by decide +kernel, by decide +kernel⟩
  have hskip : ∀ fuel, skipComment fuel hash (utf8 " the end") = none := skipComment_last (by decide) (by decide +kernel)
  cases fuel with
  | zero => rfl
  | succ fuel =>
    have hhash : utf8 "# the end" = hash :: utf8 " the end" := by decide +kernel
    rw [parseFstab, hhash, parseLoop]
    simp [hskip]

end Fstab

end Kompli.FilesystemMountOption
