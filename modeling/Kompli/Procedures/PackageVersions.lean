import Kompli.Foundation.DebianVersion
import Kompli.Foundation.Split
import Kompli.Procedures.PackageInstalled

/-! Where the comparison of package versions agrees with the order of Debian's. -/
namespace Kompli.PackageInstalled
open Parson Ascii Foundation
open DebianVersion (Run runs Proper missing tilde isLetter weight compareText compareRun compareMissing compareRuns
  Version)

section Pieces

/-- What is left of a text without digits once the separators at its front are skipped. -/
def letters (text : Bytes) : Bytes := text.dropWhile (isAlnum · = false)

def pieces (run : Run) : List Bytes :=
  (if letters run.text = [] then [] else [letters run.text]) ++ if run.digits = [] then [] else [run.digits]

private theorem runs_digit_text {c : UInt8} {rest : Bytes} (h : isDigit c = true) :
    ∃ digits others, runs (c :: rest) = ⟨[], digits⟩ :: others := by
  have h' : DebianVersion.isDigit c = true := h
  rw [runs, if_pos h']
  rcases runs rest with _ | ⟨⟨_ | ⟨d, text⟩, digits⟩, others⟩
  · exact ⟨_, _, rfl⟩
  · exact ⟨_, _, rfl⟩
  · exact ⟨_, _, rfl⟩

private theorem runs_digits {digits rest : Bytes} (h : ∀ c ∈ digits, isDigit c = true) (hne : digits ≠ [])
    (hrest : ∀ c ∈ rest.head?, isDigit c = false) : runs (digits ++ rest) = ⟨[], digits⟩ :: runs rest :=
  DebianVersion.runs_digits_append h hne hrest

private theorem runs_text {text : Bytes} (h : ∀ c ∈ text, isDigit c = false) (hne : text ≠ []) (rest : Bytes) :
    runs (text ++ rest) = match runs rest with
      | [] => [⟨text, []⟩]
      | run :: runs => ⟨text ++ run.text, run.digits⟩ :: runs :=
  DebianVersion.runs_text_append h hne rest

private theorem dropWhile_head {p : UInt8 → Bool} (s : Bytes) : ∀ c ∈ (s.dropWhile p).head?, p c = false := by
  intro c hc
  have h := List.head?_dropWhile_not p s
  rw [Option.mem_def.mp hc] at h
  exact h

/-- The code's runs are those of the texts and of the numbers, without the separators in front of the letters. -/
theorem split_eq (ver : Bytes) : split ver = (runs ver).flatMap pieces := by
  induction ver using split.induct with
  | case1 => rw [split]; rfl
  | case2 c cs hc ih =>
    have hdigit : DebianVersion.isDigit c = false := by
      rw [isAlnum, Bool.or_eq_false_iff] at hc
      exact hc.2
    rw [split, if_pos hc, ih, runs, hdigit, if_neg (by simp)]
    rcases runs cs with _ | ⟨⟨text, digits⟩, rest⟩
    · simp [DebianVersion.consText, pieces, letters, hc]
    · simp [DebianVersion.consText, pieces, letters, hc]
  | case3 c cs hc hdigit ih =>
    have hsplit : c :: cs = (c :: cs.takeWhile isDigit) ++ cs.dropWhile isDigit := by
      rw [List.cons_append, List.takeWhile_append_dropWhile]
    have hall : ∀ d ∈ c :: cs.takeWhile isDigit, isDigit d = true :=
      List.forall_mem_cons.mpr ⟨hdigit, fun d hd => List.mem_takeWhile_imp hd⟩
    rw [split, if_neg hc, if_pos hdigit, ih]
    conv_rhs => rw [hsplit, runs_digits hall (by simp) (dropWhile_head cs)]
    rfl
  | case4 c cs hc hdigit ih =>
    rw [Bool.not_eq_true] at hdigit
    have hsplit : c :: cs = (c :: cs.takeWhile (! isDigit ·)) ++ cs.dropWhile (! isDigit ·) := by
      rw [List.cons_append, List.takeWhile_append_dropWhile]
    have hall : ∀ d ∈ c :: cs.takeWhile (! isDigit ·), isDigit d = false :=
      List.forall_mem_cons.mpr ⟨hdigit, fun d hd => by simpa using List.mem_takeWhile_imp hd⟩
    have hletters : letters (c :: cs.takeWhile (! isDigit ·)) = c :: cs.takeWhile (! isDigit ·) := by
      rw [letters, List.dropWhile_cons_of_neg (by simpa using hc)]
    rw [split, if_neg hc, if_neg (by simp [hdigit]), ih]
    conv_rhs => rw [hsplit, runs_text hall (by simp)]
    rcases hrest : cs.dropWhile (! isDigit ·) with _ | ⟨d, rest⟩
    · simp [runs, pieces, hletters]
    · have hd : isDigit d = true := by
        have hhead := @dropWhile_head (! isDigit ·) cs d (by rw [hrest]; rfl)
        simpa using hhead
      obtain ⟨digits, others, hruns⟩ := @runs_digit_text d rest hd
      have hnil : letters [] = [] := rfl
      rw [hruns]
      simp [pieces, hletters, hnil]

end Pieces

section Numbers
open Decimal

theorem digits_of {part : Bytes} (h : ∀ c ∈ part, isDigit c = true) : Digits part := by
  intro c hc
  simpa [isDigit, zero, nine] using h c hc

private theorem value_dropWhile {part : Bytes} : value (part.dropWhile (· = zero)) = value part := by
  induction part with
  | nil => rfl
  | cons c part ih =>
    by_cases hc : c = zero
    · subst hc
      rw [List.dropWhile_cons_of_pos (by simp), ih]
      rfl
    · rw [List.dropWhile_cons_of_neg (by simpa using hc)]

private theorem value_eq_zero {part : Bytes} (h : ∀ c ∈ part, c = zero) : value part = 0 := by
  rw [← value_dropWhile, List.dropWhile_eq_nil_iff.mpr (by simpa using h)]
  rfl

/-- The zeros that do not count are stripped. -/
theorem stripZeroes_spec {part : Bytes} (h : Digits part) (hne : part ≠ []) :
    Canonical (stripZeroes part) ∧ value (stripZeroes part) = value part := by
  rw [stripZeroes]
  split_ifs with hall
  · rw [List.all_eq_true] at hall
    have hzeros : ∀ c ∈ part, c = zero := fun c hc => by simpa using hall c hc
    have hlength : (part.drop (part.length - 1)).length = 1 := by
      have := List.length_pos_iff.mpr hne
      rw [List.length_drop]
      omega
    have hdrop : ∀ c ∈ part.drop (part.length - 1), c = zero := fun c hc => hzeros c (List.mem_of_mem_drop hc)
    refine ⟨⟨fun c hc => h c (List.mem_of_mem_drop hc), ?_, .inl hlength⟩, ?_⟩
    · exact List.ne_nil_of_length_pos (by omega)
    · rw [value_eq_zero hdrop, value_eq_zero hzeros]
  · refine ⟨⟨fun c hc => h c (List.dropWhile_suffix _ |>.subset hc), ?_, .inr ?_⟩, value_dropWhile⟩
    · rw [ne_eq, List.dropWhile_eq_nil_iff]
      simpa using hall
    · intro hhead
      have hc := dropWhile_head part _ hhead
      simp [zero] at hc

theorem stripZeroes_length_le (part : Bytes) : (stripZeroes part).length ≤ part.length := by
  rw [stripZeroes]
  split_ifs
  · simp
  · exact List.length_dropWhile_le _ _

theorem sizeDifference_short {part other : Bytes} (h : part.length < 2 ^ 31) (h' : other.length < 2 ^ 31) :
    sizeDifference (stripZeroes part).length (stripZeroes other).length =
      ((stripZeroes part).length : Int) - (stripZeroes other).length := by
  have hle := stripZeroes_length_le part
  have hle' := stripZeroes_length_le other
  exact Int.bmod_eq_of_le (by omega) (by omega)

private theorem compareNumbers_eq {part other : Bytes} (h : Digits part) (hne : part ≠ []) (h' : Digits other)
    (hne' : other ≠ []) (hshort : part.length < 2 ^ 31) (hshort' : other.length < 2 ^ 31) :
    compareNumbers part other = compare (value part) (value other) := by
  obtain ⟨hcanonical, hvalue⟩ := stripZeroes_spec h hne
  obtain ⟨hcanonical', hvalue'⟩ := stripZeroes_spec h' hne'
  have hsize := sizeDifference_short hshort hshort'
  rw [← hvalue, ← hvalue', ← compare_canonical hcanonical hcanonical', compareNumbers, hsize]
  rcases lt_trichotomy (stripZeroes part).length (stripZeroes other).length with hlt | heq | hgt
  · rw [compare_lt_iff_lt.mpr hlt, if_pos (by omega)]
    rfl
  · rw [compare_eq_iff_eq.mpr heq, if_neg (by omega), if_neg (by omega)]
    rfl
  · rw [compare_gt_iff_gt.mpr hgt, if_neg (by omega), if_pos (by omega)]
    rfl

end Numbers

section Agreement
open Decimal

/-- What is seen first of a run. -/
inductive Seen where
  | ends
  | letters (text : Bytes)
  | number

def seen (run : Run) : Seen :=
  if letters run.text ≠ [] then .letters (letters run.text) else if run.digits ≠ [] then .number else .ends

/-- The end comes before letters, and letters before a number. -/
def Seen.Before : Seen → Seen → Prop
  | .ends, .letters _ => True
  | .ends, .number => True
  | .letters text, .letters other => Ord.compare text other = .lt
  | .letters _, .number => True
  | _, _ => False

/-- Where two texts part after a letter of theirs, no letter is met by a separator, and a tilde is not reached. -/
def PartAfterLetter : Bytes → Bytes → Prop
  | [], _ => True
  | c :: _, [] => c ≠ tilde
  | c :: text, d :: other =>
    if c = d then PartAfterLetter text other else c ≠ tilde ∧ (isLetter c = true → isLetter d = true)

/-- Where two texts part among the separators in front, a letter is met by a letter, or by separators up to a number, or
one version ends and the other one goes on with more than separators. -/
def PartInFront (digits others : Bytes) : Bytes → Bytes → Prop
  | [], other => digits = [] ∧ ((∃ c ∈ other, isLetter c = true) ∨ others ≠ [])
  | c :: _, [] => c ≠ tilde
  | c :: text, d :: other =>
    if c = d then if isLetter c then PartAfterLetter text other else PartInFront digits others text other
    else isLetter c = true ∧ (isLetter d = true ∨ (∀ e ∈ d :: other, isLetter e = false) ∧ others ≠ [])

/-- The first run of two versions where the comparisons cannot part, or where what follows decides. -/
def AlikeRun (run other : Run) (next : Prop) : Prop :=
  if run.text = other.text then
    value run.digits ≠ value other.digits ∨ run.digits = [] ∧ other.digits ≠ [] ∨
      (run.digits = [] ↔ other.digits = []) ∧ next
  else PartInFront run.digits other.digits run.text other.text

def AlikeMissing : List Run → Prop
  | [] => True
  | other :: others => AlikeRun missing other (AlikeMissing others)

def Alike : List Run → List Run → Prop
  | [], others => AlikeMissing others
  | run :: rest, others => AlikeRun run (others.headD missing) (Alike rest others.tail)

instance decidablePartAfterLetter : DecidableRel PartAfterLetter
  | [], _ => .isTrue trivial
  | c :: _, [] => inferInstanceAs (Decidable (c ≠ tilde))
  | c :: text, d :: other =>
    have := decidablePartAfterLetter text other
    inferInstanceAs (Decidable (if c = d then PartAfterLetter text other else
      c ≠ tilde ∧ (isLetter c = true → isLetter d = true)))

instance decidablePartInFront (digits others : Bytes) : DecidableRel (PartInFront digits others)
  | [], other => inferInstanceAs (Decidable (digits = [] ∧ ((∃ c ∈ other, isLetter c = true) ∨ others ≠ [])))
  | c :: _, [] => inferInstanceAs (Decidable (c ≠ tilde))
  | c :: text, d :: other =>
    have := decidablePartInFront digits others text other
    inferInstanceAs (Decidable (if c = d then
        if isLetter c then PartAfterLetter text other else PartInFront digits others text other
      else isLetter c = true ∧ (isLetter d = true ∨ (∀ e ∈ d :: other, isLetter e = false) ∧ others ≠ [])))

instance (run other : Run) (next : Prop) [Decidable next] : Decidable (AlikeRun run other next) := by
  unfold AlikeRun
  infer_instance

instance decidableAlikeMissing : ∀ others, Decidable (AlikeMissing others)
  | [] => .isTrue trivial
  | other :: others =>
    have := decidableAlikeMissing others
    inferInstanceAs (Decidable (AlikeRun missing other (AlikeMissing others)))

instance decidableAlike : ∀ rs ss, Decidable (Alike rs ss)
  | [], others => decidableAlikeMissing others
  | run :: rest, others =>
    have := decidableAlike rest others.tail
    inferInstanceAs (Decidable (AlikeRun run (others.headD missing) (Alike rest others.tail)))

/-- A run of digits that fits the sizes the code compares. -/
structure Plain (run : Run) : Prop where
  text : ∀ c ∈ run.text, isDigit c = false
  digits : ∀ c ∈ run.digits, isDigit c = true
  short : run.digits.length < 2 ^ 31

/-- An earlier version is seen as an earlier one, and of equal ones the first is not seen as the later one. -/
def Follows (order ofCode : Ordering) : Prop := (order = .lt → ofCode = .lt) ∧ (order = .eq → ofCode ≠ .gt)

private theorem follows_lt (order : Ordering) : Follows order .lt :=
  ⟨fun _ => rfl, fun _ h => (nomatch h)⟩

private theorem follows_gt (ofCode : Ordering) : Follows .gt ofCode :=
  ⟨fun h => (nomatch h), fun h => (nomatch h)⟩

private theorem startsWithDigit_letters {text : Bytes} (h : ∀ c ∈ text, isDigit c = false) :
    startsWithDigit (letters text) = false := by
  rw [startsWithDigit, letters]
  cases hhead : (text.dropWhile (isAlnum · = false)).head? with
  | none => rfl
  | some c => exact h c (List.dropWhile_suffix _ |>.subset (List.mem_of_mem_head? hhead))

theorem startsWithDigit_digits {digits : Bytes} (h : ∀ c ∈ digits, isDigit c = true) (hne : digits ≠ []) :
    startsWithDigit digits = true := by
  obtain ⟨c, rest, rfl⟩ := List.exists_cons_of_ne_nil hne
  exact h c List.mem_cons_self

private theorem comparePart_letters {text other : Bytes} (h : ∀ c ∈ text, isDigit c = false)
    (h' : ∀ c ∈ other, isDigit c = false) :
    comparePart (letters text) (letters other) = Ord.compare (letters text) (letters other) := by
  rw [comparePart, startsWithDigit_letters h, startsWithDigit_letters h']
  rfl

private theorem comparePart_digits {run other : Run} (h : Plain run) (hne : run.digits ≠ []) (h' : Plain other)
    (hne' : other.digits ≠ []) :
    comparePart run.digits other.digits = Ord.compare (value run.digits) (value other.digits) := by
  rw [comparePart, startsWithDigit_digits h.digits hne, startsWithDigit_digits h'.digits hne']
  exact compareNumbers_eq (digits_of h.digits) hne (digits_of h'.digits) hne' h.short h'.short

private theorem isAlnum_of_text {c : UInt8} (h : isDigit c = false) : isAlnum c = isLetter c := by
  rw [isAlnum, h, Bool.or_false]
  rfl

private theorem letters_cons {c : UInt8} {text : Bytes} (h : isDigit c = false) :
    letters (c :: text) = if isLetter c then c :: text else letters text := by
  rw [letters, List.dropWhile_cons, isAlnum_of_text h]
  cases isLetter c <;> rfl

private theorem letters_eq_nil_iff {text : Bytes} (h : ∀ c ∈ text, isDigit c = false) :
    letters text = [] ↔ ∀ c ∈ text, isLetter c = false := by
  rw [letters, List.dropWhile_eq_nil_iff]
  refine forall₂_congr fun c hc => ?_
  rw [decide_eq_true_eq, isAlnum_of_text (h c hc)]

/-- Bytes of one class are sorted by their values. -/
private theorem lt_of_weight_lt {c d : UInt8} (h : weight c < weight d) (htilde : c ≠ tilde)
    (hletter : isLetter c = true → isLetter d = true) : Ord.compare c d = .lt := by
  rw [Std.compare_eq_lt, UInt8.lt_iff_toNat_lt]
  have hd := d.toNat_lt
  simp only [weight, if_neg htilde] at h
  split_ifs at h with h₁ h₂ h₃ h₄ <;> first | omega | exact absurd (hletter h₁) h₃

private theorem eq_tilde_of_weight_lt {c : UInt8} (h : weight c < 0) : c = tilde := by
  by_contra hne
  rw [weight, if_neg hne] at h
  split_ifs at h <;> omega

/-- Debian's order of two texts is that of the bytes at which they part. -/
private theorem weight_lt_of_ne {c d : UInt8} {text other : Bytes} (h : compareText (c :: text) (d :: other) = .lt)
    (hne : c ≠ d) : weight c < weight d := by
  rw [compareText, Ordering.then_eq_lt, compare_lt_iff_lt, compare_eq_iff_eq] at h
  exact h.resolve_right fun hand => hne (DebianVersion.weight_injective hand.1)

private theorem compareText_cons (c : UInt8) (text other : Bytes) :
    compareText (c :: text) (c :: other) = compareText text other := by
  rw [compareText, compare_eq_iff_eq.mpr rfl, Ordering.eq_then]

private theorem compare_cons (c d : UInt8) (text other : Bytes) :
    Ord.compare (c :: text) (d :: other) = (Ord.compare c d).then (Ord.compare text other) :=
  List.compareLex_cons_cons

/-- Letters that Debian has before others are a text before the other one. -/
private theorem compare_lt_of_partAfterLetter {text other : Bytes} (hlt : compareText text other = .lt)
    (halike : PartAfterLetter text other) : Ord.compare text other = .lt := by
  induction text generalizing other with
  | nil =>
    cases other with
    | nil => cases hlt
    | cons d other => rfl
  | cons c text ih =>
    cases other with
    | nil =>
      rw [compareText, compare_lt_iff_lt] at hlt
      exact absurd (eq_tilde_of_weight_lt hlt) halike
    | cons d other =>
      rw [PartAfterLetter] at halike
      rw [compare_cons]
      split_ifs at halike with heq
      · subst heq
        rw [compareText_cons] at hlt
        rw [Std.ReflOrd.compare_self, Ordering.eq_then]
        exact ih hlt halike
      · rw [lt_of_weight_lt (weight_lt_of_ne hlt heq) halike.1 halike.2]
        rfl

private theorem letters_ne_nil {text : Bytes} (h : ∀ c ∈ text, isDigit c = false)
    (hletter : ∃ c ∈ text, isLetter c = true) : letters text ≠ [] := by
  rw [ne_eq, letters_eq_nil_iff h]
  intro hnone
  obtain ⟨c, hc, hletter⟩ := hletter
  rw [hnone c hc] at hletter
  cases hletter

private theorem seen_cons_letter {c : UInt8} {text : Bytes} (h : isDigit c = false) (hletter : isLetter c = true)
    (digits : Bytes) : seen ⟨c :: text, digits⟩ = .letters (c :: text) := by
  rw [seen, letters_cons h, if_pos hletter, if_pos (List.cons_ne_nil c text)]

private theorem seen_cons_separator {c : UInt8} {text : Bytes} (h : isDigit c = false) (hletter : ¬ isLetter c = true)
    (digits : Bytes) : seen ⟨c :: text, digits⟩ = seen ⟨text, digits⟩ := by
  rw [seen, letters_cons h, if_neg hletter, seen]

/-- Where the texts part and Debian has the first one before, it is seen before the other one. -/
private theorem before_of_partInFront {digits others text other : Bytes} (h : ∀ c ∈ text, isDigit c = false)
    (h' : ∀ c ∈ other, isDigit c = false) (hlt : compareText text other = .lt)
    (halike : PartInFront digits others text other) : (seen ⟨text, digits⟩).Before (seen ⟨other, others⟩) := by
  induction text generalizing other with
  | nil =>
    obtain ⟨rfl, hmore⟩ := halike
    have hends : seen ⟨[], []⟩ = .ends := rfl
    rw [hends, seen]
    split_ifs with hletters hnumber
    · trivial
    · trivial
    · exact hmore.elim (fun hletter => absurd (letters_ne_nil h' hletter) hletters) hnumber
  | cons c text ih =>
    cases other with
    | nil =>
      rw [compareText, compare_lt_iff_lt] at hlt
      exact absurd (eq_tilde_of_weight_lt hlt) halike
    | cons d other =>
      rw [PartInFront] at halike
      have hc : isDigit c = false := h c List.mem_cons_self
      have hd : isDigit d = false := h' d List.mem_cons_self
      split_ifs at halike with heq hletter
      · subst heq
        rw [compareText_cons] at hlt
        rw [seen_cons_letter hc hletter, seen_cons_letter hc hletter]
        have hrest := compare_lt_of_partAfterLetter hlt halike
        rw [Seen.Before, compare_cons, Std.ReflOrd.compare_self, Ordering.eq_then, hrest]
      · subst heq
        rw [compareText_cons] at hlt
        rw [seen_cons_separator hc hletter, seen_cons_separator hc hletter]
        exact ih (fun e he => h e (List.mem_cons_of_mem c he)) (fun e he => h' e (List.mem_cons_of_mem c he)) hlt halike
      · obtain ⟨hletter, hletter' | ⟨hseparators, hnumber⟩⟩ := halike
        · have htilde : c ≠ tilde := by
            rintro rfl
            exact absurd hletter (by decide)
          rw [seen_cons_letter hc hletter, seen_cons_letter hd hletter', Seen.Before, compare_cons,
            lt_of_weight_lt (weight_lt_of_ne hlt heq) htilde (fun _ => hletter')]
          rfl
        · have hnone : letters (d :: other) = [] := (letters_eq_nil_iff h').mpr hseparators
          have hseen : seen ⟨d :: other, others⟩ = .number := by
            rw [seen, hnone, if_neg (by simp), if_pos hnumber]
          rw [seen_cons_letter hc hletter, hseen]
          trivial

/-- What comes before the rest is seen first. -/
private theorem compareLists_before {run other : Run} (h : Plain run) (h' : Plain other)
    (hbefore : (seen run).Before (seen other)) {parts others : List Bytes} (hlast : run.digits = [] → parts = []) :
    compareLists (pieces run ++ parts) (pieces other ++ others) = .lt := by
  rw [pieces, pieces]
  simp only [seen, ne_eq, ite_not] at hbefore
  by_cases hletters : letters run.text = []
  · rw [if_pos hletters] at hbefore ⊢
    by_cases hdigits : run.digits = []
    · rw [if_pos hdigits] at hbefore ⊢
      rw [hlast hdigits]
      by_cases hletters' : letters other.text = []
      · rw [if_pos hletters'] at hbefore ⊢
        by_cases hdigits' : other.digits = []
        · rw [if_pos hdigits'] at hbefore
          exact absurd hbefore id
        · rw [if_neg hdigits']
          rfl
      · rw [if_neg hletters']
        rfl
    · -- a number comes before nothing
      rw [if_neg hdigits] at hbefore
      split at hbefore
      · split at hbefore <;> exact absurd hbefore id
      · exact absurd hbefore id
  · rw [if_neg hletters] at hbefore ⊢
    by_cases hletters' : letters other.text = []
    · rw [if_pos hletters'] at hbefore ⊢
      by_cases hdigits' : other.digits = []
      · rw [if_pos hdigits'] at hbefore
        exact absurd hbefore id
      · rw [if_neg hdigits']
        simp only [List.cons_append, List.nil_append, compareLists, comparePart, startsWithDigit_letters h.text,
          startsWithDigit_digits h'.digits hdigits']
        rfl
    · rw [if_neg hletters'] at hbefore ⊢
      simp only [List.cons_append, List.nil_append, compareLists, comparePart_letters h.text h'.text]
      rw [show Ord.compare (letters run.text) (letters other.text) = .lt from hbefore]
      rfl

private theorem compareLists_text {text : Bytes} (h : ∀ c ∈ text, isDigit c = false) (left right : List Bytes) :
    compareLists ((if letters text = [] then [] else [letters text]) ++ left)
      ((if letters text = [] then [] else [letters text]) ++ right) = compareLists left right := by
  split_ifs
  · rfl
  · simp only [List.cons_append, List.nil_append, compareLists, comparePart_letters h h]
    rw [show Ord.compare (letters text) (letters text) = .eq from Std.ReflCmp.compare_self]
    rfl

/-- After the same text the numbers decide, and what follows where they are the same. -/
private theorem compareLists_same {run other : Run} (h : Plain run) (h' : Plain other) (htext : run.text = other.text)
    (hnext : value run.digits ≠ value other.digits ∨ (run.digits = [] ↔ other.digits = []))
    {parts others : List Bytes} (hlast : run.digits = [] → parts = []) (hlast' : other.digits = [] → others = []) :
    compareLists (pieces run ++ parts) (pieces other ++ others) =
      (Ord.compare (value run.digits) (value other.digits)).then (compareLists parts others) := by
  rw [pieces, pieces, ← htext, List.append_assoc, List.append_assoc, compareLists_text h.text]
  by_cases hdigits : run.digits = []
  · rw [if_pos hdigits, hlast hdigits]
    by_cases hdigits' : other.digits = []
    · rw [if_pos hdigits', hlast' hdigits', hdigits, hdigits']
      rfl
    · have hpos : 0 < value other.digits := Nat.pos_of_ne_zero fun hzero => by
        rcases hnext with hne | hiff
        · exact hne (by rw [hdigits, hzero]; rfl)
        · exact hdigits' (hiff.mp hdigits)
      rw [if_neg hdigits', hdigits, compare_lt_iff_lt.mpr (show value [] < value other.digits from hpos)]
      rfl
  · rw [if_neg hdigits]
    by_cases hdigits' : other.digits = []
    · have hpos : 0 < value run.digits := Nat.pos_of_ne_zero fun hzero => by
        rcases hnext with hne | hiff
        · exact hne (by rw [hdigits', hzero]; rfl)
        · exact hdigits (hiff.mpr hdigits')
      rw [if_pos hdigits', hlast' hdigits', hdigits', compare_gt_iff_gt.mpr (show value [] < value run.digits from hpos)]
      rfl
    · rw [if_neg hdigits']
      simp only [List.cons_append, List.nil_append, compareLists, comparePart_digits h hdigits h' hdigits']

private theorem follows_run {run other : Run} (h : Plain run) (h' : Plain other) {parts others : List Bytes}
    (hlast : run.digits = [] → parts = []) (hlast' : other.digits = [] → others = []) {next : Prop} {order : Ordering}
    (halike : AlikeRun run other next) (hnext : next → Follows order (compareLists parts others)) :
    Follows ((compareRun run other).then order)
      (compareLists (pieces run ++ parts) (pieces other ++ others)) := by
  rw [AlikeRun] at halike
  split_ifs at halike with htext
  · rw [compareRun, DebianVersion.compareText_eq_iff.mpr htext, Ordering.eq_then]
    rcases halike with hne | ⟨hmissing, hpresent⟩ | ⟨hiff, halike⟩
    · rw [compareLists_same h h' htext (.inl hne) hlast hlast']
      rcases lt_or_gt_of_ne hne with hlt | hgt
      · rw [compare_lt_iff_lt.mpr hlt]
        exact follows_lt _
      · rw [compare_gt_iff_gt.mpr hgt]
        exact follows_gt _
    · have hbefore : compareLists (pieces run ++ parts) (pieces other ++ others) = .lt := by
        rw [pieces, pieces, ← htext, List.append_assoc, List.append_assoc, compareLists_text h.text, if_pos hmissing,
          if_neg hpresent, hlast hmissing]
        rfl
      rw [hbefore]
      exact follows_lt _
    · rw [compareLists_same h h' htext (.inr hiff) hlast hlast']
      have hfollows := hnext halike
      cases Ord.compare (value run.digits) (value other.digits) with
      | lt => exact follows_lt _
      | eq => exact hfollows
      | gt => exact follows_gt _
  · rw [compareRun]
    cases hcompare : compareText run.text other.text with
    | lt =>
      rw [compareLists_before h h' (before_of_partInFront h.text h'.text hcompare halike) hlast]
      exact follows_lt _
    | eq => exact absurd (DebianVersion.compareText_eq_iff.mp hcompare) htext
    | gt => exact follows_gt _

private theorem plain_missing : Plain missing :=
  ⟨fun _ h => (nomatch h), fun _ h => (nomatch h), by decide⟩

private theorem follows_missing {others : List Run} (hproper : Proper others) (hplain : ∀ run ∈ others, Plain run)
    (halike : AlikeMissing others) : Follows (compareMissing others) (compareLists [] (others.flatMap pieces)) := by
  induction others with
  | nil => exact ⟨fun h => (nomatch h), fun _ h => (nomatch h)⟩
  | cons other others ih =>
    rw [List.forall_mem_cons] at hplain
    obtain ⟨-, -, hlast, hrest⟩ := hproper
    have hrun := @follows_run missing other plain_missing hplain.1 [] (others.flatMap pieces) (fun _ => rfl)
      (fun h => by rw [hlast h]; rfl) _ _ halike (ih hrest hplain.2)
    exact hrun

private theorem flatMap_pieces (others : List Run) :
    others.flatMap pieces = pieces (others.headD missing) ++ others.tail.flatMap pieces := by
  cases others <;> rfl

private theorem proper_tail {others : List Run} (h : Proper others) :
    ((others.headD missing).digits = [] → others.tail = []) ∧ Proper others.tail := by
  cases others with
  | nil => exact ⟨fun _ => rfl, trivial⟩
  | cons other others => exact ⟨h.2.2.1, h.2.2.2⟩

/-- Where two parts are seen alike, the code orders them as Debian does. -/
theorem follows_compareRuns {rs ss : List Run} (hproper : Proper rs) (hproper' : Proper ss)
    (hplain : ∀ run ∈ rs, Plain run) (hplain' : ∀ run ∈ ss, Plain run) (halike : Alike rs ss) :
    Follows (compareRuns rs ss) (compareLists (rs.flatMap pieces) (ss.flatMap pieces)) := by
  induction rs generalizing ss with
  | nil => exact follows_missing hproper' hplain' halike
  | cons run rest ih =>
    rw [List.forall_mem_cons] at hplain
    obtain ⟨-, -, hlast, hrest⟩ := hproper
    obtain ⟨hlast', hrest'⟩ := proper_tail hproper'
    have hhead : Plain (ss.headD missing) := by
      cases ss with
      | nil => exact plain_missing
      | cons other others => exact hplain' other List.mem_cons_self
    rw [compareRuns, List.flatMap_cons, flatMap_pieces ss]
    exact follows_run hplain.1 hhead (fun h => by rw [hlast h]; rfl) (fun h => by rw [hlast' h]; rfl) halike
      (ih hrest hrest' hplain.2 fun run hrun => hplain' run (List.mem_of_mem_tail hrun))

end Agreement

section Versions
open Decimal
open DebianVersion (proper_runs length_le_of_mem_runs)

private theorem splitRelease_dash {version release : Bytes} (hne : version ≠ []) (h : dash ∉ release) :
    splitRelease (version ++ utf8 "-" ++ release) = (version, release) := by
  have hdash : utf8 "-" = [dash] := by decide
  have hreverse : (version ++ utf8 "-" ++ release).reverse = release.reverse ++ dash :: version.reverse := by
    simp [hdash]
  have hrelease : ((version ++ utf8 "-" ++ release).reverse.takeWhile (· ≠ dash)).reverse = release := by
    rw [hreverse, takeWhile_cut (by simpa using h), List.reverse_reverse]
  have htake : (version ++ utf8 "-" ++ release).take
      ((version ++ utf8 "-" ++ release).length - (release.length + 1)) = version := by
    rw [List.append_assoc, hdash]
    simp
  rw [splitRelease]
  simp only [hrelease, htake]
  rw [if_pos ⟨by simp [hdash], hne⟩]

private theorem splitRelease_plain {version : Bytes} (h : dash ∉ version) : splitRelease version = (version, utf8 "0") := by
  rw [splitRelease]
  exact if_neg fun hand => h hand.1

private theorem evrSplit_colon {epoch rest : Bytes} (h : colon ∉ epoch) :
    evrSplit (epoch ++ utf8 ":" ++ rest) = ⟨epoch, (splitRelease rest).1, (splitRelease rest).2⟩ := by
  have hcolon : utf8 ":" = [colon] := by decide
  rw [hcolon, List.append_assoc, List.singleton_append, evrSplit, if_pos (by simp), takeWhile_cut h, dropWhile_cut h]
  rfl

private theorem evrSplit_plain {rest : Bytes} (h : colon ∉ rest) :
    evrSplit rest = ⟨utf8 "0", (splitRelease rest).1, (splitRelease rest).2⟩ := by
  rw [evrSplit, if_neg h]

/-- The bytes of an upstream version that are no dash, and of a revision. -/
private theorem version_byte {c : UInt8}
    (h : DebianVersion.isLetter c = true ∨ DebianVersion.isDigit c = true ∨ c ∈ utf8 ".+~") : c ≠ colon ∧ c ≠ dash := by
  constructor
  · rintro rfl
    revert h
    decide
  · rintro rfl
    revert h
    decide

private theorem upstream_byte (v : Version) : colon ∉ v.upstream ∧ (v.revision = none → dash ∉ v.upstream) := by
  refine ⟨fun hc => ?_, fun hnone hc => ?_⟩
  · rcases v.upstream_byte _ hc with h | h | h | ⟨h, -⟩
    · exact (version_byte (.inl h)).1 rfl
    · exact (version_byte (.inr (.inl h))).1 rfl
    · exact (version_byte (.inr (.inr h))).1 rfl
    · exact absurd h (by decide)
  · rcases v.upstream_byte _ hc with h | h | h | ⟨-, h⟩
    · exact (version_byte (.inl h)).2 rfl
    · exact (version_byte (.inr (.inl h))).2 rfl
    · exact (version_byte (.inr (.inr h))).2 rfl
    · rw [hnone] at h
      cases h

/-- The code splits a version as it was put together. -/
theorem evrSplit_text (v : Version) : evrSplit v.text = ⟨v.epochText, v.upstream, v.revisionText⟩ := by
  obtain ⟨hcolon, hdash⟩ := upstream_byte v
  have hrest : splitRelease (v.upstream ++ v.revision.elim [] (utf8 "-" ++ ·)) = (v.upstream, v.revisionText) ∧
      colon ∉ v.upstream ++ v.revision.elim [] (utf8 "-" ++ ·) := by
    rw [Version.revisionText]
    cases hrevision : v.revision with
    | none =>
      rw [Option.elim_none, List.append_nil]
      exact ⟨splitRelease_plain (hdash hrevision), hcolon⟩
    | some revision =>
      have hbytes : ∀ c ∈ revision, c ≠ colon ∧ c ≠ dash := fun c hc =>
        version_byte ((v.revision_byte revision hrevision).2 c hc)
      rw [Option.elim_some, ← List.append_assoc]
      refine ⟨splitRelease_dash v.upstream_ne_nil fun h => (hbytes _ h).2 rfl, ?_⟩
      simp only [List.mem_append, not_or]
      exact ⟨⟨hcolon, by decide⟩, fun h => (hbytes _ h).1 rfl⟩
  rw [Version.text, Version.epochText, List.append_assoc]
  cases hepoch : v.epoch with
  | none =>
    rw [Option.elim_none, List.nil_append, evrSplit_plain hrest.2, hrest.1]
    rfl
  | some epoch =>
    have hnumber := (v.epoch_number epoch hepoch).2
    rw [Option.elim_some, evrSplit_colon (fun h => absurd (hnumber _ h) (by decide)), hrest.1]
    rfl

/-- At the first place where the two are seen to differ the code looks at what Debian looks at. -/
structure SeenAlike (installed minimum : Version) : Prop where
  upstream : value installed.epochText = value minimum.epochText →
    Alike (runs installed.upstream) (runs minimum.upstream)
  revision : value installed.epochText = value minimum.epochText →
    compareRuns (runs installed.upstream) (runs minimum.upstream) = .eq →
    Alike (runs installed.revisionText) (runs minimum.revisionText)

private theorem follows_parts {part other : Bytes} (h : part.length < 2 ^ 31) (h' : other.length < 2 ^ 31)
    (halike : Alike (runs part) (runs other)) :
    Follows (compareRuns (runs part) (runs other)) (compareParts part other) := by
  have hplain {part : Bytes} (h : part.length < 2 ^ 31) : ∀ run ∈ runs part, Plain run := fun run hrun =>
    have hdigits := (proper_runs part).digits run hrun
    ⟨hdigits.1, hdigits.2, lt_of_le_of_lt (length_le_of_mem_runs run hrun) h⟩
  rw [compareParts, split_eq, split_eq]
  exact follows_compareRuns (proper_runs part) (proper_runs other) (hplain h) (hplain h') halike

theorem split_number {part : Bytes} (h : part ≠ [] ∧ ∀ c ∈ part, isDigit c = true) : split part = [part] := by
  have hruns := @runs_digits part [] h.2 h.1 (fun c hc => by cases hc)
  rw [List.append_nil] at hruns
  rw [split_eq, hruns]
  simp [runs, pieces, letters, h.1]

private theorem compareParts_numbers {part other : Bytes} (h : part ≠ [] ∧ ∀ c ∈ part, isDigit c = true)
    (h' : other ≠ [] ∧ ∀ c ∈ other, isDigit c = true) (hshort : part.length < 2 ^ 31) (hshort' : other.length < 2 ^ 31) :
    compareParts part other = Ord.compare (value part) (value other) := by
  rw [compareParts, split_number h, split_number h', compareLists, comparePart, startsWithDigit_digits h.2 h.1,
    startsWithDigit_digits h'.2 h'.1, compareLists, Ordering.then_eq]
  exact compareNumbers_eq (digits_of h.2) h.1 (digits_of h'.2) h'.1 hshort hshort'

/-- An older version is compared as the lesser one, where the code looks at what Debian looks at. -/
theorem lt_of_older {installed minimum : Version} (holder : installed.compare minimum = .lt)
    (hshort : installed.text.length < 2 ^ 31) (hshort' : minimum.text.length < 2 ^ 31)
    (halike : SeenAlike installed minimum) : versionCompare installed.text minimum.text = .lt := by
  have hlengths {v : Version} (h : v.text.length < 2 ^ 31) :
      v.epochText.length < 2 ^ 31 ∧ v.upstream.length < 2 ^ 31 ∧ v.revisionText.length < 2 ^ 31 := by
    rw [Version.text, List.length_append, List.length_append] at h
    refine ⟨?_, by omega, ?_⟩
    · rw [Version.epochText]
      cases hepoch : v.epoch with
      | none => decide
      | some epoch =>
        rw [hepoch, Option.elim_some, List.length_append] at h
        rw [Option.getD_some]
        omega
    · rw [Version.revisionText]
      cases hrevision : v.revision with
      | none => decide
      | some revision =>
        rw [hrevision, Option.elim_some, List.length_append] at h
        rw [Option.getD_some]
        omega
  have hnumber (v : Version) : v.epochText ≠ [] ∧ ∀ c ∈ v.epochText, isDigit c = true := by
    rw [Version.epochText]
    cases hepoch : v.epoch with
    | none => exact ⟨by decide, by decide +kernel⟩
    | some epoch => exact v.epoch_number epoch hepoch
  obtain ⟨hepoch, hupstream, hrevision⟩ := hlengths hshort
  obtain ⟨hepoch', hupstream', hrevision'⟩ := hlengths hshort'
  rw [versionCompare, evrSplit_text, evrSplit_text]
  simp only
  rw [compareParts_numbers (hnumber installed) (hnumber minimum) hepoch hepoch']
  rw [Version.compare] at holder
  rcases lt_trichotomy (value installed.epochText) (value minimum.epochText) with hlt | heq | hgt
  · rw [compare_lt_iff_lt.mpr hlt]
    rfl
  · rw [compare_eq_iff_eq.mpr heq] at holder ⊢
    have hfollows := follows_parts hupstream hupstream' (halike.upstream heq)
    cases horder : compareRuns (runs installed.upstream) (runs minimum.upstream) with
    | lt =>
      rw [hfollows.1 horder]
      rfl
    | eq =>
      rw [horder] at holder
      cases hcode : compareParts installed.upstream minimum.upstream with
      | lt => rfl
      | eq => exact (follows_parts hrevision hrevision' (halike.revision heq horder)).1 holder
      | gt => exact absurd hcode (hfollows.2 horder)
    | gt =>
      rw [horder] at holder
      cases holder
  · rw [compare_gt_iff_gt.mpr hgt] at holder
    cases holder

/-- A package that is older than required is not reported as sufficient, where the code looks at what Debian looks at. -/
theorem older_not_sufficient {installed minimum : Version} (holder : installed.compare minimum = .lt)
    (hshort : installed.text.length < 2 ^ 31) (hshort' : minimum.text.length < 2 ^ 31)
    (halike : SeenAlike installed minimum) :
    versionCompare installed.text minimum.text = .lt ∧
      ∀ (params : Params) (packages : ByteMap Bytes), packages[params.packageName]? = some installed.text →
        params.minPackageVersion = some minimum.text → (reportInstalled params packages).status = .nonCompliant := by
  have hlt := lt_of_older holder hshort hshort' halike
  refine ⟨hlt, fun params packages hpackage hminimum => ?_⟩
  rw [reportInstalled, hpackage, hminimum]
  simp only [if_pos hlt]

private def sampleVersion (upstream : Bytes) (hne : upstream ≠ [])
    (h : ∀ c ∈ upstream, DebianVersion.isLetter c = true ∨ DebianVersion.isDigit c = true ∨ c ∈ utf8 ".+~") : Version where
  epoch := none
  upstream := upstream
  revision := none
  epoch_number _ hnumber := nomatch hnumber
  upstream_ne_nil := hne
  upstream_byte c hc := (h c hc).imp_right fun hor => hor.imp_right .inl
  revision_byte _ htext := nomatch htext

/-- A beta version is older than a candidate, and is seen to be. -/
theorem older_not_sufficient_candidates :
    versionCompare (utf8 "3.0.2~beta10") (utf8 "3.0.2~rc2") = .lt :=
  (@older_not_sufficient (sampleVersion (utf8 "3.0.2~beta10") (by decide +kernel) (by decide +kernel))
    (sampleVersion (utf8 "3.0.2~rc2") (by decide +kernel) (by decide +kernel))
    (by decide +kernel) (by decide +kernel) (by decide +kernel)
    ⟨by decide +kernel, by decide +kernel⟩).1

/-- A candidate is older than its release, and letters after a separator are later than a number; the code has both the
other way around. -/
theorem older_reported_sufficient :
    ((sampleVersion (utf8 "3.0.2~rc1") (by decide +kernel) (by decide +kernel)).compare
        (sampleVersion (utf8 "3.0.2") (by decide +kernel) (by decide +kernel)) = .lt ∧
      versionCompare (utf8 "3.0.2~rc1") (utf8 "3.0.2") = .gt) ∧
    (sampleVersion (utf8 "3.0.1") (by decide +kernel) (by decide +kernel)).compare
        (sampleVersion (utf8 "3.0.a") (by decide +kernel) (by decide +kernel)) = .lt ∧
      versionCompare (utf8 "3.0.1") (utf8 "3.0.a") = .gt := by
  decide +kernel

end Versions

end Kompli.PackageInstalled
