import Kompli.Foundation.Decimal
import Mathlib.Data.List.TakeWhile

/-! The versions of Debian packages, and their order: texts without digits and numbers are compared in turn, a
tilde before everything, even the end of a part. -/
namespace Kompli.Foundation.DebianVersion
open Decimal

def isDigit (c : UInt8) : Bool := 0x30 ≤ c && c ≤ 0x39

def isLetter (c : UInt8) : Bool := (0x41 ≤ c && c ≤ 0x5A) || (0x61 ≤ c && c ≤ 0x7A)

def tilde : UInt8 := 0x7E

/-- A text without digits, and the digits that follow it. -/
structure Run where
  text : Bytes
  digits : Bytes
  deriving DecidableEq

section Runs

/-- A digit in front of runs: it belongs to the first of them where that has no text. -/
def consDigit (c : UInt8) : List Run → List Run
  | ⟨[], digits⟩ :: rest => ⟨[], c :: digits⟩ :: rest
  | rest => ⟨[], [c]⟩ :: rest

def consText (c : UInt8) : List Run → List Run
  | [] => [⟨[c], []⟩]
  | ⟨text, digits⟩ :: rest => ⟨c :: text, digits⟩ :: rest

def runs : Bytes → List Run
  | [] => []
  | c :: cs => if isDigit c then consDigit c (runs cs) else consText c (runs cs)

/-- Only the last run is without a number. -/
def Proper : List Run → Prop
  | [] => True
  | run :: rest =>
    (∀ c ∈ run.text, isDigit c = false) ∧ (∀ c ∈ run.digits, isDigit c = true) ∧ (run.digits = [] → rest = []) ∧
      Proper rest

theorem proper_runs (part : Bytes) : Proper (runs part) := by
  induction part with
  | nil => trivial
  | cons c cs ih =>
    rw [runs]
    cases hc : isDigit c with
    | true =>
      rw [if_pos rfl]
      match hruns : runs cs with
      | [] => exact ⟨by simp, by simpa using hc, fun h => by simp at h, trivial⟩
      | ⟨[], digits⟩ :: rest =>
        rw [hruns] at ih
        obtain ⟨-, hdigits, -, hrest⟩ := ih
        exact ⟨by simp, by simpa [hc] using hdigits, fun h => by simp at h, hrest⟩
      | ⟨d :: text, digits⟩ :: rest =>
        rw [hruns] at ih
        exact ⟨by simp, by simpa using hc, fun h => by simp at h, ih⟩
    | false =>
      rw [if_neg (by simp)]
      match hruns : runs cs with
      | [] => exact ⟨by simpa using hc, by simp, fun _ => rfl, trivial⟩
      | ⟨text, digits⟩ :: rest =>
        rw [hruns] at ih
        obtain ⟨htext, hdigits, hlast, hrest⟩ := ih
        exact ⟨by simpa [hc] using htext, hdigits, hlast, hrest⟩

theorem length_le_of_mem_runs {part : Bytes} : ∀ run ∈ runs part, run.digits.length ≤ part.length := by
  induction part with
  | nil => exact fun run hrun => by cases hrun
  | cons c cs ih =>
    rw [runs]
    split_ifs
    · match hruns : runs cs with
      | [] => simp [consDigit]
      | ⟨[], digits⟩ :: rest =>
        rw [hruns, List.forall_mem_cons] at ih
        refine List.forall_mem_cons.mpr ⟨Nat.succ_le_succ ih.1, fun run hrun => ?_⟩
        exact Nat.le_succ_of_le (ih.2 run hrun)
      | ⟨d :: text, digits⟩ :: rest =>
        rw [hruns] at ih
        exact List.forall_mem_cons.mpr ⟨by simp, fun run hrun => Nat.le_succ_of_le (ih run hrun)⟩
    · match hruns : runs cs with
      | [] => simp [consText]
      | ⟨text, digits⟩ :: rest =>
        rw [hruns, List.forall_mem_cons] at ih
        refine List.forall_mem_cons.mpr ⟨Nat.le_succ_of_le ih.1, fun run hrun => ?_⟩
        exact Nat.le_succ_of_le (ih.2 run hrun)

theorem Proper.digits {rs : List Run} (h : Proper rs) :
    ∀ run ∈ rs, (∀ c ∈ run.text, isDigit c = false) ∧ ∀ c ∈ run.digits, isDigit c = true := by
  induction rs with
  | nil => exact fun run hrun => by cases hrun
  | cons run rest ih => exact List.forall_mem_cons.mpr ⟨⟨h.1, h.2.1⟩, ih h.2.2.2⟩

theorem runs_digits_append {digits rest : Bytes} (h : ∀ c ∈ digits, isDigit c = true) (hne : digits ≠ [])
    (hrest : ∀ c ∈ rest.head?, isDigit c = false) : runs (digits ++ rest) = ⟨[], digits⟩ :: runs rest := by
  induction digits with
  | nil => exact absurd rfl hne
  | cons c digits ih =>
    rw [List.forall_mem_cons] at h
    rw [List.cons_append, runs, if_pos h.1]
    rcases digits with _ | ⟨d, digits⟩
    · match rest with
      | [] => rfl
      | d :: rest =>
        have hd : isDigit d = false := hrest d rfl
        rw [List.nil_append, runs, hd, if_neg (by simp)]
        cases runs rest <;> rfl
    · rw [ih h.2 (by simp)]
      rfl

theorem runs_text_append {text : Bytes} (h : ∀ c ∈ text, isDigit c = false) (hne : text ≠ []) (rest : Bytes) :
    runs (text ++ rest) = match runs rest with
      | [] => [⟨text, []⟩]
      | run :: runs => ⟨text ++ run.text, run.digits⟩ :: runs := by
  induction text with
  | nil => exact absurd rfl hne
  | cons c text ih =>
    rw [List.forall_mem_cons] at h
    rw [List.cons_append, runs, h.1, if_neg (by simp)]
    rcases text with _ | ⟨d, text⟩
    · rw [List.nil_append]
      cases runs rest <;> rfl
    · rw [ih h.2 (by simp)]
      cases runs rest <;> rfl

end Runs

section Order

/-- How a byte is sorted: a tilde before the end, which is 0, and letters before everything else. -/
def weight (c : UInt8) : Int := if c = tilde then -1 else if isLetter c then c.toNat else c.toNat + 256

def compareText : Bytes → Bytes → Ordering
  | [], [] => .eq
  | [], d :: _ => compare 0 (weight d)
  | c :: _, [] => compare (weight c) 0
  | c :: text, d :: other => (compare (weight c) (weight d)).then (compareText text other)

def compareRun (run other : Run) : Ordering :=
  (compareText run.text other.text).then (compare (value run.digits) (value other.digits))

/-- What a run that is missing counts as. -/
def missing : Run := ⟨[], []⟩

def compareMissing : List Run → Ordering
  | [] => .eq
  | other :: others => (compareRun missing other).then (compareMissing others)

def compareRuns : List Run → List Run → Ordering
  | [], others => compareMissing others
  | run :: rest, others => (compareRun run (others.headD missing)).then (compareRuns rest others.tail)

theorem weight_ne_zero (c : UInt8) : weight c ≠ 0 := by
  rw [weight]
  split_ifs with htilde hletter
  · decide
  · rw [isLetter] at hletter
    rintro h
    have hc : c = 0 := UInt8.toNat_inj.mp (by simpa using h)
    subst hc
    simp at hletter
  · have := c.toNat_lt
    omega

theorem weight_injective : Function.Injective weight := by
  intro c d h
  have hc := c.toNat_lt
  have hd := d.toNat_lt
  refine UInt8.toNat_inj.mp ?_
  simp only [weight] at h
  split_ifs at h with h₁ h₂ h₃ h₄ h₅ h₆ <;> first | omega | (rw [h₁, h₂])

theorem compareText_eq_iff {text other : Bytes} : compareText text other = .eq ↔ text = other := by
  induction text generalizing other with
  | nil =>
    cases other with
    | nil => simp [compareText]
    | cons d other =>
      rw [compareText, compare_eq_iff_eq]
      exact iff_of_false (weight_ne_zero d).symm (by simp)
  | cons c text ih =>
    cases other with
    | nil =>
      rw [compareText, compare_eq_iff_eq]
      exact iff_of_false (weight_ne_zero c) (by simp)
    | cons d other =>
      rw [compareText, Ordering.then_eq_eq, ih, compare_eq_iff_eq, weight_injective.eq_iff, List.cons.injEq]

end Order

/-- An epoch, an upstream version, which has a dash only where a revision follows, and a revision. -/
structure Version where
  epoch : Option Bytes
  upstream : Bytes
  revision : Option Bytes
  epoch_number : ∀ number ∈ epoch, number ≠ [] ∧ ∀ c ∈ number, isDigit c = true
  upstream_ne_nil : upstream ≠ []
  upstream_byte : ∀ c ∈ upstream, isLetter c = true ∨ isDigit c = true ∨ c ∈ utf8 ".+~" ∨ c ∈ utf8 "-" ∧ revision.isSome
  revision_byte : ∀ text ∈ revision, text ≠ [] ∧
    ∀ c ∈ text, isLetter c = true ∨ isDigit c = true ∨ c ∈ utf8 ".+~"

namespace Version

def text (version : Version) : Bytes :=
  (version.epoch.elim [] (· ++ utf8 ":")) ++ version.upstream ++ version.revision.elim [] (utf8 "-" ++ ·)

/-- What is not written is 0. -/
def epochText (version : Version) : Bytes := version.epoch.getD (utf8 "0")

def revisionText (version : Version) : Bytes := version.revision.getD (utf8 "0")

def compare (version other : Version) : Ordering :=
  (Ord.compare (value version.epochText) (value other.epochText)).then
    ((compareRuns (runs version.upstream) (runs other.upstream)).then
      (compareRuns (runs version.revisionText) (runs other.revisionText)))

end Version

end Kompli.Foundation.DebianVersion
