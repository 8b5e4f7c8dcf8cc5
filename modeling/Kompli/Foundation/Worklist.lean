import Mathlib.Algebra.GroupWithZero.Nat
import Mathlib.Data.Set.Finite.Basic
import Mathlib.Logic.Relation

/-! A list of work that grows while it is done, and that does not remember what has been done: when it ends, and what
has been found then. -/
namespace Kompli.Foundation.Worklist

open Relation

variable {α β : Type} (next : α → List α) (found : α → List β)

/-- First in, first out. Nothing is returned while there is work. -/
def run : Nat → List α → List β → Option (List β)
  | _, [], done => some done
  | 0, _ :: _, _ => none
  | fuel + 1, x :: work, done => run fuel (work ++ next x) (done ++ found x)

/-- A piece of work gives another. -/
def Gives (x y : α) : Prop := y ∈ next x

variable {next found} {fuel : Nat} {work : List α} {done out : List β} {x y : α}

/-- What has been found stays, and what is found of work that is done is part of the result. -/
theorem run_found (h : run next found fuel work done = some out) :
    done <+: out ∧ ∀ x ∈ work, ∀ y, ReflTransGen (Gives next) x y → found y <:+: out := by
  induction fuel generalizing work done with
  | zero =>
    cases work with
    | nil =>
      cases h
      exact ⟨List.prefix_rfl, fun x hx => (nomatch hx)⟩
    | cons x work => cases h
  | succ fuel ih =>
    cases work with
    | nil =>
      cases h
      exact ⟨List.prefix_rfl, fun x hx => (nomatch hx)⟩
    | cons x work =>
      obtain ⟨hdone, hwork⟩ := ih h
      refine ⟨(List.prefix_append _ _).trans hdone, fun z hz y hy => ?_⟩
      rcases List.mem_cons.mp hz with rfl | hz
      · rcases ReflTransGen.cases_head hy with rfl | ⟨child, hchild, hrest⟩
        · obtain ⟨rest, hrest⟩ := hdone
          exact ⟨done, rest, hrest⟩
        · exact hwork child (List.mem_append_right work hchild) y hrest
      · exact hwork z (List.mem_append_left _ hz) y hy

/-- Nothing else is found. -/
theorem exists_found_of_run (h : run next found fuel work done = some out) {b : β} (hb : b ∈ out) :
    b ∈ done ∨ ∃ x ∈ work, ∃ y, ReflTransGen (Gives next) x y ∧ b ∈ found y := by
  induction fuel generalizing work done with
  | zero =>
    cases work with
    | nil =>
      cases h
      exact .inl hb
    | cons x work => cases h
  | succ fuel ih =>
    cases work with
    | nil =>
      cases h
      exact .inl hb
    | cons x work =>
      rcases ih h with hdone | ⟨z, hz, y, hy, hfound⟩
      · exact (List.mem_append.mp hdone).imp id fun hx => ⟨x, List.mem_cons_self, x, .refl, hx⟩
      · rcases List.mem_append.mp hz with hz | hz
        · exact .inr ⟨z, List.mem_cons_of_mem x hz, y, hy, hfound⟩
        · exact .inr ⟨x, List.mem_cons_self, y, .head hz hy, hfound⟩

/-- Work that ends is well-founded. -/
theorem acc_of_run (h : run next found fuel work done = some out) : ∀ x ∈ work, Acc (fun y x => Gives next x y) x := by
  induction fuel generalizing work done with
  | zero =>
    cases work with
    | nil => exact fun x hx => (nomatch hx)
    | cons x work => cases h
  | succ fuel ih =>
    cases work with
    | nil => exact fun x hx => (nomatch hx)
    | cons x work =>
      have hwork := ih h
      refine List.forall_mem_cons.mpr ⟨Acc.intro x fun y hy => hwork y (List.mem_append_right work hy), fun y hy => ?_⟩
      exact hwork y (List.mem_append_left _ hy)

/-- How much work there is in a piece of work. -/
theorem exists_size (next : α → List α) :
    ∃ size : α → Nat, ∀ x, Acc (fun y x => Gives next x y) x → size x = 1 + ((next x).map size).sum := by
  classical
  let sizeOfAcc (x : α) (h : Acc (fun y x => Gives next x y) x) : Nat :=
    h.rec fun x _ ih => 1 + ((next x).attach.map fun y => ih y.1 y.2).sum
  have hsize (x : α) (h : ∀ y, Gives next x y → Acc (fun y x => Gives next x y) y) :
      sizeOfAcc x (Acc.intro x h) = 1 + ((next x).attach.map fun y => sizeOfAcc y.1 (h y.1 y.2)).sum := rfl
  let size (x : α) : Nat := if h : Acc (fun y x => Gives next x y) x then sizeOfAcc x h else 0
  have heq (x : α) (h : Acc (fun y x => Gives next x y) x) : size x = sizeOfAcc x h := dif_pos h
  refine ⟨size, fun x hx => ?_⟩
  obtain ⟨_, h⟩ := hx
  have hmap : (next x).map size = (next x).attach.map fun y => sizeOfAcc y.1 (h y.1 y.2) := by
    calc (next x).map size
        = (next x).attach.map fun y => size y.1 := List.attach_map_val.symm
      _ = (next x).attach.map fun y => sizeOfAcc y.1 (h y.1 y.2) :=
        List.map_congr_left fun y _ => heq y.1 (h y.1 y.2)
  rw [heq x (Acc.intro x h), hsize, hmap]

/-- Well-founded work ends. -/
theorem run_of_acc (h : ∀ x ∈ work, Acc (fun y x => Gives next x y) x) (found : α → List β) (done : List β) :
    ∃ fuel out, run next found fuel work done = some out := by
  obtain ⟨size, hsize⟩ := exists_size next
  refine ⟨(work.map size).sum, ?_⟩
  induction hfuel : (work.map size).sum generalizing work done with
  | zero =>
    cases work with
    | nil => exact ⟨done, rfl⟩
    | cons x work =>
      have hx := hsize x (h x List.mem_cons_self)
      rw [List.map_cons, List.sum_cons] at hfuel
      omega
  | succ fuel ih =>
    cases work with
    | nil => cases hfuel
    | cons x work =>
      rw [List.forall_mem_cons] at h
      have hx := hsize x h.1
      refine ih ?_ (done ++ found x) ?_
      · intro y hy
        rcases List.mem_append.mp hy with hy | hy
        · exact h.2 y hy
        · exact h.1.inv hy
      · rw [List.map_cons, List.sum_cons, hx] at hfuel
        rw [List.map_append, List.sum_append]
        omega

private theorem not_rel_of_acc {r : α → α → Prop} (h : Acc r x) : ¬ r x x := by
  induction h with
  | intro x _ ih => exact fun hx => ih x hx hx

/-- Where only finitely many pieces of work give others, work is well-founded just where none comes back to itself. -/
theorem acc_iff_acyclic (hfinite : {x | next x ≠ []}.Finite) :
    Acc (fun y x => Gives next x y) x ↔ ∀ y, ReflTransGen (Gives next) x y → ¬ TransGen (Gives next) y y := by
  constructor
  · intro h y hy
    have hacc : Acc (fun y x => Gives next x y) y := by
      induction hy with
      | refl => exact h
      | tail _ hstep ih => exact ih.inv hstep
    intro hcycle
    exact not_rel_of_acc hacc.transGen (transGen_swap.mp hcycle)
  · classical
    -- the work that a piece of work still gives leads to fewer pieces, since it does not lead back to it
    have hinduction : ∀ (F : Finset α) (x : α), (∀ y, ReflTransGen (Gives next) x y → next y ≠ [] → y ∈ F) →
        (∀ y, ReflTransGen (Gives next) x y → ¬ TransGen (Gives next) y y) → Acc (fun y x => Gives next x y) x := by
      intro F
      induction F using Finset.strongInduction with
      | H F ih =>
        intro x hF hacyclic
        refine Acc.intro x fun y hy => ?_
        have hx : x ∈ F := hF x .refl (List.ne_nil_of_mem hy)
        refine ih (F.erase x) (Finset.erase_ssubset hx) y (fun z hz hne => ?_) fun z hz => hacyclic z (.head hy hz)
        refine Finset.mem_erase.mpr ⟨?_, hF z (.head hy hz) hne⟩
        rintro rfl
        exact hacyclic z .refl (TransGen.head' hy hz)
    exact hinduction hfinite.toFinset x fun y _ hne => hfinite.mem_toFinset.mpr hne

end Kompli.Foundation.Worklist
