import Mathlib.Order.Hom.Lattice
import Mathlib.Order.BoundedOrder.Lattice

/-! Formulas with any number of operands over a bounded lattice with an
order-reversing negation: strong Kleene logic, and any De Morgan algebra. -/
namespace Kompli.Foundation

inductive Formula (α : Type) where
  | anyOf (operands : List (Formula α))
  | allOf (operands : List (Formula α))
  | not (operand : Formula α)
  | leaf (a : α)

namespace Formula

variable {α : Type}

/-- Induction with the hypothesis at every operand of a list. -/
@[elab_as_elim]
theorem ind {P : Formula α → Prop} (anyOf : ∀ fs, (∀ f ∈ fs, P f) → P (.anyOf fs))
    (allOf : ∀ fs, (∀ f ∈ fs, P f) → P (.allOf fs)) (not : ∀ f, P f → P (.not f))
    (leaf : ∀ a, P (.leaf a)) (f : Formula α) : P f :=
  Formula.rec (motive_1 := P) (motive_2 := fun fs => ∀ f ∈ fs, P f) anyOf allOf not leaf
    (fun _ h => absurd h List.not_mem_nil) (fun _ _ hf hfs => List.forall_mem_cons.mpr ⟨hf, hfs⟩) f

/-- How to go from a formula to one of its operands. -/
inductive Step where
  | anyOf (i : Nat)
  | allOf (i : Nat)
  | not
  deriving DecidableEq, Repr

abbrev Path := List Step

/-- The leaf a path from the root ends at, if it ends at one. -/
def leafAt : Path → Formula α → Option α
  | [], .leaf a => some a
  | .not :: path, .not f => leafAt path f
  | .anyOf i :: path, .anyOf fs => fs[i]?.bind (leafAt path)
  | .allOf i :: path, .allOf fs => fs[i]?.bind (leafAt path)
  | _, _ => none

section Value

variable {V : Type} [Lattice V] [BoundedOrder V]

def join (vs : List V) : V := vs.foldr (· ⊔ ·) ⊥
def meet (vs : List V) : V := vs.foldr (· ⊓ ·) ⊤

@[simp] theorem join_nil : join ([] : List V) = ⊥ := rfl
@[simp] theorem meet_nil : meet ([] : List V) = ⊤ := rfl
@[simp] theorem join_cons (v : V) (vs : List V) : join (v :: vs) = v ⊔ join vs := rfl
@[simp] theorem meet_cons (v : V) (vs : List V) : meet (v :: vs) = v ⊓ meet vs := rfl

variable (neg : V ≃o Vᵒᵈ) (label : α → V)

mutual
/-- The value of a formula whose leaves have the values `label` gives them. -/
def value : Formula α → V
  | .anyOf fs => join (values fs)
  | .allOf fs => meet (values fs)
  | .not f => OrderDual.ofDual (neg (value f))
  | .leaf a => label a
def values : List (Formula α) → List V
  | [] => []
  | f :: fs => value f :: values fs
end

theorem values_eq_map (fs : List (Formula α)) : values neg label fs = fs.map (value neg label) := by
  induction fs with
  | nil => rfl
  | cons f fs ih => rw [values, ih, List.map_cons]

theorem neg_join (vs : List V) :
    OrderDual.ofDual (neg (join vs)) = meet (vs.map fun v => OrderDual.ofDual (neg v)) := by
  induction vs with
  | nil => exact neg.map_bot
  | cons v vs ih => rw [join_cons, OrderIso.map_sup, ofDual_sup, ih, List.map_cons, meet_cons]

theorem neg_meet (vs : List V) :
    OrderDual.ofDual (neg (meet vs)) = join (vs.map fun v => OrderDual.ofDual (neg v)) := by
  induction vs with
  | nil => exact neg.map_top
  | cons v vs ih => rw [meet_cons, OrderIso.map_inf, ofDual_inf, ih, List.map_cons, join_cons]

private theorem values_not (fs : List (Formula α)) :
    values neg label (fs.map .not) = (values neg label fs).map fun v => OrderDual.ofDual (neg v) := by
  simp only [values_eq_map, List.map_map]
  rfl

theorem value_not_anyOf (fs : List (Formula α)) :
    value neg label (.not (.anyOf fs)) = value neg label (.allOf (fs.map .not)) := by
  simp only [value]
  rw [neg_join, values_not]

theorem value_not_allOf (fs : List (Formula α)) :
    value neg label (.not (.allOf fs)) = value neg label (.anyOf (fs.map .not)) := by
  simp only [value]
  rw [neg_meet, values_not]

end Value

mutual
/-- The same formula with its operands written in another order, at any depth. -/
inductive Reordered : Formula α → Formula α → Prop
  | leaf (a) : Reordered (.leaf a) (.leaf a)
  | not {f g} : Reordered f g → Reordered (.not f) (.not g)
  | anyOf {fs gs} : ReorderedList fs gs → Reordered (.anyOf fs) (.anyOf gs)
  | allOf {fs gs} : ReorderedList fs gs → Reordered (.allOf fs) (.allOf gs)
inductive ReorderedList : List (Formula α) → List (Formula α) → Prop
  | nil : ReorderedList [] []
  | cons {f g fs gs} : Reordered f g → ReorderedList fs gs → ReorderedList (f :: fs) (g :: gs)
  | swap (f g fs) : ReorderedList (f :: g :: fs) (g :: f :: fs)
  | trans {fs gs hs} : ReorderedList fs gs → ReorderedList gs hs → ReorderedList fs hs
end

section Value

variable {V : Type} [Lattice V] [BoundedOrder V] (neg : V ≃o Vᵒᵈ) (label : α → V)

theorem Reordered.value_eq {f g : Formula α} (h : Reordered f g) :
    value neg label f = value neg label g := by
  refine Reordered.rec (motive_1 := fun f g _ => value neg label f = value neg label g)
    (motive_2 := fun fs gs _ => join (values neg label fs) = join (values neg label gs) ∧
      meet (values neg label fs) = meet (values neg label gs))
    ?leaf ?not ?anyOf ?allOf ?nil ?cons ?swap ?trans h
  case leaf => exact fun a => rfl
  case not => intro f g _ ih; simp only [value, ih]
  case anyOf => intro fs gs _ ih; simp only [value, ih.1]
  case allOf => intro fs gs _ ih; simp only [value, ih.2]
  case nil => exact ⟨rfl, rfl⟩
  case cons => intro f g fs gs _ _ ih ihs; simp only [values, join_cons, meet_cons, ih, ihs.1, ihs.2, and_self]
  case swap =>
    intro f g fs
    simp only [values, join_cons, meet_cons]
    exact ⟨sup_left_comm _ _ _, inf_left_comm _ _ _⟩
  case trans => intro fs gs hs _ _ h₁ h₂; exact ⟨h₁.1.trans h₂.1, h₁.2.trans h₂.2⟩

end Value

end Formula
end Kompli.Foundation
