import Std.Data.ExtTreeMap
import Kompli.Foundation.StateRule
import Mathlib.Data.List.TakeWhile

/-! Writes to a map, one after the other, each of which first checks that its key
is there. A write that fails leaves what the ones before it wrote. -/
namespace Kompli.Foundation

abbrev Map (α β : Type) (cmp : α → α → Ordering) := Std.ExtTreeMap α β cmp

section

variable {α β ε : Type} {cmp : α → α → Ordering} [Std.TransCmp cmp]

/-- Write to the keys of a map, or fail at the first of `writes` that is not one. -/
def writeKnown (unknown : α → ε) : List (α × β) → EStateM ε (Map α β cmp) Unit
  | [] => pure ()
  | (key, value) :: writes => do
    if key ∈ (← get) then
      modify (·.insert key value)
      writeKnown unknown writes
    else throw (unknown key)

/-- The writes before the first that fails. -/
def writesBefore (m : Map α β cmp) (writes : List (α × β)) : List (α × β) :=
  writes.takeWhile fun w => w.1 ∈ m

theorem writeKnown_nil (unknown : α → ε) (m : Map α β cmp) :
    writeKnown unknown [] m = .ok () m := rfl

theorem writeKnown_known {unknown : α → ε} {m : Map α β cmp} {key : α} (h : key ∈ m) (value : β)
    (writes : List (α × β)) :
    writeKnown unknown ((key, value) :: writes) m = writeKnown unknown writes (m.insert key value) := by
  rw [writeKnown, bind_run_ok _ (get_run m), if_pos h]
  rfl

theorem writeKnown_unknown {unknown : α → ε} {m : Map α β cmp} {key : α} (h : key ∉ m) (value : β)
    (writes : List (α × β)) :
    writeKnown unknown ((key, value) :: writes) m = .error (unknown key) m := by
  rw [writeKnown, bind_run_ok _ (get_run m), if_neg h]
  rfl

variable [Std.LawfulEqCmp cmp]

private theorem mem_insert_of_mem {m : Map α β cmp} {key : α} (h : key ∈ m) (value : β) (k : α) :
    k ∈ m.insert key value ↔ k ∈ m := by
  rw [Std.ExtTreeMap.mem_insert]
  constructor
  · rintro (heq | hk)
    · exact Std.LawfulEqCmp.eq_of_compare heq ▸ h
    · exact hk
  · exact Or.inr

/-- All the writes are made when all their keys are there. -/
theorem writeKnown_of_known (unknown : α → ε) {writes : List (α × β)} {m : Map α β cmp}
    (h : ∀ w ∈ writes, w.1 ∈ m) : writeKnown unknown writes m = .ok () (m.insertMany writes) := by
  induction writes generalizing m with
  | nil => simp [writeKnown_nil]
  | cons w writes ih =>
    have hw := h w List.mem_cons_self
    rw [writeKnown_known hw, ih fun x hx => ?_, Std.ExtTreeMap.insertMany_cons]
    exact (mem_insert_of_mem hw w.2 x.1).mpr (h x (List.mem_cons_of_mem _ hx))

/-- Otherwise those before the first unknown key are. -/
theorem writeKnown_of_unknown (unknown : α → ε) {writes : List (α × β)} {m : Map α β cmp}
    (h : ∃ w ∈ writes, w.1 ∉ m) :
    ∃ key, key ∉ m ∧
      writeKnown unknown writes m = .error (unknown key) (m.insertMany (writesBefore m writes)) := by
  induction writes generalizing m with
  | nil =>
    obtain ⟨w, hw, -⟩ := h
    exact absurd hw List.not_mem_nil
  | cons w writes ih =>
    by_cases hw : w.1 ∈ m
    · have hrest : ∃ x ∈ writes, x.1 ∉ m.insert w.1 w.2 := by
        obtain ⟨x, hx, hnew⟩ := h
        obtain rfl | hx := List.mem_cons.mp hx
        · exact absurd hw hnew
        · exact ⟨x, hx, fun hmem => hnew ((mem_insert_of_mem hw w.2 x.1).mp hmem)⟩
      obtain ⟨key, hkey, hrun⟩ := ih hrest
      have hsame : writesBefore (m.insert w.1 w.2) writes = writesBefore m writes := by
        simp only [writesBefore, mem_insert_of_mem hw]
      have hbefore : writesBefore m (w :: writes) = w :: writesBefore m writes := by
        simp [writesBefore, hw]
      refine ⟨key, fun hmem => hkey ((mem_insert_of_mem hw w.2 key).mpr hmem), ?_⟩
      rw [writeKnown_known hw, hrun, hsame, hbefore, Std.ExtTreeMap.insertMany_cons]
    · refine ⟨w.1, hw, ?_⟩
      have hbefore : writesBefore m (w :: writes) = [] := by
        simp [writesBefore, hw]
      rw [writeKnown_unknown hw, hbefore, Std.ExtTreeMap.insertMany_nil]

theorem insert_eq_self {m : Map α β cmp} {key : α} {value : β} (h : m[key]? = some value) :
    m.insert key value = m := by
  apply Std.ExtTreeMap.ext_getElem?
  intro k
  rw [Std.ExtTreeMap.getElem?_insert]
  split
  · rename_i heq
    rw [← Std.LawfulEqCmp.eq_of_compare heq, h]
  · rfl

/-- Writes to different keys change nothing if and only if each finds its value there already. -/
theorem insertMany_eq_self_iff [BEq α] [Std.LawfulBEqCmp cmp] {writes : List (α × β)} {m : Map α β cmp}
    (hdistinct : writes.Pairwise fun a b => ¬ cmp a.1 b.1 = .eq) :
    m.insertMany writes = m ↔ ∀ w ∈ writes, m[w.1]? = some w.2 := by
  constructor
  · intro h w hw
    have hvalue := Std.ExtTreeMap.getElem?_insertMany_list_of_mem (t := m) Std.ReflCmp.compare_self
      hdistinct hw
    rwa [h] at hvalue
  · intro h
    clear hdistinct
    induction writes with
    | nil => rfl
    | cons w writes ih =>
      rw [Std.ExtTreeMap.insertMany_cons, insert_eq_self (h w List.mem_cons_self)]
      exact ih fun x hx => h x (List.mem_cons_of_mem _ hx)

theorem mem_of_mem_toList {m : Map α β cmp} {w : α × β} (h : w ∈ m.toList) : w.1 ∈ m := by
  rw [Std.ExtTreeMap.mem_iff_isSome_getElem?, Std.ExtTreeMap.mem_toList_iff_getElem?_eq_some.mp h]
  rfl

theorem exists_mem_toList {m : Map α β cmp} {key : α} (h : key ∈ m) : ∃ value, (key, value) ∈ m.toList := by
  rw [Std.ExtTreeMap.mem_iff_isSome_getElem?, Option.isSome_iff_exists] at h
  obtain ⟨value, hvalue⟩ := h
  exact ⟨value, Std.ExtTreeMap.mem_toList_iff_getElem?_eq_some.mpr hvalue⟩

/-- Writing one map over another. -/
theorem getElem?_insertMany_toList [BEq α] [Std.LawfulBEqCmp cmp] (m user : Map α β cmp) (k : α) :
    (m.insertMany user.toList)[k]? = user[k]?.or m[k]? := by
  cases h : user[k]? with
  | some v =>
    have hmem := Std.ExtTreeMap.mem_toList_iff_getElem?_eq_some.mpr h
    rw [Std.ExtTreeMap.getElem?_insertMany_list_of_mem Std.ReflCmp.compare_self
      Std.ExtTreeMap.distinct_keys_toList hmem, Option.some_or]
  | none =>
    have hkey : (user.toList.map Prod.fst).contains k = false := by
      rw [Bool.eq_false_iff]
      rw [Std.ExtTreeMap.map_fst_toList_eq_keys]
      intro hk
      obtain ⟨a, ha, heq⟩ := List.contains_iff_exists_mem_beq.mp hk
      have hcmp : cmp k a = .eq := Std.LawfulBEqCmp.compare_eq_iff_beq.mpr heq
      obtain rfl := Std.LawfulEqCmp.eq_of_compare hcmp
      rw [Std.ExtTreeMap.mem_keys, Std.ExtTreeMap.mem_iff_isSome_getElem?, h] at ha
      exact absurd ha Bool.false_ne_true
    rw [Std.ExtTreeMap.getElem?_insertMany_list_of_contains_eq_false hkey, Option.none_or]

end
end Kompli.Foundation
