import Kompli.Foundation.CheckedWrites
import Kompli.Foundation.ExceptRule

/-! A map and the list of its entries. -/
namespace Kompli.Foundation

variable {α β γ ε : Type} {cmp : α → α → Ordering} [Std.TransCmp cmp] [Std.LawfulEqCmp cmp]

theorem nodup_keys (m : Map α β cmp) : (m.toList.map Prod.fst).Nodup := by
  rw [List.Nodup, List.pairwise_map]
  refine Std.ExtTreeMap.distinct_keys_toList.imp ?_
  rintro a b hdistinct heq
  rw [heq] at hdistinct
  exact hdistinct Std.ReflCmp.compare_self

theorem getElem?_insert_eq [DecidableEq α] (m : Map α β cmp) (key other : α) (value : β) :
    (m.insert key value)[other]? = if key = other then some value else m[other]? := by
  simp only [Std.ExtTreeMap.getElem?_insert, Std.LawfulEqCmp.compare_eq_iff_eq]

/-- Entries that are all different are found by their keys. -/
theorem lookup_of_mem [BEq α] [LawfulBEq α] {xs : List (α × γ)} (hnodup : (xs.map Prod.fst).Nodup) {x : α × γ}
    (hx : x ∈ xs) : xs.lookup x.1 = some x.2 := by
  obtain ⟨before, after, rfl⟩ := List.append_of_mem hx
  rw [List.lookup_eq_some_iff]
  refine ⟨before, after, rfl, fun y hy => bne_iff_ne.mpr ?_⟩
  rw [List.map_append, List.map_cons, List.nodup_append] at hnodup
  intro heq
  exact hnodup.2.2 y.1 (List.mem_map_of_mem hy) x.1 List.mem_cons_self heq.symm

/-- Entries of different keys, written one after the other. -/
theorem getElem?_foldl_insert [DecidableEq α] {key : γ → α} {value : γ → β} {xs : List γ} (hnodup : (xs.map key).Nodup)
    (m : Map α β cmp) (k : α) :
    (xs.foldl (fun m x => m.insert (key x) (value x)) m)[k]? =
      ((xs.find? fun x => key x = k).map value).or m[k]? := by
  induction xs generalizing m with
  | nil => rfl
  | cons x xs ih =>
    rw [List.map_cons, List.nodup_cons] at hnodup
    rw [List.foldl_cons, ih hnodup.2, Std.ExtTreeMap.getElem?_insert]
    by_cases hkey : key x = k
    · have hnone : (xs.find? fun x => key x = k) = none := by
        rw [List.find?_eq_none]
        intro y hy
        rw [decide_eq_true_eq]
        intro heq
        apply hnodup.1
        rw [hkey, ← heq]
        exact List.mem_map_of_mem hy
      rw [List.find?_cons_of_pos (by simpa using hkey), hnone, hkey, if_pos Std.ReflCmp.compare_self]
      rfl
    · have hcmp : ¬ cmp (key x) k = .eq := fun heq => hkey (Std.LawfulEqCmp.eq_of_compare heq)
      rw [List.find?_cons_of_neg (by simpa using hkey), if_neg hcmp]

/-- Of several entries with one key the last is kept. -/
theorem getElem?_foldl_insert_last [DecidableEq α] {key : γ → α} {value : γ → β} (xs : List γ) (m : Map α β cmp)
    (k : α) :
    (xs.foldl (fun m x => m.insert (key x) (value x)) m)[k]? =
      ((xs.reverse.find? fun x => key x = k).map value).or m[k]? := by
  induction xs generalizing m with
  | nil => rfl
  | cons x xs ih =>
    rw [List.foldl_cons, ih, getElem?_insert_eq, List.reverse_cons, List.find?_append]
    rcases xs.reverse.find? fun x => key x = k with _ | y
    · by_cases hx : key x = k <;> simp [hx]
    · rfl

/-- Of several entries with one key the first is kept, where a key that is there already keeps its value. -/
theorem getElem?_foldl_insertIfNew [DecidableEq α] (key : γ → α) (value : γ → β) (xs : List γ) (m : Map α β cmp)
    (k : α) :
    (xs.foldl (fun m x => m.insertIfNew (key x) (value x)) m)[k]? =
      m[k]?.or ((xs.find? fun x => key x = k).map value) := by
  induction xs generalizing m with
  | nil => simp
  | cons x xs ih =>
    rw [List.foldl_cons, ih, Std.ExtTreeMap.getElem?_insertIfNew]
    simp only [Std.LawfulEqCmp.compare_eq_iff_eq, List.find?_cons]
    by_cases hkey : key x = k
    · by_cases hmem : k ∈ m <;> simp [hkey, hmem]
    · simp [hkey]

/-- The entries of a map, taken in one by one, make up the map. -/
theorem foldl_insertIfNew_toList [DecidableEq α] (m : Map α β cmp) :
    m.toList.foldl (fun m x => m.insertIfNew x.1 x.2) ∅ = m := by
  apply Std.ExtTreeMap.ext_getElem?
  intro k
  have hfold := getElem?_foldl_insertIfNew Prod.fst Prod.snd m.toList (∅ : Map α β cmp) k
  rw [Std.ExtTreeMap.getElem?_empty, Option.none_or] at hfold
  rw [hfold]
  rcases hfind : m.toList.find? fun x => x.1 = k with _ | x
  · rw [hfind, Option.map_none, eq_comm, Option.eq_none_iff_forall_ne_some]
    intro value hvalue
    have hmem := Std.ExtTreeMap.mem_toList_iff_getElem?_eq_some.mpr hvalue
    simpa using List.find?_eq_none.mp hfind _ hmem
  · rw [hfind]
    obtain rfl : x.1 = k := by simpa using List.find?_some hfind
    exact (Std.ExtTreeMap.mem_toList_iff_getElem?_eq_some.mp (List.mem_of_find?_eq_some hfind)).symm

variable [BEq α] [Std.LawfulBEqCmp cmp]

theorem insertMany_toList (m : Map α β cmp) : (∅ : Map α β cmp).insertMany m.toList = m := by
  apply Std.ExtTreeMap.ext_getElem?
  intro k
  rw [getElem?_insertMany_toList]
  simp

/-- The entries of a map in any order. -/
theorem insertMany_of_perm {entries : List (α × β)} {m : Map α β cmp} (h : entries.Perm m.toList) :
    (∅ : Map α β cmp).insertMany entries = m := by
  have hdistinct : entries.Pairwise fun a b => ¬ cmp a.1 b.1 = .eq := by
    refine (List.Perm.pairwise_iff (fun hab hba => hab ?_) h).mpr Std.ExtTreeMap.distinct_keys_toList
    rw [Std.LawfulEqCmp.compare_eq_iff_eq] at hba ⊢
    exact hba.symm
  apply Std.ExtTreeMap.ext_getElem?
  intro k
  cases hvalue : m[k]? with
  | some value =>
    have hmem : (k, value) ∈ entries := h.mem_iff.mpr (Std.ExtTreeMap.mem_toList_iff_getElem?_eq_some.mpr hvalue)
    exact Std.ExtTreeMap.getElem?_insertMany_list_of_mem Std.ReflCmp.compare_self hdistinct hmem
  | none =>
    have hkey : (entries.map Prod.fst).contains k = false := by
      rw [Bool.eq_false_iff]
      intro hk
      obtain ⟨a, ha, heq⟩ := List.contains_iff_exists_mem_beq.mp hk
      obtain rfl := Std.LawfulEqCmp.eq_of_compare (Std.LawfulBEqCmp.compare_eq_iff_beq.mpr heq : cmp k a = .eq)
      obtain ⟨entry, hentry, rfl⟩ := List.mem_map.mp ha
      rw [Std.ExtTreeMap.mem_toList_iff_getElem?_eq_some.mp (h.mem_iff.mp hentry)] at hvalue
      cases hvalue
    rw [Std.ExtTreeMap.getElem?_insertMany_list_of_contains_eq_false hkey]
    simp

/-- A reader that takes in entries one by one, as they were written, takes in the map. -/
theorem foldlM_toList {step : Map α β cmp → γ → Except ε (Map α β cmp)} {write : α × β → γ} (m : Map α β cmp)
    (hstep : ∀ read, ∀ x ∈ m.toList, step read (write x) = .ok (read.insert x.1 x.2)) :
    (m.toList.map write).foldlM step ∅ = .ok m := by
  have hrun : ∀ (xs : List (α × β)) (read : Map α β cmp),
      (∀ read, ∀ x ∈ xs, step read (write x) = .ok (read.insert x.1 x.2)) →
      (xs.map write).foldlM step read = .ok (read.insertMany xs) := by
    intro xs
    induction xs with
    | nil => simp [pure, Except.pure]
    | cons x xs ih =>
      intro read h
      rw [List.map_cons, List.foldlM_cons, h read x List.mem_cons_self, Std.ExtTreeMap.insertMany_cons]
      exact ih _ fun read y hy => h read y (List.mem_cons_of_mem _ hy)
  rw [hrun _ _ hstep, insertMany_toList]

theorem foldl_toList {step : Map α β cmp → γ → Map α β cmp} {write : α × β → γ} (m : Map α β cmp)
    (hstep : ∀ read, ∀ x ∈ m.toList, step read (write x) = read.insert x.1 x.2) : (m.toList.map write).foldl step ∅ = m := by
  have hrun := @foldlM_toList α β γ Unit _ _ _ _ _ (fun read x => pure (step read x)) write m
    fun read x hx => congrArg Except.ok (hstep read x hx)
  rw [List.foldlM_pure] at hrun
  exact Except.ok.inj hrun

end Kompli.Foundation
