import Kompli.ComplianceEngine.Ranges

/-! Collections of objects, whose items have fields with lists of values, and the views of one field of all items. -/
namespace Kompli.VariableResolution
open Ranges

structure ObjectItem where
  fields : ByteMap (List Bytes)

structure ObjectCollection where
  items : List ObjectItem := []
  complete : Bool := false

def EAGAIN : Int := 11
def ENODATA : Int := 61

/-- The values of a field; none where the item lacks it. -/
def ObjectItem.values (item : ObjectItem) (itemField : Bytes) : List Bytes := item.fields[itemField]?.getD []

structure FieldCursor where
  item : Nat := 0
  value : Nat := 0
  deriving DecidableEq

section Fields

variable (collection : ObjectCollection) (objectRef itemField : Bytes)

def missingField : Error :=
  { message := utf8 "Missing object field '" ++ itemField ++ utf8 "' in " ++ objectRef, code := EINVAL }

/-- Why there is nothing to be read, whatever the items have. -/
def refused : Option Error :=
  if objectRef = [] ∨ itemField = [] then
    some { message := utf8 "Object reference and field name must be nonempty", code := EINVAL }
  else if !collection.complete then
    some { message := utf8 "Incomplete object collection: " ++ objectRef, code := EAGAIN }
  else if collection.items = [] then
    some { message := utf8 "No items for object field resolution: " ++ objectRef, code := ENODATA }
  else none

/-- The cursor is never past the values of its item, nor past the end of the items. -/
def fieldNext (cursor : FieldCursor) : Next Bytes × FieldCursor :=
  match refused collection objectRef itemField with
  | some e => (.error e, cursor)
  | none =>
    match collection.items[cursor.item]? with
    | none => (.ok none, cursor)
    | some item =>
      match (item.values itemField)[cursor.value]? with
      | none => (.error (missingField objectRef itemField), cursor)
      | some value =>
        let following := cursor.value + 1
        (.ok (some value), if (item.values itemField).length = following then { item := cursor.item + 1 }
          else { cursor with value := following })

def objectFieldSource : Source FieldCursor Bytes := .ofStep (fieldNext collection objectRef itemField)

def objectFieldRange : Source (ViewState FieldCursor) Bytes := view (objectFieldSource collection objectRef itemField)

/-- What is read of the field and, if that is not all, the error after it. -/
def eager : List Bytes × Option Error :=
  match refused collection objectRef itemField with
  | some e => ([], some e)
  | none =>
    let having := collection.items.takeWhile (·.values itemField ≠ [])
    (having.flatMap (·.values itemField),
      if having.length = collection.items.length then none else some (missingField objectRef itemField))

def extractBody (values : List Bytes) : Except Error Bytes → Except Error (List Bytes) ⊕ List Bytes
  | .error e => .inl (.error e)
  | .ok value => .inr (values ++ [value])

def extractObjectFields (fuel : Nat) : Option (Except Error (List Bytes)) :=
  (forEach (objectFieldRange collection objectRef itemField) extractBody fuel { source := {} } []).map fun
    | (.inl result, _) => result
    | (.inr values, _) => .ok values

end Fields

section Reading

variable {collection : ObjectCollection} {objectRef itemField : Bytes}

theorem objectFieldSource_returns (cursor : FieldCursor) : (objectFieldSource collection objectRef itemField).Returns cursor
    (fieldNext collection objectRef itemField cursor).1 (fieldNext collection objectRef itemField cursor).2 :=
  ⟨0, rfl⟩

/-- One item is read from where the cursor stands in it. -/
theorem item_run (hrefused : refused collection objectRef itemField = none) {i : Nat} {item : ObjectItem}
    (hitem : collection.items[i]? = some item) {before rest : List Bytes} (hrest : rest ≠ [])
    (hvalues : item.values itemField = before ++ rest) :
    (objectFieldSource collection objectRef itemField).Run { item := i, value := before.length } rest { item := i + 1 } := by
  induction rest generalizing before with
  | nil => exact absurd rfl hrest
  | cons value rest ih =>
    have hvalue : (item.values itemField)[before.length]? = some value := by
      rw [hvalues, List.getElem?_append_right (le_refl _), Nat.sub_self, List.getElem?_cons_zero]
    have hreturns := @objectFieldSource_returns collection objectRef itemField { item := i, value := before.length }
    rw [fieldNext, hrefused] at hreturns
    dsimp only at hreturns
    rw [hitem] at hreturns
    dsimp only at hreturns
    rw [hvalue] at hreturns
    cases rest with
    | nil =>
      have hlength : (item.values itemField).length = before.length + 1 := by rw [hvalues, List.length_append]; rfl
      dsimp only at hreturns
      rw [if_pos hlength] at hreturns
      exact .cons hreturns (.nil _)
    | cons next rest =>
      have hlength : (item.values itemField).length ≠ before.length + 1 := by
        rw [hvalues, List.length_append, List.length_cons, List.length_cons]
        omega
      dsimp only at hreturns
      rw [if_neg hlength] at hreturns
      have hnext := @ih (before ++ [value]) (List.cons_ne_nil next rest) (by rw [hvalues, List.append_cons])
      rw [List.length_append, List.length_singleton] at hnext
      exact .cons hreturns hnext

theorem items_run (hrefused : refused collection objectRef itemField = none) {done rest : List ObjectItem}
    (hitems : collection.items = done ++ rest) : (objectFieldSource collection objectRef itemField).Run
      { item := done.length } ((rest.takeWhile (·.values itemField ≠ [])).flatMap (·.values itemField))
      { item := done.length + (rest.takeWhile (·.values itemField ≠ [])).length } := by
  induction rest generalizing done with
  | nil => exact .nil _
  | cons item rest ih =>
    by_cases hvalues : item.values itemField = []
    · rw [List.takeWhile_cons_of_neg (by simpa using hvalues)]
      exact .nil _
    · have hitem : collection.items[done.length]? = some item := by
        rw [hitems, List.getElem?_append_right (le_refl _), Nat.sub_self, List.getElem?_cons_zero]
      have hrest := @ih (done ++ [item]) (by rw [hitems, List.append_cons])
      rw [List.length_append, List.length_singleton, Nat.add_assoc, Nat.add_comm 1] at hrest
      rw [List.takeWhile_cons_of_pos (by simpa using hvalues), List.flatMap_cons, List.length_cons]
      exact (item_run hrefused hitem hvalues (List.nil_append _).symm).append hrest

/-- Where the reading of the items stops: at the end, or at an item that lacks the field. -/
theorem items_stop (hrefused : refused collection objectRef itemField = none) {having : List ObjectItem}
    (hhaving : collection.items.takeWhile (·.values itemField ≠ []) = having) :
    fieldNext collection objectRef itemField { item := having.length } =
      (if having.length = collection.items.length then .ok none else .error (missingField objectRef itemField),
        { item := having.length }) := by
  have hsplit := List.takeWhile_append_dropWhile (p := (·.values itemField ≠ [])) (l := collection.items)
  rw [hhaving] at hsplit
  rw [fieldNext, hrefused]
  dsimp only
  cases hrest : collection.items.dropWhile (·.values itemField ≠ []) with
  | nil =>
    rw [hrest, List.append_nil] at hsplit
    rw [← hsplit, if_pos rfl, List.getElem?_eq_none (le_refl _)]
  | cons item rest =>
    have hlacks : item.values itemField = [] := by
      have hhead := List.head?_dropWhile_not (·.values itemField ≠ []) collection.items
      rw [hrest] at hhead
      simpa using hhead
    rw [hrest] at hsplit
    have hitem : collection.items[having.length]? = some item := by
      rw [← hsplit, List.getElem?_append_right (le_refl _), Nat.sub_self, List.getElem?_cons_zero]
    have hlength : having.length ≠ collection.items.length := by
      rw [← hsplit, List.length_append, List.length_cons]
      omega
    rw [hitem, if_neg hlength]
    dsimp only
    rw [hlacks, List.getElem?_nil]

/-- The view of a field is read as its eager meaning says. -/
theorem objectFieldRange_run : ∃ between next after,
    (objectFieldRange collection objectRef itemField).Run { source := {} } (eager collection objectRef itemField).1 between ∧
      (objectFieldRange collection objectRef itemField).Returns between next after ∧ stops next = true ∧
        current next = (eager collection objectRef itemField).2.map .error := by
  cases hrefused : refused collection objectRef itemField with
  | some e =>
    have hnext : fieldNext collection objectRef itemField {} = (.error e, {}) := by rw [fieldNext, hrefused]
    have hreturns := @objectFieldSource_returns collection objectRef itemField {}
    rw [hnext] at hreturns
    rw [eager, hrefused]
    exact ⟨_, _, _, .nil _, view_returns hreturns, rfl, rfl⟩
  | none =>
    have hrun := @items_run collection objectRef itemField hrefused [] collection.items rfl
    have hreturns := @objectFieldSource_returns collection objectRef itemField
      { item := (collection.items.takeWhile (·.values itemField ≠ [])).length }
    rw [items_stop hrefused rfl] at hreturns
    rw [List.length_nil, Nat.zero_add] at hrun
    rw [eager, hrefused]
    refine ⟨_, _, _, view_run hrun, view_returns hreturns, ?_, ?_⟩ <;> dsimp only <;> split_ifs <;> rfl

theorem extractObjectFields_eager : ∃ fuel, extractObjectFields collection objectRef itemField fuel =
    some (match eager collection objectRef itemField with
      | (values, none) => .ok values
      | (_, some e) => .error e) := by
  obtain ⟨between, next, after, hrun, hreturns, -, hcurrent⟩ := @objectFieldRange_run collection objectRef itemField
  generalize eager collection objectRef itemField = found at hrun hcurrent ⊢
  obtain ⟨values, stopped⟩ := found
  have hgathered : values.foldl (fun gathered value => gathered ++ [value]) [] = values := by
    have h := @foldl_concat _ values _ id []
    rwa [List.map_id, List.nil_append] at h
  have hend : ∃ result, Loops (objectFieldRange collection objectRef itemField) extractBody between
      (values.foldl (fun gathered value => gathered ++ [value]) []) result after ∧
        result = stopped.elim (.inr values) fun e => .inl (.error e) := by
    rw [hgathered]
    cases stopped with
    | none => exact ⟨_, .ends hreturns hcurrent, rfl⟩
    | some e => exact ⟨_, .left hreturns hcurrent rfl, rfl⟩
  obtain ⟨result, hloop, hresult⟩ := hend
  obtain ⟨fuel, hfuel⟩ := Loops.run (fun gathered value => gathered ++ [value]) hrun (fun _ _ => rfl) hloop
  refine ⟨fuel, ?_⟩
  rw [extractObjectFields, hfuel, hresult]
  cases stopped <;> rfl

end Reading
/-- A collection that is not complete is not read, although its item has the field. -/
def incomplete : ObjectCollection :=
  { items := [{ fields := (∅ : ByteMap (List Bytes)).insert (utf8 "value") [utf8 "x"] }], complete := false }

theorem incomplete_refused : (∀ item ∈ incomplete.items, item.values (utf8 "value") = [utf8 "x"]) ∧
    ∃ fuel after, elements (objectFieldRange incomplete (utf8 "object:1") (utf8 "value")) fuel { source := {} } =
      some ([.error { message := utf8 "Incomplete object collection: object:1", code := EAGAIN }], after) := by
  constructor
  · intro item hitem
    rw [List.mem_singleton.mp hitem]
    simp [ObjectItem.values]
  · exact ⟨3, _, rfl⟩

/-- The view of a field gives the values that collecting all of them would give, then the error if there is one, then its
end for good. `unique` leaves out what came before and `count` counts; of a source they take no more than it has. -/
theorem views_eager :
    (∀ (collection : ObjectCollection) (objectRef itemField : Bytes), ∃ fuel after,
      elements (objectFieldRange collection objectRef itemField) fuel { source := {} } =
        some ((eager collection objectRef itemField).1.map .ok ++
          (eager collection objectRef itemField).2.toList.map .error, after) ∧
      ∀ more, (objectFieldRange collection objectRef itemField).next more after = some (.ok none, after)) ∧
    ∀ (σ α : Type) [DecidableEq α] (src : Source σ α) (state between after : ViewState σ) (values : List α) (next : Next α),
      (view src).Run state values between → (view src).Returns between next after →
      (stops next = true →
        (∃ fuel last, elements (unique src) fuel (uniqueOf state) =
            some (values.eraseDups.map .ok ++ (current next).toList, last) ∧
          last.source.source = after ∧ ∀ more, (unique src).next more last = some (.ok none, last)) ∧
        (values.length < 2 ^ 64 →
          ∃ fuel, count src fuel state = some (next.map fun _ => UInt64.ofNat values.length, after))) ∧
      ∀ value, next = .ok (some value) →
        (value ∉ values → ∃ last, (unique src).Run (uniqueOf state) (values ++ [value]).eraseDups last ∧
          last.source.source = after) ∧
        (values.length = 2 ^ 64 - 1 → ∃ fuel, count src fuel state =
          some (.error { message := utf8 "Range count out of range", code := StringTools.ERANGE }, after)) := by
  constructor
  · intro collection objectRef itemField
    obtain ⟨between, next, after, hrun, hreturns, hstops, hcurrent⟩ := @objectFieldRange_run collection objectRef itemField
    obtain ⟨fuel, hfuel⟩ := elements_view hrun hreturns hstops
    have hlist : (current next).toList = (eager collection objectRef itemField).2.toList.map .error := by
      rw [hcurrent]
      cases (eager collection objectRef itemField).2 <;> rfl
    rw [hlist] at hfuel
    exact ⟨fuel, after, hfuel, view_of_stopped (stopped_of_returns hreturns hstops)⟩
  · intro σ α _ src state between after values next hrun hreturns
    refine ⟨fun hstops => ⟨?_, fun hlength => count_stops hrun hreturns hlength hstops⟩, ?_⟩
    · obtain ⟨before, last, hvalues, hlast, hsource⟩ := unique_run hrun [] fun known _ =>
        ⟨_, unique_stops known hreturns hstops, rfl⟩
      rw [firsts_nil] at hvalues
      obtain ⟨fuel, hfuel⟩ := elements_view (view_run hvalues) (view_returns hlast) hstops
      exact ⟨fuel, _, hfuel, hsource, view_of_stopped (stopped_of_returns (view_returns hlast) hstops)⟩
    · rintro value rfl
      refine ⟨fun hnew => ?_, fun hlength => count_overflow hrun hreturns hlength⟩
      obtain ⟨before, last, hvalues, hlast, hsource⟩ := unique_run hrun [] fun known hknown =>
        ⟨_, unique_new hreturns fun hmem => (hknown value hmem).elim List.not_mem_nil hnew, rfl⟩
      rw [eraseDups_concat hnew, ← firsts_nil]
      exact ⟨_, (view_run hvalues).append (.cons (view_returns hlast) (.nil _)), hsource⟩

end Kompli.VariableResolution
