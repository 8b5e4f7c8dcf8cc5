import Kompli.Parson.Utf8
import Kompli.Parson.Value

/-! Building values. Unlike the parser, the functions that set strings refuse what is not UTF-8. -/
namespace Kompli.Parson

abbrev Members := List (Bytes × JsonValue)

/-- Overwrite the member of that name where it is, or add one at the end. -/
def setMember (name : Bytes) (value : JsonValue) : Members → Members
  | [] => [(name, value)]
  | (other, old) :: members =>
    if other = name then (other, value) :: members else (other, old) :: setMember name value members

/-- `json_object_set_value`. -/
def objectSetValue (members : Members) (name : Bytes) (value : JsonValue) : Members :=
  setMember (cString name) value members

/-- `json_value_init_string`. -/
def initString (string : Bytes) : Option JsonValue :=
  if isValidUtf8 (cString string) then some (.string (cString string)) else none

/-- `json_object_set_string`. -/
def objectSetString (members : Members) (name string : Bytes) : Option Members :=
  (initString string).map (objectSetValue members name)

/-- `json_object_get_object` and `json_object_get_array`. -/
def getObject (members : Members) (name : Bytes) : Option Members :=
  match JsonValue.getValue members name with
  | some (.object inner) => some inner
  | _ => none

def getArray (members : Members) (name : Bytes) : Option (List JsonValue) :=
  match JsonValue.getValue members name with
  | some (.array items) => some items
  | _ => none

theorem getValue_setMember (name : Bytes) (value : JsonValue) (members : Members) (other : Bytes) :
    JsonValue.getValue (setMember name value members) other =
      if name = other then some value else JsonValue.getValue members other := by
  induction members with
  | nil =>
    by_cases hother : name = other
    · simp [setMember, JsonValue.getValue, hother]
    · simp [setMember, JsonValue.getValue, hother, List.lookup_cons, beq_eq_false_iff_ne.mpr (Ne.symm hother)]
  | cons m members ih =>
    obtain ⟨first, old⟩ := m
    unfold JsonValue.getValue at ih ⊢
    rw [setMember]
    by_cases hm : first = name
    · subst hm
      by_cases hother : first = other
      · simp [hother]
      · simp [hother, List.lookup_cons, beq_eq_false_iff_ne.mpr (Ne.symm hother)]
    · rw [if_neg hm, List.lookup_cons, List.lookup_cons, ih]
      by_cases hother : name = other
      · simp [hother, beq_eq_false_iff_ne.mpr (fun h : other = first => hm (h.symm.trans hother.symm))]
      · simp [hother]

theorem getValue_objectSetValue {members : Members} {name other : Bytes} {value : JsonValue} :
    JsonValue.getValue (objectSetValue members name value) other =
      if cString name = other then some value else JsonValue.getValue members other :=
  getValue_setMember (cString name) value members other

theorem setMember_of_new {name : Bytes} {members : Members} (h : name ∉ members.map Prod.fst)
    (value : JsonValue) : setMember name value members = members ++ [(name, value)] := by
  induction members with
  | nil => rfl
  | cons m members ih =>
    have hne : m.1 ≠ name := by
      rintro rfl
      exact h List.mem_cons_self
    have hrest : name ∉ members.map Prod.fst := fun hmem => h (List.mem_cons_of_mem _ hmem)
    rw [setMember, if_neg hne, ih hrest]
    rfl

/-- Setting members of different names one after the other. -/
theorem foldl_objectSetValue {new : Members} :
    ∀ members : Members, (∀ m ∈ new, NulFree m.1) → ((members ++ new).map Prod.fst).Nodup →
      new.foldl (fun members m => objectSetValue members m.1 m.2) members = members ++ new := by
  induction new with
  | nil => simp
  | cons m new ih =>
    intro members hnul hnodup
    have hname : m.1 ∉ members.map Prod.fst := by
      rw [List.map_append, List.map_cons, List.nodup_append] at hnodup
      intro hmem
      exact hnodup.2.2 m.1 hmem m.1 List.mem_cons_self rfl
    rw [List.foldl_cons, objectSetValue, cString_of_nulFree (hnul m List.mem_cons_self),
      setMember_of_new hname, ih _ (fun x hx => hnul x (List.mem_cons_of_mem _ hx)) (by simpa using hnodup)]
    simp

end Kompli.Parson
