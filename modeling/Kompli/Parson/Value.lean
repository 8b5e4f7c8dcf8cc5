import Kompli.Foundation.Bytes

/-! JSON values as parson keeps them: an object is the list of its members in
the order in which they were added, and a number is the bits of a C double. -/
namespace Kompli

inductive JsonValue where
  | null
  | string (value : Bytes)
  | number (bits : UInt64)
  | object (members : List (Bytes × JsonValue))
  | array (items : List JsonValue)
  | boolean (value : Bool)

namespace JsonValue

/-- Induction with the hypothesis at every value inside. -/
@[elab_as_elim]
theorem ind {P : JsonValue → Prop} (null : P .null) (string : ∀ b, P (.string b))
    (number : ∀ n, P (.number n)) (object : ∀ ms, (∀ m ∈ ms, P m.2) → P (.object ms))
    (array : ∀ xs, (∀ x ∈ xs, P x) → P (.array xs)) (boolean : ∀ b, P (.boolean b))
    (v : JsonValue) : P v :=
  JsonValue.rec (motive_1 := P) (motive_2 := fun ms => ∀ m ∈ ms, P m.2)
    (motive_3 := fun xs => ∀ x ∈ xs, P x) (motive_4 := fun m => P m.2)
    null string number object array boolean
    (fun _ h => absurd h List.not_mem_nil) (fun _ _ hm hms => List.forall_mem_cons.mpr ⟨hm, hms⟩)
    (fun _ h => absurd h List.not_mem_nil) (fun _ _ hx hxs => List.forall_mem_cons.mpr ⟨hx, hxs⟩)
    (fun _ _ h => h) v

/-- `json_object_get_value`: the member of that name. -/
def getValue (members : List (Bytes × JsonValue)) (name : Bytes) : Option JsonValue :=
  members.lookup name

/-- `json_object_get_string`, as the C string its callers read. -/
def getString (members : List (Bytes × JsonValue)) (name : Bytes) : Option Bytes :=
  match getValue members name with
  | some (.string value) => some (cString value)
  | _ => none

end JsonValue
end Kompli
