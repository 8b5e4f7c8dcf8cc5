import Kompli.Parson.Build
import Kompli.Parson.RoundTrip

/-! What the parser returns can be written and read back, but for nesting too deep. -/
namespace Kompli.Parson
open Ascii

/-- The C library reads back as it was a number that it read before. -/
def NumberFormat.RereadsItself (num : NumberFormat) : Prop :=
  ∀ s bits length, num.read s = some (bits, length) → isNumberInvalid bits = false → num.Rereads bits

section Parser

variable {num : NumberFormat}

def ReadsWellFormed (num : NumberFormat) (parse : ValueParser) : Prop :=
  ∀ s v rest, parse s = some (v, rest) → WellFormed num v

private theorem parseItems_wellFormed {parse : ValueParser} (hparse : ReadsWellFormed num parse) {v : JsonValue} {rest : Bytes}
    (fuel : Nat) :
    ∀ (items : List JsonValue) (s : Bytes), (∀ item ∈ items, WellFormed num item) →
      parseItems parse fuel items s = some (v, rest) → WellFormed num v := by
  induction fuel with
  | zero =>
    intro items s _ h
    cases h
  | succ fuel ih =>
    intro items s hitems h
    rw [parseItems] at h
    obtain ⟨⟨value, t⟩, hvalue, h⟩ := Option.bind_eq_some_iff.mp h
    dsimp only at h
    have hall : ∀ item ∈ items ++ [value], WellFormed num item := by
      intro item hitem
      rcases List.mem_append.mp hitem with hold | hnew
      · exact hitems item hold
      · rw [List.mem_singleton.mp hnew]
        exact hparse s value t hvalue
    split at h
    · cases h
    · split at h
      · exact ih _ _ hall h
      · split at h
        · cases h
          exact .array hall
        · cases h

private theorem parseArrayValue_wellFormed {parse : ValueParser} (hparse : ReadsWellFormed num parse) {s rest : Bytes}
    {v : JsonValue} (h : parseArrayValue parse s = some (v, rest)) : WellFormed num v := by
  rw [parseArrayValue] at h
  split at h
  · cases h
  · split at h
    · cases h
      exact .array fun item hitem => absurd hitem List.not_mem_nil
    · exact parseItems_wellFormed hparse _ _ _ (fun item hitem => absurd hitem List.not_mem_nil) h

private theorem new_name {members : List (Bytes × JsonValue)} {name : Bytes}
    (h : ¬ (JsonValue.getValue members name).isSome = true) : name ∉ members.map Prod.fst := by
  rw [Bool.not_eq_true, Option.isSome_eq_false_iff, Option.isNone_iff_eq_none, JsonValue.getValue,
    List.lookup_eq_none_iff] at h
  intro hmem
  obtain ⟨m, hm, rfl⟩ := List.mem_map.mp hmem
  simpa using h m hm

/-- The members read so far are members of an object as the parser returns it. -/
private theorem parseMembers_wellFormed {parse : ValueParser} (hparse : ReadsWellFormed num parse) {v : JsonValue} {rest : Bytes}
    (fuel : Nat) :
    ∀ (members : List (Bytes × JsonValue)) (s : Bytes), WellFormed num (.object members) →
      parseMembers parse fuel members s = some (v, rest) → WellFormed num v := by
  induction fuel with
  | zero =>
    intro members s _ h
    cases h
  | succ fuel ih =>
    intro members s hmembers h
    rw [parseMembers] at h
    obtain ⟨⟨name, t⟩, -, h⟩ := Option.bind_eq_some_iff.mp h
    dsimp only at h
    split at h
    · cases h
    · rename_i hname
      rw [Decidable.not_not] at hname
      split at h
      · cases h
      · split at h
        · cases h
        · obtain ⟨⟨value, u⟩, hvalue, h⟩ := Option.bind_eq_some_iff.mp h
          dsimp only at h
          split at h
          · cases h
          · rename_i hnew
            have hall : WellFormed num (.object (members ++ [(name, value)])) := by
              cases hmembers with
              | object hvalues hnodup hnul =>
                refine .object (fun m hm => ?_) ?_ fun m hm => ?_
                · rcases List.mem_append.mp hm with hold | hlast
                  · exact hvalues m hold
                  · rw [List.mem_singleton.mp hlast]
                    exact hparse _ value u hvalue
                · rw [List.map_append, List.map_singleton, List.nodup_append]
                  refine ⟨hnodup, by simp, fun a ha b hb => ?_⟩
                  rw [List.mem_singleton.mp hb]
                  rintro rfl
                  exact new_name hnew ha
                · rcases List.mem_append.mp hm with hold | hlast
                  · exact hnul m hold
                  · rw [List.mem_singleton.mp hlast]
                    exact hname
            split at h
            · cases h
            · split at h
              · exact ih _ _ hall h
              · split at h
                · cases h
                  exact hall
                · cases h

private theorem parseObjectValue_wellFormed {parse : ValueParser} (hparse : ReadsWellFormed num parse) {s rest : Bytes}
    {v : JsonValue} (h : parseObjectValue parse s = some (v, rest)) : WellFormed num v := by
  have hnil : WellFormed num (.object []) :=
    .object (fun m hm => absurd hm List.not_mem_nil) List.nodup_nil fun m hm => absurd hm List.not_mem_nil
  rw [parseObjectValue] at h
  split at h
  · cases h
  · split at h
    · cases h
      exact hnil
    · exact parseMembers_wellFormed hparse _ _ _ hnil h

private theorem parseNumberValue_wellFormed (hnum : num.RereadsItself) : ReadsWellFormed num (parseNumberValue num) := by
  intro s v rest h
  obtain ⟨⟨number, length⟩, hread, h⟩ := Option.bind_eq_some_iff.mp h
  dsimp only at h
  split at h
  · rename_i hvalid
    cases h
    exact .number (hnum s number length hread (by simpa using hvalid.2))
  · cases h

private theorem parseStringValue_wellFormed : ReadsWellFormed num parseStringValue := by
  intro s v rest h
  rw [parseStringValue] at h
  obtain ⟨⟨value, t⟩, -, h⟩ := Option.map_eq_some_iff.mp h
  cases h
  exact .string value

private theorem parseBooleanValue_wellFormed : ReadsWellFormed num parseBooleanValue := by
  intro s v rest h
  unfold parseBooleanValue at h
  split at h
  · cases h
    exact .boolean true
  · split at h
    · cases h
      exact .boolean false
    · cases h

private theorem parseNullValue_wellFormed : ReadsWellFormed num parseNullValue := by
  intro s v rest h
  unfold parseNullValue at h
  split at h
  · cases h
    exact .null
  · cases h

theorem parseValue_wellFormed (hnum : num.RereadsItself) (room : Nat) :
    ReadsWellFormed num (parseValue num room) := by
  induction room with
  | zero =>
    intro s v rest h
    cases h
  | succ room ih =>
    intro s v rest h
    rw [parseValue] at h
    split at h
    · cases h
    · split_ifs at h
      · exact parseObjectValue_wellFormed ih h
      · exact parseArrayValue_wellFormed ih h
      · exact parseStringValue_wellFormed _ v rest h
      · exact parseBooleanValue_wellFormed _ v rest h
      · exact parseNumberValue_wellFormed hnum _ v rest h
      · exact parseNullValue_wellFormed _ v rest h

theorem jsonParseString_wellFormed (hnum : num.RereadsItself) {string : Bytes} {v : JsonValue}
    (h : jsonParseString num string = some v) : WellFormed num v := by
  rw [jsonParseString] at h
  obtain ⟨⟨value, rest⟩, hvalue, h⟩ := Option.map_eq_some_iff.mp h
  cases h
  exact parseValue_wellFormed hnum _ _ _ _ hvalue

end Parser

section Members

/-- What is found in an object is in it. -/
theorem mem_of_getValue {members : List (Bytes × JsonValue)} {name : Bytes} {v : JsonValue}
    (h : JsonValue.getValue members name = some v) : (name, v) ∈ members := by
  obtain ⟨before, after, rfl, -⟩ := List.lookup_eq_some_iff.mp h
  exact List.mem_append_right _ List.mem_cons_self

theorem WellFormed.getValue {num : NumberFormat} {members : List (Bytes × JsonValue)} {name : Bytes}
    {v : JsonValue} (h : WellFormed num (.object members)) (hv : JsonValue.getValue members name = some v) :
    WellFormed num v := by
  cases h with
  | object h _ _ => exact h _ (mem_of_getValue hv)

theorem WellFormed.getObject {num : NumberFormat} {members inner : List (Bytes × JsonValue)} {name : Bytes}
    (h : WellFormed num (.object members)) (hinner : Parson.getObject members name = some inner) :
    WellFormed num (.object inner) := by
  unfold Parson.getObject at hinner
  split at hinner
  · rename_i hvalue
    cases hinner
    exact h.getValue hvalue
  · cases hinner

private theorem mem_setMember {members : List (Bytes × JsonValue)} {name : Bytes} {v : JsonValue}
    {m : Bytes × JsonValue} (hm : m ∈ setMember name v members) : m ∈ members ∨ m = (name, v) := by
  induction members with
  | nil => exact Or.inr (List.mem_singleton.mp hm)
  | cons first members ih =>
    rw [setMember] at hm
    split at hm
    · rename_i hname
      rcases List.mem_cons.mp hm with rfl | hrest
      · exact Or.inr (by rw [hname])
      · exact Or.inl (List.mem_cons_of_mem _ hrest)
    · rcases List.mem_cons.mp hm with rfl | hrest
      · exact Or.inl List.mem_cons_self
      · exact (ih hrest).imp (List.mem_cons_of_mem _) id

private theorem names_setMember {members : List (Bytes × JsonValue)} {name : Bytes} (h : name ∈ members.map Prod.fst)
    (v : JsonValue) : (setMember name v members).map Prod.fst = members.map Prod.fst := by
  induction members with
  | nil => cases h
  | cons first members ih =>
    rw [setMember]
    split
    · rfl
    · rename_i hname
      rcases List.mem_cons.mp h with heq | hrest
      · exact absurd heq.symm hname
      · rw [List.map_cons, List.map_cons, ih hrest]

/-- Setting a member keeps the names different. -/
theorem WellFormed.setMember {num : NumberFormat} {members : List (Bytes × JsonValue)} {name : Bytes} {v : JsonValue}
    (h : WellFormed num (.object members)) (hname : NulFree name) (hv : WellFormed num v) :
    WellFormed num (.object (setMember name v members)) := by
  cases h with
  | object hvalues hnodup hnul =>
    refine .object (fun m hm => ?_) ?_ fun m hm => ?_
    · rcases mem_setMember hm with hold | rfl
      · exact hvalues m hold
      · exact hv
    · by_cases hmem : name ∈ members.map Prod.fst
      · rwa [names_setMember hmem]
      · rw [setMember_of_new hmem, List.map_append, List.nodup_append]
        refine ⟨hnodup, by simp, fun a ha b hb => ?_⟩
        rintro rfl
        have heq : a = name := List.mem_singleton.mp hb
        exact hmem (heq ▸ ha)
    · rcases mem_setMember hm with hold | rfl
      · exact hnul m hold
      · exact hname

end Members

end Kompli.Parson
