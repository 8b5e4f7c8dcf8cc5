import Kompli.ComplianceEngine.EmbeddedNul
import Kompli.ComplianceEngine.Evaluator
import Kompli.Foundation.MapEntries

/-! What a procedure is given for the arguments of a rule, where some stand for parameters. -/
namespace Kompli.Evaluator
open Foundation Parson JsonWrapper

abbrev dollar : UInt8 := 36

/-- What an argument stands for. -/
def argumentOf (parameters : ParameterMap) : JsonValue → Except Error Bytes
  | .string (36 :: name) =>
    match parameters[name]? with
    | some substitution => .ok substitution
    | none => .error { message := utf8 "Unknown parameter", code := EINVAL }
  | .string text => .ok text
  | _ => .error { message := utf8 "Argument type is not a string", code := EINVAL }

section Substitution

variable {parameters : ParameterMap}

theorem argumentOf_plain {text : Bytes} (h : text.head? ≠ some dollar) : argumentOf parameters (.string text) = .ok text := by
  cases text with
  | nil => rfl
  | cons c text =>
    rw [argumentOf]
    rintro name heq
    cases heq
    exact h rfl

theorem argumentOf_reference (name : Bytes) :
    argumentOf parameters (.string (dollar :: name)) =
      match parameters[name]? with
      | some substitution => .ok substitution
      | none => .error { message := utf8 "Unknown parameter", code := EINVAL } := rfl

/-- Where an argument stands for something. -/
theorem argumentOf_ok_iff {value : JsonValue} : (∃ argument, argumentOf parameters value = .ok argument) ↔
    ∃ text, value = .string text ∧ ∀ name, text = dollar :: name → name ∈ parameters := by
  cases value with
  | string text =>
    by_cases hdollar : text.head? = some dollar
    · obtain ⟨name, rfl⟩ := List.head?_eq_some_iff.mp hdollar
      rw [argumentOf_reference]
      constructor
      · rintro ⟨argument, hargument⟩
        refine ⟨dollar :: name, rfl, fun other hother => ?_⟩
        cases hother
        rw [Std.ExtTreeMap.mem_iff_isSome_getElem?]
        cases hfound : parameters[name]? with
        | none =>
          rw [hfound] at hargument
          cases hargument
        | some substitution => rfl
      · rintro ⟨text, htext, hmem⟩
        cases htext
        obtain ⟨substitution, hfound⟩ := Option.isSome_iff_exists.mp (Std.ExtTreeMap.mem_iff_isSome_getElem?.mp (hmem name rfl))
        exact ⟨substitution, by rw [hfound]⟩
    · refine iff_of_true ⟨text, argumentOf_plain hdollar⟩ ⟨text, rfl, fun name hname => ?_⟩
      rw [hname] at hdollar
      exact absurd rfl hdollar
  | null => exact iff_of_false nofun nofun
  | number bits => exact iff_of_false nofun nofun
  | object members => exact iff_of_false nofun nofun
  | array items => exact iff_of_false nofun nofun
  | boolean b => exact iff_of_false nofun nofun

/-- A new argument is inserted as what it stands for. -/
theorem insertArgument_new {read : ParameterMap} {name : Bytes} {value : JsonValue} (hname : NulFree name)
    (hvalue : HoldsNoNul value) (hnew : read[name]? = none) :
    insertArgument parameters read (name, value) = (argumentOf parameters value).map (read.insert name) := by
  cases value with
  | string text =>
    have htext : cString text = text := by
      cases hvalue with
      | string h => exact cString_of_nulFree h
    rw [insertArgument]
    dsimp only
    rw [cString_of_nulFree hname, htext, hnew, Option.getD_none]
    by_cases hdollar : text.head? = some dollar
    · obtain ⟨reference, rfl⟩ := List.head?_eq_some_iff.mp hdollar
      rw [argumentOf_reference]
      change (match parameters[reference]? with
        | some substitution => Except.ok (read.insert name substitution)
        | none => Except.error _) = _
      cases parameters[reference]? with
      | none => rfl
      | some substitution => rfl
    · rw [argumentOf_plain hdollar]
      split
      · exact absurd rfl hdollar
      · rfl
  | null => rfl
  | number bits => rfl
  | object members => rfl
  | array items => rfl
  | boolean b => rfl

private theorem insert_new {members : List (Bytes × JsonValue)} {read : ParameterMap} {name argument : Bytes}
    (hname : name ∉ members.map Prod.fst) (hnew : ∀ m ∈ members, read[m.1]? = none) :
    ∀ m ∈ members, (read.insert name argument)[m.1]? = none := by
  intro m hm
  have hne : name ≠ m.1 := by
    rintro rfl
    exact hname (List.mem_map_of_mem hm)
  rw [getElem?_insert_eq, if_neg hne]
  exact hnew m hm

theorem insertArguments_succeeds {members : List (Bytes × JsonValue)} {read : ParameterMap}
    (hvalues : ∀ m ∈ members, NulFree m.1 ∧ HoldsNoNul m.2) (hnodup : (members.map Prod.fst).Nodup)
    (hnew : ∀ m ∈ members, read[m.1]? = none) (h : ∀ m ∈ members, ∃ argument, argumentOf parameters m.2 = .ok argument) :
    ∃ arguments, members.foldlM (insertArgument parameters) read = .ok arguments := by
  induction members generalizing read with
  | nil => exact ⟨read, rfl⟩
  | cons m members ih =>
    obtain ⟨name, value⟩ := m
    rw [List.map_cons, List.nodup_cons] at hnodup
    obtain ⟨⟨hname, hvalue⟩, hrest⟩ := List.forall_mem_cons.mp hvalues
    obtain ⟨⟨argument, hargument⟩, harguments⟩ := List.forall_mem_cons.mp h
    rw [List.foldlM_cons, insertArgument_new hname hvalue (hnew _ List.mem_cons_self), hargument]
    exact ih hrest hnodup.2 (insert_new hnodup.1 fun m hm => hnew m (List.mem_cons_of_mem _ hm)) harguments

/-- The arguments are what the members stand for, each under its name, beside what was read before. -/
theorem insertArguments_ok_iff {members : List (Bytes × JsonValue)} {read arguments : ParameterMap}
    (hvalues : ∀ m ∈ members, NulFree m.1 ∧ HoldsNoNul m.2) (hnodup : (members.map Prod.fst).Nodup)
    (hnew : ∀ m ∈ members, read[m.1]? = none) :
    members.foldlM (insertArgument parameters) read = .ok arguments ↔
      (∀ m ∈ members, ∃ argument, argumentOf parameters m.2 = .ok argument ∧ arguments[m.1]? = some argument) ∧
        ∀ name, name ∉ members.map Prod.fst → arguments[name]? = read[name]? := by
  induction members generalizing read with
  | nil =>
    rw [List.foldlM_nil]
    constructor
    · intro h
      cases h
      exact ⟨nofun, fun _ _ => rfl⟩
    · intro h
      exact congrArg Except.ok (Std.ExtTreeMap.ext_getElem? fun name => (h.2 name List.not_mem_nil).symm)
  | cons m members ih =>
    obtain ⟨name, value⟩ := m
    rw [List.map_cons, List.nodup_cons] at hnodup
    obtain ⟨⟨hname, hvalue⟩, hrest⟩ := List.forall_mem_cons.mp hvalues
    rw [List.foldlM_cons, insertArgument_new hname hvalue (hnew _ List.mem_cons_self), List.forall_mem_cons, List.map_cons]
    cases hargument : argumentOf parameters value with
    | error e =>
      constructor
      · intro h
        cases h
      · rintro ⟨⟨⟨argument, h, -⟩, -⟩, -⟩
        cases h
    | ok argument =>
      have hinsert : ∀ m ∈ members, (read.insert name argument)[m.1]? = none :=
        insert_new hnodup.1 fun m hm => hnew m (List.mem_cons_of_mem _ hm)
      refine (ih hrest hnodup.2 hinsert).trans ?_
      constructor
      · rintro ⟨hmembers, hothers⟩
        refine ⟨⟨⟨argument, rfl, ?_⟩, hmembers⟩, fun other hother => ?_⟩
        · rw [hothers name hnodup.1, getElem?_insert_eq, if_pos rfl]
        · obtain ⟨hne, hother⟩ := not_or.mp (mt List.mem_cons.mpr hother)
          rw [hothers other hother, getElem?_insert_eq, if_neg (Ne.symm hne)]
      · rintro ⟨⟨⟨_, ⟨⟩, hfound⟩, hmembers⟩, hothers⟩
        refine ⟨hmembers, fun other hother => ?_⟩
        rw [getElem?_insert_eq]
        split_ifs with heq
        · rw [← heq, hfound]
        · exact hothers other (List.not_mem_cons_of_ne_of_not_mem (Ne.symm heq) hother)

/-- Arguments are read just when all of them are texts, and those that start with a dollar name parameters; each is
then its own text or the parameter's value as it is, whatever the order. -/
theorem arguments_single_pass (parameters : ParameterMap) {members : List (Bytes × JsonValue)}
    (hnul : HoldsNoNul (.object members)) (hnodup : (members.map Prod.fst).Nodup) :
    ((∃ arguments, getBuiltinProcedureArguments parameters (.object members) = .ok arguments) ↔
      ∀ m ∈ members, ∃ text, m.2 = .string text ∧ ∀ name, text = dollar :: name → name ∈ parameters) ∧
    ∀ arguments, getBuiltinProcedureArguments parameters (.object members) = .ok arguments →
      (∀ name, name ∈ arguments ↔ name ∈ members.map Prod.fst) ∧
      (∀ name text, (name, .string text) ∈ members → text.head? ≠ some dollar → arguments[name]? = some text) ∧
      (∀ name reference, (name, .string (dollar :: reference)) ∈ members → arguments[name]? = parameters[reference]?) ∧
      ∀ other, members.Perm other → getBuiltinProcedureArguments parameters (.object other) = .ok arguments := by
  have hvalues : ∀ m ∈ members, NulFree m.1 ∧ HoldsNoNul m.2 := by
    cases hnul with
    | object hnames hvalues => exact fun m hm => ⟨hnames m hm, hvalues m hm⟩
  have hread {arguments : ParameterMap} := @insertArguments_ok_iff parameters members ∅ arguments hvalues hnodup fun _ _ => by simp
  constructor
  · simp only [← argumentOf_ok_iff]
    constructor
    · rintro ⟨arguments, harguments⟩ m hm
      obtain ⟨argument, hargument, -⟩ := (hread.mp harguments).1 m hm
      exact ⟨argument, hargument⟩
    · exact insertArguments_succeeds hvalues hnodup fun _ _ => by simp
  · intro arguments harguments
    obtain ⟨hmembers, hothers⟩ := hread.mp harguments
    refine ⟨fun name => ?_, fun name text hm hplain => ?_, fun name reference hm => ?_, fun other hperm => ?_⟩
    · by_cases hname : name ∈ members.map Prod.fst
      · obtain ⟨m, hm, rfl⟩ := List.mem_map.mp hname
        obtain ⟨argument, -, hfound⟩ := hmembers m hm
        refine iff_of_true ?_ hname
        rw [Std.ExtTreeMap.mem_iff_isSome_getElem?, hfound]
        rfl
      · refine iff_of_false ?_ hname
        rw [Std.ExtTreeMap.mem_iff_isSome_getElem?, hothers name hname]
        simp
    · obtain ⟨argument, hargument, hfound⟩ := hmembers _ hm
      rw [argumentOf_plain hplain] at hargument
      cases hargument
      exact hfound
    · obtain ⟨argument, hargument, hfound⟩ := hmembers _ hm
      rw [argumentOf_reference] at hargument
      cases hparameter : parameters[reference]? with
      | none =>
        rw [hparameter] at hargument
        cases hargument
      | some substitution =>
        rw [hparameter] at hargument
        cases hargument
        exact hfound
    · have hnames := hperm.map Prod.fst
      refine (insertArguments_ok_iff (fun m hm => hvalues m (hperm.mem_iff.mpr hm)) (hnames.nodup hnodup) fun _ _ => by simp).mpr ?_
      exact ⟨fun m hm => hmembers m (hperm.mem_iff.mpr hm), fun name hname => hothers name (mt hnames.mem_iff.mp hname)⟩

/-- A value that looks like a reference is not looked up again. -/
theorem arguments_single_pass_reference : ∃ arguments,
    getBuiltinProcedureArguments ((∅ : ParameterMap).insert (utf8 "a") (utf8 "$b")) (.object [(utf8 "x", .string (utf8 "$a"))]) =
      .ok arguments ∧ arguments[utf8 "x"]? = some (utf8 "$b") := by
  have hnul : HoldsNoNul (.object [(utf8 "x", .string (utf8 "$a"))]) := by
    refine .object (List.forall_mem_singleton.mpr (by decide)) (List.forall_mem_singleton.mpr (.string (by decide)))
  obtain ⟨haccepted, hread⟩ := arguments_single_pass ((∅ : ParameterMap).insert (utf8 "a") (utf8 "$b")) hnul (by decide)
  have hmember : ∃ text, JsonValue.string (utf8 "$a") = .string text ∧
      ∀ name, text = dollar :: name → name ∈ (∅ : ParameterMap).insert (utf8 "a") (utf8 "$b") := by
    refine ⟨utf8 "$a", rfl, fun name hname => ?_⟩
    cases hname
    exact Std.ExtTreeMap.mem_insert_self
  obtain ⟨arguments, harguments⟩ := haccepted.mpr (List.forall_mem_singleton.mpr hmember)
  refine ⟨arguments, harguments, ?_⟩
  rw [(hread arguments harguments).2.2.1 (utf8 "x") (utf8 "a") List.mem_cons_self]
  exact Std.ExtTreeMap.getElem?_insert_self

end Substitution
end Kompli.Evaluator
