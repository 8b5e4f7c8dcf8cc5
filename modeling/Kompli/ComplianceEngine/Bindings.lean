import Kompli.ComplianceEngine.Procedure
import Mathlib.Data.Fin.Basic
import Mathlib.Data.List.FinRange
import Mathlib.Logic.Equiv.Defs
import Mathlib.Logic.Function.Basic

/-! The arguments of a procedure, parsed into the fields of its parameter structure. -/
namespace Kompli.BindingsImpl

/-- A member of a parameter structure: its name, the parser of its type, and what a new structure holds in it. -/
inductive Field : Type 1 where
  | required (name : Bytes) {α : Type} (parseValue : Bytes → Except Error α) (initial : α)
  | optional (name : Bytes) {α : Type} (parseValue : Bytes → Except Error α) (initial : Option α)

namespace Field

def name : Field → Bytes
  | required name .. => name
  | optional name .. => name

/-- The type of the member. -/
def Holds : Field → Type
  | @required _ α .. => α
  | @optional _ α .. => Option α

def initial : (field : Field) → field.Holds
  | required _ _ initial => initial
  | optional _ _ initial => initial

def Required : Field → Prop
  | required .. => True
  | optional .. => False

/-- The parser of the member's type accepts a text. -/
def Accepts : Field → Bytes → Prop
  | required _ parseValue _, text => ∃ value, parseValue text = .ok value
  | optional _ parseValue _, text => ∃ value, parseValue text = .ok value

/-- The member holds what is parsed of a text. -/
def IsParse : (field : Field) → Bytes → field.Holds → Prop
  | required _ parseValue _, text, held => parseValue text = .ok held
  | optional _ parseValue _, text, held => ∃ value, parseValue text = .ok value ∧ held = some value

end Field

def missing (key : Bytes) : Error :=
  { message := utf8 "Missing required '" ++ key ++ utf8 "' parameter", code := EINVAL }

/-- `ParseParameter`, for an optional member and for a required one. -/
def parseParameter (args : ParameterMap) : (field : Field) → field.Holds → Except Error field.Holds
  | .optional key parseValue _, output =>
    match args[key]? with
    | none => .ok output
    | some text => (parseValue text).map some
  | .required key parseValue _, _ =>
    match args[key]? with
    | none => .error (missing key)
    | some text => parseValue text

section Params

variable {n : Nat} (fields : Fin n → Field)

/-- The parameter structure. -/
abbrev Params : Type := (i : Fin n) → (fields i).Holds

/-- `ParseParameterAt`: the fields from an index on, in their order. -/
def parseParameterAt (args : ParameterMap) (index : Nat) (output : Params fields) : Except Error (Params fields) :=
  if h : index < n then
    match parseParameter args (fields ⟨index, h⟩) (output ⟨index, h⟩) with
    | .error e => .error e
    | .ok value => parseParameterAt args (index + 1) (Function.update output ⟨index, h⟩ value)
  else .ok output
  termination_by n - index

def fieldNames : List Bytes := List.ofFn fun i => (fields i).name

def unknown (key : Bytes) : Error := { message := utf8 "Unknown parameter '" ++ key ++ utf8 "'", code := EINVAL }

def parseArguments (args : ParameterMap) : Except Error (Params fields) :=
  if n < args.size then .error { message := utf8 "Too many arguments provided", code := EINVAL }
  else
    match args.keys.find? (· ∉ fieldNames fields) with
    | some key => .error (unknown key)
    | none => parseParameterAt fields args 0 fun i => (fields i).initial

end Params

section Fields

variable {n : Nat} {fields : Fin n → Field} {args : ParameterMap}

theorem parseParameter_ok_iff {field : Field} {output held : field.Holds} :
    parseParameter args field output = .ok held ↔
      (∀ text, args[field.name]? = some text → field.IsParse text held) ∧
        (args[field.name]? = none → ¬ field.Required ∧ held = output) := by
  cases field with
  | required key parseValue initial =>
    rw [parseParameter, Field.name]
    cases args[key]? with
    | none =>
      constructor
      · intro h
        cases h
      · intro h
        exact absurd trivial (h.2 rfl).1
    | some text =>
      constructor
      · intro h
        refine ⟨fun other hother => ?_, nofun⟩
        cases hother
        exact h
      · intro h
        exact h.1 text rfl
  | optional key parseValue initial =>
    rw [parseParameter, Field.name]
    cases args[key]? with
    | none =>
      constructor
      · intro h
        cases h
        exact ⟨nofun, fun _ => ⟨id, rfl⟩⟩
      · intro h
        rw [(h.2 rfl).2]
    | some text =>
      dsimp only
      constructor
      · intro h
        refine ⟨fun other hother => ?_, nofun⟩
        cases hother
        cases hparse : parseValue text with
        | error e =>
          rw [hparse] at h
          cases h
        | ok value =>
          rw [hparse] at h
          cases h
          exact ⟨value, hparse, rfl⟩
      · intro h
        obtain ⟨value, hparse, rfl⟩ := h.1 text rfl
        rw [hparse]
        rfl

/-- The fields before the index stay, and each of the others is parsed from where it stands. -/
theorem parseParameterAt_ok_iff {index : Nat} {output result : Params fields} :
    parseParameterAt fields args index output = .ok result ↔
      ∀ i : Fin n, if i.val < index then result i = output i
        else parseParameter args (fields i) (output i) = .ok (result i) := by
  induction hleft : n - index generalizing index output with
  | zero =>
    rw [parseParameterAt, dif_neg (by omega)]
    constructor
    · intro h i
      cases h
      rw [if_pos (by omega)]
    · intro h
      refine congrArg Except.ok (funext fun i => ?_)
      have hi := h i
      rw [if_pos (by omega)] at hi
      exact hi.symm
  | succ left ih =>
    have hindex : index < n := by omega
    rw [parseParameterAt, dif_pos hindex]
    cases hparse : parseParameter args (fields ⟨index, hindex⟩) (output ⟨index, hindex⟩) with
    | error e =>
      constructor
      · intro h
        cases h
      · intro h
        have hi := h ⟨index, hindex⟩
        rw [if_neg (lt_irrefl index), hparse] at hi
        cases hi
    | ok value =>
      dsimp only
      rw [ih (by omega)]
      refine forall_congr' fun i => ?_
      rcases lt_trichotomy i.val index with hless | heq | hmore
      · have hne : i ≠ ⟨index, hindex⟩ := fun h => absurd (congrArg Fin.val h) hless.ne
        rw [if_pos (by omega), if_pos hless, Function.update_of_ne hne]
      · obtain rfl : i = ⟨index, hindex⟩ := Fin.ext heq
        rw [if_pos (by simp), if_neg (lt_irrefl index), Function.update_self, hparse, Except.ok.injEq]
        exact eq_comm
      · have hne : i ≠ ⟨index, hindex⟩ := fun h => absurd (congrArg Fin.val h) hmore.ne'
        rw [if_neg (by omega), if_neg (by omega), Function.update_of_ne hne]

/-- Every argument is one of a field. -/
def AllNamed (fields : Fin n → Field) (args : ParameterMap) : Prop := ∀ key ∈ args, ∃ i, (fields i).name = key

theorem mem_fieldNames {key : Bytes} : key ∈ fieldNames fields ↔ ∃ i, (fields i).name = key := by
  rw [fieldNames, List.mem_ofFn]

/-- Arguments that name fields are not too many. -/
theorem size_le (h : AllNamed fields args) : args.size ≤ n := by
  have hsubset : args.keys ⊆ fieldNames fields := fun key hkey =>
    mem_fieldNames.mpr (h key (Std.ExtTreeMap.mem_keys.mp hkey))
  have hlength := (List.subperm_of_subset Std.ExtTreeMap.nodup_keys hsubset).length_le
  rwa [Std.ExtTreeMap.length_keys, fieldNames, List.length_ofFn] at hlength

theorem find_unknown : args.keys.find? (· ∉ fieldNames fields) = none ↔ AllNamed fields args := by
  rw [List.find?_eq_none]
  simp only [decide_not, Bool.not_eq_eq_eq_not, Bool.not_true, decide_eq_false_iff_not, not_not, mem_fieldNames,
    Std.ExtTreeMap.mem_keys]
  rfl

theorem parseArguments_ok_iff {result : Params fields} : parseArguments fields args = .ok result ↔
    AllNamed fields args ∧ ∀ i, parseParameter args (fields i) (fields i).initial = .ok (result i) := by
  rw [parseArguments]
  by_cases hnamed : AllNamed fields args
  · rw [if_neg (by have := size_le hnamed; omega), find_unknown.mpr hnamed]
    dsimp only
    rw [parseParameterAt_ok_iff]
    simp only [hnamed, true_and, Nat.not_lt_zero, if_false]
  · constructor
    · intro h
      split_ifs at h
      cases hfind : args.keys.find? (· ∉ fieldNames fields) with
      | none => exact absurd (find_unknown.mp hfind) hnamed
      | some key =>
        rw [hfind] at h
        cases h
    · intro h
      exact absurd h.1 hnamed

theorem accepts_iff {field : Field} {text : Bytes} : field.Accepts text ↔ ∃ held, field.IsParse text held := by
  cases field with
  | required key parseValue initial => rfl
  | optional key parseValue initial =>
    constructor
    · rintro ⟨value, hvalue⟩
      exact ⟨some value, value, hvalue, rfl⟩
    · rintro ⟨_, value, hvalue, -⟩
      exact ⟨value, hvalue⟩

theorem parseParameter_accepts {field : Field} : (∃ held, parseParameter args field field.initial = .ok held) ↔
    (field.Required → field.name ∈ args) ∧ ∀ text, args[field.name]? = some text → field.Accepts text := by
  simp only [parseParameter_ok_iff, accepts_iff, Std.ExtTreeMap.mem_iff_isSome_getElem?]
  cases args[field.name]? with
  | none =>
    constructor
    · rintro ⟨held, -, hheld⟩
      exact ⟨fun hrequired => absurd hrequired (hheld rfl).1, nofun⟩
    · rintro ⟨hrequired, -⟩
      exact ⟨field.initial, nofun, fun _ => ⟨fun h => Bool.false_ne_true (hrequired h), rfl⟩⟩
  | some text =>
    constructor
    · rintro ⟨held, hheld, -⟩
      exact ⟨fun _ => rfl, fun other hother => ⟨held, hheld other hother⟩⟩
    · rintro ⟨-, haccepts⟩
      obtain ⟨held, hheld⟩ := haccepts text rfl
      refine ⟨held, fun other hother => ?_, nofun⟩
      cases hother
      exact hheld

/-- What a field is parsed to depends on its own argument alone. -/
theorem parseParameter_congr {field : Field} {others : ParameterMap} (h : others[field.name]? = args[field.name]?)
    (output : field.Holds) : parseParameter others field output = parseParameter args field output := by
  cases field with
  | required key parseValue initial =>
    rw [parseParameter, parseParameter]
    rw [Field.name] at h
    rw [h]
  | optional key parseValue initial =>
    rw [parseParameter, parseParameter]
    rw [Field.name] at h
    rw [h]

/-- Arguments are accepted just when all of them name fields, no required field is missing, and each is accepted by its
field's parser; each field is then the parse of its own argument or what it is at first. -/
theorem parseArguments_fields (fields : Fin n → Field) (args : ParameterMap) :
    ((∃ result, parseArguments fields args = .ok result) ↔
      (∀ key ∈ args, ∃ i, (fields i).name = key) ∧ (∀ i, (fields i).Required → (fields i).name ∈ args) ∧
        ∀ i text, args[(fields i).name]? = some text → (fields i).Accepts text) ∧
    ∀ result, parseArguments fields args = .ok result →
      (∀ i, (∀ text, args[(fields i).name]? = some text → (fields i).IsParse text (result i)) ∧
        ((fields i).name ∉ args → result i = (fields i).initial)) ∧
      (∀ others changed i, parseArguments fields others = .ok changed →
        others[(fields i).name]? = args[(fields i).name]? → changed i = result i) ∧
      ∀ order : Equiv.Perm (Fin n),
        parseArguments (fun i => fields (order i)) args = .ok fun i => result (order i) := by
  constructor
  · have hchoice : (∃ result : Params fields, ∀ i, parseParameter args (fields i) (fields i).initial = .ok (result i)) ↔
        ∀ i, ∃ held, parseParameter args (fields i) (fields i).initial = .ok held :=
      (@Classical.skolem (Fin n) (fun i => (fields i).Holds) fun i held => parseParameter args (fields i) _ = .ok held).symm
    simp only [parseArguments_ok_iff, exists_and_left, hchoice, parseParameter_accepts, forall_and]
    rfl
  · intro result h
    obtain ⟨hnamed, hparse⟩ := parseArguments_ok_iff.mp h
    refine ⟨fun i => ?_, fun others changed i hothers hsame => ?_, fun order => ?_⟩
    · obtain ⟨hgiven, hleft⟩ := parseParameter_ok_iff.mp (hparse i)
      exact ⟨hgiven, fun hmissing => (hleft (Std.ExtTreeMap.getElem?_eq_none hmissing)).2⟩
    · have hchanged := (parseArguments_ok_iff.mp hothers).2 i
      rw [parseParameter_congr hsame, hparse i] at hchanged
      exact (Except.ok.inj hchanged).symm
    · refine parseArguments_ok_iff.mpr ⟨fun key hkey => ?_, fun i => hparse (order i)⟩
      obtain ⟨i, hi⟩ := hnamed key hkey
      exact ⟨order.symm i, (congrArg (fun j => (fields j).name) (order.apply_symm_apply i)).trans hi⟩

end Fields
end Kompli.BindingsImpl
