import Kompli.ComplianceEngine.Procedure

/-! When a rejected update of a rule's parameters leaves them as they were. -/
namespace Kompli.Procedure
open Parson Foundation ProcedureParameters

/-- An update that fails changes no parameter, and one that succeeds gives the
parameters that were given their new values and leaves the others. -/
def UpdatesAtomically (num : NumberFormat) (userParameters : Bytes) (procedure : Procedure) : Prop :=
  match updateUserParameters num userParameters procedure with
  | .error _ after => after.parameters = procedure.parameters
  | .ok _ after => ∃ user, parseUserParameters num userParameters = .ok user ∧
      ∀ key : Bytes, after.parameters[key]? = user[key]?.or procedure.parameters[key]?

/-- The parameters that a user gives before the first that the rule does not have. -/
def givenBeforeUnknown (user parameters : ParameterMap) : List (Bytes × Bytes) :=
  writesBefore parameters user.toList

private theorem updateUserParameters_of_known {num : NumberFormat} {userParameters : Bytes}
    {procedure : Procedure} {user : ParameterMap}
    (hparse : parseUserParameters num userParameters = .ok user)
    (hknown : ∀ key ∈ user, key ∈ procedure.parameters) :
    updateUserParameters num userParameters procedure =
      .ok () { procedure with parameters := procedure.parameters.insertMany user.toList } := by
  have hwrites : ∀ w ∈ user.toList, w.1 ∈ procedure.parameters := fun w hw =>
    hknown w.1 (mem_of_mem_toList hw)
  have hrun := writeKnown_of_known parameterNotFound hwrites
  rw [updateUserParameters]
  simp only [hparse, updateParameters, hrun]

private theorem updateUserParameters_of_unknown {num : NumberFormat} {userParameters : Bytes}
    {procedure : Procedure} {user : ParameterMap}
    (hparse : parseUserParameters num userParameters = .ok user)
    (hunknown : ∃ key ∈ user, key ∉ procedure.parameters) :
    ∃ key, updateUserParameters num userParameters procedure = .error (parameterNotFound key)
      { procedure with
        parameters := procedure.parameters.insertMany (givenBeforeUnknown user procedure.parameters) } := by
  obtain ⟨key, hkey, hnew⟩ := hunknown
  obtain ⟨value, hmem⟩ := exists_mem_toList hkey
  obtain ⟨first, -, hrun⟩ := writeKnown_of_unknown parameterNotFound
    (m := procedure.parameters) ⟨(key, value), hmem, hnew⟩
  refine ⟨first, ?_⟩
  rw [updateUserParameters]
  simp only [hparse, updateParameters, hrun, givenBeforeUnknown]

private theorem givenBeforeUnknown_distinct (user parameters : ParameterMap) :
    (givenBeforeUnknown user parameters).Pairwise fun a b => ¬ compare a.1 b.1 = .eq :=
  (Std.ExtTreeMap.distinct_keys_toList (t := user)).sublist (List.takeWhile_sublist _)

/-- The exact condition: no unknown parameter is given, or those given before the
first unknown one have the values given for them already. -/
theorem update_is_atomic_iff (num : NumberFormat) (userParameters : Bytes) (procedure : Procedure) :
    UpdatesAtomically num userParameters procedure ↔
      ∀ user, parseUserParameters num userParameters = .ok user →
        (∃ key ∈ user, key ∉ procedure.parameters) →
        ∀ given ∈ givenBeforeUnknown user procedure.parameters,
          procedure.parameters[given.1]? = some given.2 := by
  cases hparse : parseUserParameters num userParameters with
  | error e => simp [UpdatesAtomically, updateUserParameters, hparse]
  | ok user =>
    simp only [Except.ok.injEq, forall_eq']
    by_cases hunknown : ∃ key ∈ user, key ∉ procedure.parameters
    · obtain ⟨key, hrun⟩ := updateUserParameters_of_unknown hparse hunknown
      simp only [UpdatesAtomically, hrun]
      rw [insertMany_eq_self_iff (givenBeforeUnknown_distinct user procedure.parameters)]
      exact ⟨fun h _ => h, fun h => h hunknown⟩
    · have hknown : ∀ key ∈ user, key ∈ procedure.parameters := by
        intro key hkey
        by_contra hnew
        exact hunknown ⟨key, hkey, hnew⟩
      have hrun := updateUserParameters_of_known hparse hknown
      simp only [UpdatesAtomically, hrun]
      refine iff_of_true ⟨user, hparse, fun key => ?_⟩ fun h => absurd h hunknown
      exact getElem?_insertMany_toList procedure.parameters user key

/-- The parameters that a failed update leaves. -/
def rejected (num : NumberFormat) (userParameters : Bytes) (procedure : Procedure) :
    Option (List (Bytes × Bytes)) :=
  match updateUserParameters num userParameters procedure with
  | .error _ after => some after.parameters.toList
  | .ok _ _ => none

/-- A known parameter before an unknown one is written although the update fails. -/
theorem update_is_not_atomic :
    ¬ UpdatesAtomically ⟨fun _ => [], fun _ => none⟩ (utf8 "a=2 b=3")
      { parameters := (∅ : ParameterMap).insert (utf8 "a") (utf8 "1") } := by
  have hrejected : rejected ⟨fun _ => [], fun _ => none⟩ (utf8 "a=2 b=3")
      { parameters := (∅ : ParameterMap).insert (utf8 "a") (utf8 "1") } =
        some [(utf8 "a", utf8 "2")] := by decide +kernel
  intro h
  rw [rejected] at hrejected
  rw [UpdatesAtomically] at h
  cases hrun : updateUserParameters ⟨fun _ => [], fun _ => none⟩ (utf8 "a=2 b=3")
      { parameters := (∅ : ParameterMap).insert (utf8 "a") (utf8 "1") } with
  | ok _ after => simp only [hrun, reduceCtorEq] at hrejected
  | error e after =>
    simp only [hrun] at h hrejected
    rw [h] at hrejected
    exact absurd hrejected (by decide +kernel)

end Kompli.Procedure
