import Kompli.ComplianceEngine.ListValidShells
import Kompli.Procedures.ProcedureRun

/-! The audit of the login shells of system accounts. -/
namespace Kompli.SystemAccountShell
open Foundation ListValidShells Streams

section Audit

def allowlistedAccounts : List Bytes := [utf8 "root", utf8 "halt", utf8 "sync", utf8 "shutdown", utf8 "nfsnobody"]

/-- The account is of the system, and may have no login shell. -/
def Checked (minUid : Nat) (user : Passwd) : Prop := user.uid < minUid ∧ user.name ∉ allowlistedAccounts

instance (minUid : Nat) (user : Passwd) : Decidable (Checked minUid user) := inferInstanceAs (Decidable (_ ∧ _))

def auditUsers (validShells : List Bytes) (minUid : Nat) : List Passwd → List Indicator → Status × List Indicator
  | [], indicators => (.compliant, indicators)
  | user :: users, indicators =>
    let subject := utf8 "System user " ++ printUnsigned user.uid
    if ¬ Checked minUid user then auditUsers validShells minUid users indicators
    else if user.shell ∈ validShells then
      (.nonCompliant, indicators ++ [{ message := subject ++ utf8 " has a valid login shell", status := .nonCompliant }])
    else
      let message := subject ++ utf8 " does not have a valid login shell"
      auditUsers validShells minUid users (indicators ++ [{ message, status := .compliant }])

/-- The least identifier of a user, as `LoadMinUID` has it, and the users are read after the shells. -/
def auditSystemAccountShell (shells : Option Bytes) (minUid : Except Error Nat) (users : Except Error (List Passwd)) :
    Except Error Status × List Indicator :=
  match listValidShells shells, minUid, users with
  | .error e, _, _ => (.error e, [])
  | .ok _, .error e, _ => (.error e, [])
  | .ok _, .ok _, .error e => (.error e, [])
  | .ok validShells, .ok minUid, .ok users =>
    let (status, indicators) := auditUsers validShells minUid users []
    (.ok status, indicators)

end Audit

section Verdicts

theorem auditUsers_compliant_iff (validShells : List Bytes) (minUid : Nat) (users : List Passwd) (indicators : List Indicator) :
    (auditUsers validShells minUid users indicators).1 = .compliant ↔
      ∀ user ∈ users, Checked minUid user → user.shell ∉ validShells := by
  induction users generalizing indicators with
  | nil => exact iff_of_true rfl nofun
  | cons user users ih =>
    rw [auditUsers, List.forall_mem_cons]
    dsimp only
    split_ifs with hchecked hshell
    · exact iff_of_false nofun fun h => h.1 hchecked hshell
    · rw [ih]
      exact ⟨fun h => ⟨fun _ => hshell, h⟩, And.right⟩
    · rw [ih]
      exact ⟨fun h => ⟨fun hc => absurd hc hchecked, h⟩, And.right⟩

/-- No account with a shell that is listed is passed over. -/
def CoversListed (content : Bytes) : Prop :=
  ∀ (minUid : Nat) (users : List Passwd), (auditSystemAccountShell (some content) (.ok minUid) (.ok users)).1 = .ok .compliant →
    ∀ user ∈ users, Checked minUid user → IsShellText user.shell → ¬ Listed content user.shell

/-- The set of valid shells, and with it the audit, are right just where no shell is listed with white space around it
alone. -/
theorem listed_shells_valid_iff (content : Bytes) :
    ((∀ s, IsShellText s → (s ∈ validShells content ↔ Listed content s)) ∧ CoversListed content) ↔ PaddedRepeated content := by
  rw [← mem_validShells_listed_iff]
  refine and_iff_left_of_imp fun h minUid users hcompliant user huser hchecked htext hlisted => ?_
  have hstatus : (auditUsers (validShells content) minUid users []).1 = .compliant := Except.ok.inj hcompliant
  exact (auditUsers_compliant_iff _ _ _ _).mp hstatus user huser hchecked ((h _ htext).mpr hlisted)

/-- With a comment after it, a shell is listed and yet not valid, so that the audit finds nothing. -/
theorem commented_shell_missed :
    IsShellText (utf8 "/bin/bash") ∧ Listed (utf8 "/bin/bash # the shell\n") (utf8 "/bin/bash") ∧
      utf8 "/bin/bash" ∉ validShells (utf8 "/bin/bash # the shell\n") ∧
      (auditSystemAccountShell (some (utf8 "/bin/bash # the shell\n")) (.ok 1000)
        (.ok [{ name := utf8 "daemon", uid := 1, gid := 1, dir := utf8 "/", shell := utf8 "/bin/bash" }])).1 = .ok .compliant := by
  refine ⟨⟨by decide, by decide +kernel⟩, ⟨⟨utf8 "/bin/bash # the shell", ?_, ?_⟩, ?_⟩, ?_, ?_⟩
  · decide +kernel
  · decide +kernel
  · decide +kernel
  · decide +kernel
  · decide +kernel

end Verdicts
end Kompli.SystemAccountShell
