import Kompli.BenchmarkIO.RuleResult
import Kompli.ComplianceEngine.DistributionInfo

/-! The result document: what it says of the host, the results of the rules, and the overall status. -/
namespace Kompli.Cli
open BenchmarkIO Parson JsonWrapper Foundation

/-- The document, and the array of its member `rules`, to which the results are appended. -/
structure BenchmarkFormatter where
  json : Members
  rules : List JsonValue := []

namespace BenchmarkFormatter

/-- `Begin` at a time. -/
def begin_ (timestamp : Bytes) (distributionInfo : DistributionInfo) : Except Error BenchmarkFormatter := do
  let failed : Error := { message := utf8 "Failed to set host info", code := ENOMEM }
  let object ← JsonWrapper.setString { message := utf8 "Failed to set timestamp", code := ENOMEM } [] (utf8 "timestamp") timestamp
  let host ← JsonWrapper.setString failed [] (utf8 "arch") distributionInfo.architecture.name
  let host ← JsonWrapper.setString failed host (utf8 "distribution") distributionInfo.distribution.name
  let host ← JsonWrapper.setString failed host (utf8 "distributionVersion") distributionInfo.version
  let object := objectSetValue object (utf8 "host") (.object host)
  .ok { json := objectSetValue object (utf8 "rules") (.array []) }

def appendRuleJson (formatter : BenchmarkFormatter) (rule : Members) : BenchmarkFormatter :=
  { formatter with rules := formatter.rules ++ [.object rule] }

def addEntry (num : NumberFormat) (formatter : BenchmarkFormatter) (entry : Resource) (status : Status)
    (payload : Bytes) (parameters : ParameterMap) (action : Action) : Except Error BenchmarkFormatter := do
  let rule ← buildRuleResultJson num entry status payload parameters action
  .ok (formatter.appendRuleJson rule)

def addSkippedEntry (formatter : BenchmarkFormatter) (entry : Resource) (parameters : ParameterMap) :
    Except Error BenchmarkFormatter := do
  let rule ← buildSkippedRuleResultJson entry parameters
  .ok (formatter.appendRuleJson rule)

/-- `Finish`, before the document is serialized; the duration is the bits of a double. -/
def finish (formatter : BenchmarkFormatter) (durationMs : UInt64) (status : Status) : Except Error Members := do
  let object := objectSetValue formatter.json (utf8 "rules") (.array formatter.rules)
  let object := objectSetValue object (utf8 "durationMs") (.number durationMs)
  JsonWrapper.setString (notSet "status") object (utf8 "status") status.toBytes

/-- A document begins without results. -/
theorem begin_rules {timestamp : Bytes} {distributionInfo : DistributionInfo} {formatter : BenchmarkFormatter}
    (h : begin_ timestamp distributionInfo = .ok formatter) : formatter.rules = [] := by
  simp only [begin_, except_bind_ok_iff] at h
  obtain ⟨_, -, _, -, _, -, _, -, ⟨⟩⟩ := h
  rfl

/-- A document that is finished has the results that were appended, and the overall status. -/
theorem finish_members {formatter : BenchmarkFormatter} {durationMs : UInt64} {status : Status} {object : Members}
    (h : formatter.finish durationMs status = .ok object) :
    getArray object (utf8 "rules") = some formatter.rules ∧
      JsonValue.getValue object (utf8 "status") = some (.string status.toBytes) := by
  obtain ⟨-, rfl⟩ := setString_ok_iff.mp h
  have hstatus : cString status.toBytes = status.toBytes := by cases status <;> decide
  have hnames : cString (utf8 "status") = utf8 "status" ∧ cString (utf8 "durationMs") = utf8 "durationMs" ∧
      cString (utf8 "rules") = utf8 "rules" ∧ utf8 "status" ≠ utf8 "rules" ∧ utf8 "durationMs" ≠ utf8 "rules" := by
    decide
  constructor
  · rw [getArray, getValue_objectSetValue, hnames.1, if_neg hnames.2.2.2.1, getValue_objectSetValue, hnames.2.1,
      if_neg hnames.2.2.2.2, getValue_objectSetValue, hnames.2.2.1, if_pos rfl]
  · rw [getValue_objectSetValue, hnames.1, if_pos rfl, hstatus]

theorem finish_succeeds (formatter : BenchmarkFormatter) (durationMs : UInt64) (status : Status) :
    ∃ object, formatter.finish durationMs status = .ok object := by
  refine ⟨_, setString_ok_iff.mpr ⟨?_, rfl⟩⟩
  cases status <;> decide

end BenchmarkFormatter

end Kompli.Cli
