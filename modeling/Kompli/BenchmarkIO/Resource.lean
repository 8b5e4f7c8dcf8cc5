import Kompli.BenchmarkIO.ContentVersion
import Kompli.ComplianceEngine.BenchmarkInfo

/-! A benchmark definition and its rules. -/
namespace Kompli

namespace BenchmarkIO

structure Metadata where
  description : Option Bytes := none
  rationale : Option Bytes := none
  fixtext : Option Bytes := none
  severity : Option Bytes := none
  references : Option Bytes := none
  additional : ByteMap Bytes := ∅

structure ParameterMetadata where
  defaultValue : Bytes
  type : Bytes
  displayName : Option Bytes := none
  validationRegex : Option Bytes := none
  validationFailedMessage : Option Bytes := none
  mandatory : Bool := false

/-- A rule; `resourceId` is its title. -/
structure Resource where
  benchmarkInfo : BenchmarkInfo
  resourceId : Bytes
  id : Bytes
  ruleId : Bytes
  procedure : Bytes
  payload : Option Bytes := none
  ruleName : Bytes
  tags : List Bytes := []
  metadata : Metadata := {}
  parameterMetadata : ByteMap ParameterMetadata := ∅
  hasInitAudit : Bool := false

end BenchmarkIO

namespace BenchmarkDefinition
open BenchmarkIO

structure BenchmarkDocument where
  name : Bytes
  version : ContentVersion
  benchmarkInfo : BenchmarkInfo
  resources : List Resource

end BenchmarkDefinition
end Kompli
