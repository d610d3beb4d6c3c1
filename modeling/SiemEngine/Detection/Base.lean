import SiemEngine.Python.Uuid
import SiemEngine.Schemas.Enums

/-!
# Detector results

`Detection` is a single detector firing on an event.
-/

namespace SiemEngine

structure Evidence where
  eventId : UUID
  timestamp : Time
  summary : String
  deriving DecidableEq

structure Detection where
  ruleId : String
  kind : DetectionKind
  title : String
  description : String
  severity : Severity
  confidence : ℚ
  correlationKey : String
  sourceIp : Option String
  affectedHost : Option String
  recommendedAction : String
  evidence : List Evidence := []
  involvedUsers : List String := []
  involvedHosts : List String := []
  eventCountHint : ℤ := 1
  anomalyScore : Option ℚ := none
  metadata : JsonDict := []
  triggeredAt : Option Time := none
  deriving DecidableEq

namespace Detection

def key (d : Detection) : String × String := (d.ruleId, d.correlationKey)

end Detection

end SiemEngine
