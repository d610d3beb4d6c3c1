import SiemEngine.Detection.Rules.Authentication
import SiemEngine.Detection.Rules.Traffic

/-!
# Detection engine

The engine runs the enabled rule detectors on one event in catalogue order, threads the
windows through them, stamps what they return and isolates their exceptions.
-/

namespace SiemEngine

inductive Rule
  | bruteForce | passwordSpray | portScan | privilegeEscalation | suspiciousSql
  | dataExfiltration | authAnomaly
  deriving DecidableEq

namespace Rule

def all : List Rule :=
  [.bruteForce, .passwordSpray, .portScan, .privilegeEscalation, .suspiciousSql,
    .dataExfiltration, .authAnomaly]

def appliesTo (py : Python) (ev : SecurityEvent) : Rule → Bool
  | .bruteForce => BruteForce.appliesTo ev
  | .passwordSpray => PasswordSpray.appliesTo ev
  | .portScan => PortScan.appliesTo ev
  | .privilegeEscalation => PrivilegeEscalation.appliesTo py ev
  | .suspiciousSql => SuspiciousSql.appliesTo ev
  | .dataExfiltration => DataExfiltration.appliesTo ev
  | .authAnomaly => AuthAnomaly.appliesTo ev

def evaluate (py : Python) (p : Params) (tick : Tick) (ev : SecurityEvent) (ws : Windows) :
    Rule → Evaluation
  | .bruteForce => BruteForce.evaluate py p tick ev ws
  | .passwordSpray => PasswordSpray.evaluate py p tick ev ws
  | .portScan => PortScan.evaluate py p tick ev ws
  | .privilegeEscalation => PrivilegeEscalation.evaluate py p tick ev ws
  | .suspiciousSql => SuspiciousSql.evaluate py p tick ev ws
  | .dataExfiltration => DataExfiltration.evaluate py p tick ev ws
  | .authAnomaly => AuthAnomaly.evaluate py p tick ev ws

end Rule

structure DetectionEngine where
  params : Params := {}
  disabled : List Rule := []

namespace DetectionEngine

def runDetector (py : Python) (engine : DetectionEngine) (ticks : Rule → Tick)
    (ev : SecurityEvent) (acc : Windows × List Detection) (rule : Rule) :
    Windows × List Detection :=
  if rule ∈ engine.disabled ∨ ¬ rule.appliesTo py ev then acc
  else match rule.evaluate py engine.params (ticks rule) ev acc.1 with
    | (ws, .ok (some d)) =>
      (ws, acc.2 ++ [{ d with triggeredAt := some (ticks rule).triggeredAt }])
    | (ws, .ok none) | (ws, .error _) => (ws, acc.2)

def evaluate (py : Python) (engine : DetectionEngine) (ticks : Rule → Tick) (ev : SecurityEvent)
    (ws : Windows) : Windows × List Detection :=
  Rule.all.foldl (engine.runDetector py ticks ev) (ws, [])

end DetectionEngine

end SiemEngine
