import SiemEngine.Detection.Windows

/-!
# Statistical anomaly detection

For each metric an exponentially weighted mean and variance is kept in Redis. An
observation is anomalous when its z-score reaches the threshold and the baseline has seen
enough samples.
-/

namespace SiemEngine

structure Baseline where
  mean : ℚ
  var : ℚ
  n : ℕ
  expiresAt : Time

abbrev Baselines := List (String × Baseline)

structure AnomalyResult where
  metric : String
  value : ℚ
  baselineMean : ℚ
  baselineStd : ℚ
  zScore : ℚ
  anomalyScore : ℚ
  anomalyReason : String
  samples : ℕ

structure StatisticalAnomalyDetector where
  alpha : ℚ := Binary64.nearest (3 / 10)
  zThreshold : ℚ := 7 / 2
  minSamples : ℕ := 20

namespace StatisticalAnomalyDetector

open Binary64

def weekInMicros : Time := 7 * 24 * 3600 * Datetime.microsPerSecond

def baseline (bs : Baselines) (clock : Time) (metric : String) (value : ℚ) : Baseline :=
  match Dict.get? bs metric with
  | none => ⟨value, 0, 0, 0⟩
  | some b => if b.expiresAt < clock then ⟨value, 0, 0, 0⟩ else b

def zScore (std mean value : ℚ) : ℚ :=
  if std < nearest (1 / 1000000000) then 0 else div (sub value mean) std

def result (py : Python) (det : StatisticalAnomalyDetector) (b : Baseline) (metric : String)
    (value : ℚ) : AnomalyResult :=
  let std := py.sqrt b.var
  let z := zScore std b.mean value
  let excess := sub |z| det.zThreshold
  let score := sub 1 (py.exp (-(div (mul excess excess) 8)))
  { metric
    value := roundTo 3 value
    baselineMean := roundTo 3 b.mean
    baselineStd := roundTo 3 std
    zScore := roundTo 2 z
    anomalyScore := roundTo 3 (min 1 (add (1 / 2) (mul (1 / 2) score)))
    anomalyReason := metric ++ " = " ++ py.formatFixed 1 value ++ " is " ++
      py.formatFixed 1 |z| ++ "σ " ++ (if 0 < z then "above" else "below") ++
      " the rolling baseline of " ++ py.formatFixed 1 b.mean ++ " ± " ++ py.formatFixed 1 std ++
      " (n=" ++ toString b.n ++ ")"
    samples := b.n }

/-- The square in the score of a reported value is a `**` of floats, which raises where
products would go on with an infinity; `math.sqrt` raises on a negative variance. -/
def raises (py : Python) (det : StatisticalAnomalyDetector) (b : Baseline) (value : ℚ) : Prop :=
  let z := zScore (py.sqrt b.var) b.mean value
  let excess := sub |z| det.zThreshold
  b.var < 0 ∨ (det.minSamples ≤ b.n ∧ det.zThreshold ≤ |z|) ∧ Overflows (mul excess excess)

instance (py : Python) (det : StatisticalAnomalyDetector) (b : Baseline) (value : ℚ) :
    Decidable (det.raises py b value) :=
  inferInstanceAs (Decidable (_ ∨ _))

def updated (py : Python) (det : StatisticalAnomalyDetector) (b : Baseline) (clock : Time)
    (value : ℚ) : Baseline :=
  let z := zScore (py.sqrt b.var) b.mean value
  let alpha := div det.alpha (add 1 (max 0 (sub |z| det.zThreshold)))
  let delta := sub value b.mean
  { mean := add b.mean (mul alpha delta)
    var := mul (sub 1 alpha) (add b.var (mul (mul alpha delta) delta))
    n := b.n + 1
    expiresAt := clock + weekInMicros }

def observe (py : Python) (det : StatisticalAnomalyDetector) (clock : Time) (bs : Baselines)
    (metric : String) (value : ℚ) : Baselines × Option AnomalyResult :=
  let b := baseline bs clock metric value
  let z := zScore (py.sqrt b.var) b.mean value
  (Dict.set bs metric (det.updated py b clock value),
    if det.minSamples ≤ b.n ∧ det.zThreshold ≤ |z| then some (det.result py b metric value)
    else none)

/-- `observe`, or nothing where it raises: it stores at its end only. -/
def observeOrRaise (py : Python) (det : StatisticalAnomalyDetector) (clock : Time) (bs : Baselines)
    (metric : String) (value : ℚ) : Option (Baselines × Option AnomalyResult) :=
  if det.raises py (baseline bs clock metric value) value then none
  else some (det.observe py clock bs metric value)

end StatisticalAnomalyDetector

end SiemEngine
