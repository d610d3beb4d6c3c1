import Mathlib.Data.List.Sort
import Mathlib.Data.String.Basic
import SiemEngine.Detection.Base
import SiemEngine.Detection.Windows
import SiemEngine.Schemas.Event

/-!
# What the rule detectors share

The parameters of all rules with their defaults, the readings of an event that the
detectors print, and the result of an evaluation: the windows it leaves and a detection,
nothing, or the exception the engine isolates.
-/

namespace SiemEngine

structure Params where
  maxFailures : ℤ := 10
  bruteForceWindow : ℤ := 60
  uniqueUsers : ℤ := 8
  sprayWindow : ℤ := 120
  uniquePorts : ℤ := 20
  portScanWindow : ℤ := 30
  privilegedRoles : List String := ["admin", "root", "sudo", "administrator"]
  largeRowcount : ℤ := 5000
  bytesThreshold : ℤ := 52428800
  exfilWindow : ℤ := 60
  distinctIps : ℤ := 4
  authGeoWindow : ℤ := 300

structure Params.Positive (p : Params) : Prop where
  maxFailures : 0 < p.maxFailures
  bruteForceWindow : 0 < p.bruteForceWindow
  uniqueUsers : 0 < p.uniqueUsers
  sprayWindow : 0 < p.sprayWindow
  uniquePorts : 0 < p.uniquePorts
  portScanWindow : 0 < p.portScanWindow
  largeRowcount : 0 < p.largeRowcount
  bytesThreshold : 0 < p.bytesThreshold
  exfilWindow : 0 < p.exfilWindow
  distinctIps : 0 < p.distinctIps
  authGeoWindow : 0 < p.authGeoWindow

inductive DetectorError
  | assertion
  | zeroDivision
  | badValue
  deriving DecidableEq

abbrev Evaluation := Windows × Except DetectorError (Option Detection)

namespace SecurityEvent

def user (ev : SecurityEvent) : Option String := ev.username.map Subtype.val

def sourceText (ev : SecurityEvent) : Option String := ev.sourceIp.map IpAddress.text

def destinationText (ev : SecurityEvent) : Option String := ev.destinationIp.map IpAddress.text

def epoch (ev : SecurityEvent) : ℚ := Datetime.timestamp ev.timestamp

theorem nearest_epoch (ev : SecurityEvent) : Binary64.nearest ev.epoch = ev.epoch :=
  Binary64.nearest_nearest _

theorem epoch_mono {e f : SecurityEvent} (h : e.timestamp ≤ f.timestamp) : e.epoch ≤ f.epoch := by
  refine Binary64.nearest_mono ?_
  have hle : (e.timestamp : ℚ) ≤ f.timestamp := Int.cast_le.mpr h
  exact div_le_div_of_nonneg_right hle (by decide +kernel)

/-- Dated between 1970 and 2242, where doubles tell microseconds apart. -/
def DatedFinely (ev : SecurityEvent) : Prop :=
  0 ≤ ev.timestamp ∧ ev.timestamp < 2 ^ 33 * Datetime.microsPerSecond

instance (ev : SecurityEvent) : Decidable ev.DatedFinely := inferInstanceAs (Decidable (_ ∧ _))

theorem abs_epoch_sub_le {ev : SecurityEvent} (h : ev.DatedFinely) :
    |ev.epoch - (ev.timestamp : ℚ) / Datetime.microsPerSecond| ≤ 2 ^ (-20 : ℤ) / 2 := by
  have hlo : (0 : ℚ) ≤ ev.timestamp := Int.cast_nonneg h.1
  have hhi : (ev.timestamp : ℚ) < (2 ^ 33 * Datetime.microsPerSecond : ℤ) := Int.cast_lt.mpr h.2
  have hmicros : (0 : ℚ) < Datetime.microsPerSecond := by decide +kernel
  refine Binary64.abs_nearest_sub_le (by decide) ?_
  rw [abs_of_nonneg (div_nonneg hlo hmicros.le), div_lt_iff₀ hmicros]
  rw [Int.cast_mul] at hhi
  exact hhi.trans_eq (by norm_num)

theorem cutoff_lt_epoch {e f : SecurityEvent} {w : ℤ} (he : e.DatedFinely) (hf : f.DatedFinely)
    (hw : 0 ≤ w) (h : f.timestamp - e.timestamp < w * Datetime.microsPerSecond) :
    Binary64.sub f.epoch w < e.epoch := by
  have hmicros : (Datetime.microsPerSecond : ℚ) = 1000000 := by decide +kernel
  have herr : (2 : ℚ) ^ (-20 : ℤ) < 1 / 1000000 := by norm_num
  have hexact : (f.timestamp : ℚ) / 1000000 - w + 1 / 1000000 ≤ e.timestamp / 1000000 := by
    have hle : f.timestamp + 1 ≤ e.timestamp + w * Datetime.microsPerSecond := by
      have hstep := Int.add_one_le_of_lt h
      linarith
    have hcast : (f.timestamp : ℚ) + 1 ≤ e.timestamp + w * Datetime.microsPerSecond := by
      exact_mod_cast hle
    rw [hmicros] at hcast
    linarith
  obtain ⟨-, hup⟩ := abs_le.mp (abs_epoch_sub_le hf)
  obtain ⟨hdown, -⟩ := abs_le.mp (abs_epoch_sub_le he)
  rw [hmicros] at hup hdown
  have hnonneg : ∀ g : SecurityEvent, g.DatedFinely → 0 ≤ g.epoch := fun g hg =>
    Binary64.nearest_nonneg (div_nonneg (Int.cast_nonneg hg.1) (by decide +kernel))
  have hbound : f.epoch < 2 ^ 53 := by
    have hlt : (f.timestamp : ℚ) < (2 ^ 33 * Datetime.microsPerSecond : ℤ) := Int.cast_lt.mpr hf.2
    rw [Int.cast_mul, hmicros] at hlt
    norm_num at hlt hup ⊢
    linarith
  rw [Binary64.sub_lt_iff f.nearest_epoch (hnonneg f hf) hbound hw (hnonneg e he)]
  linarith

end SecurityEvent

def shown (text : Option String) : String := text.getD "None"

def shownPort (port : Option (Fin 65536)) : String := shown (port.map fun p => toString p.val)

def sorted (xs : List String) : List String := xs.insertionSort (· ≤ ·)

def strings (xs : List String) : Json := .arr (xs.map Json.str)

def accounts (values : List String) : List String := values.filter fun v => v ≠ "" && v ≠ "-"

def growing (cap base slope : ℚ) (n : ℤ) : ℚ :=
  min (Binary64.nearest cap) (Binary64.add (Binary64.nearest base)
    (Binary64.mul (Binary64.nearest slope) (Binary64.nearest n)))

end SiemEngine
