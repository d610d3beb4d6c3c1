import Mathlib.Tactic.FieldSimp
import SiemEngine.Detection.Ewma

/-!
# What a damped spike does to the baseline

Past the threshold the effective alpha shrinks with the z-score. The shift of the mean then
stays below that of an observation at the threshold, but the variance gains the square of
the deviation and outgrows what such an observation leaves unless the spike is mild.
-/

namespace SiemEngine.Ewma

variable {t : Tuning ℝ} {b : Ewma ℝ} {c : Call ℝ} {a s u z : ℝ}

/-! ### The two factors

With `u` for the divisor of alpha and `s` for the threshold less one, the z-score of a spike
is `u + s` and that of an observation at the threshold `1 + s`. -/

theorem shift_le (ha : 0 ≤ a) (hs : 0 ≤ s) (hu : 1 ≤ u) : a / u * (u + s) ≤ a * (1 + s) := by
  have hpos : 0 < u := one_pos.trans_le hu
  rw [div_mul_eq_mul_div, div_le_iff₀ hpos, mul_assoc]
  refine mul_le_mul_of_nonneg_left ?_ ha
  nlinarith

theorem inflation_sub (a s : ℝ) (hu : u ≠ 0) :
    (1 - a) * (1 + a * (1 + s) ^ 2) - (1 - a / u) * (1 + a / u * (u + s) ^ 2) =
      a * (u - 1) / u ^ 2 *
        ((1 - a) * s ^ 2 * u - (u ^ 2 + (1 + 2 * a * s) * u + a * s ^ 2)) := by
  field_simp
  ring

theorem inflation_le_iff (ha : 0 < a) (hu : 1 < u) :
    (1 - a / u) * (1 + a / u * (u + s) ^ 2) ≤ (1 - a) * (1 + a * (1 + s) ^ 2) ↔
      u ^ 2 + (1 + 2 * a * s) * u + a * s ^ 2 ≤ (1 - a) * s ^ 2 * u := by
  have hpos : 0 < u := one_pos.trans hu
  have hfactor : 0 < a * (u - 1) / u ^ 2 :=
    div_pos (mul_pos ha (sub_pos.mpr hu)) (pow_pos hpos 2)
  rw [← sub_nonneg, inflation_sub a s hpos.ne', mul_nonneg_iff_of_pos_left hfactor, sub_nonneg]

/-- The new baseline is within what an observation at the threshold would leave. -/
structure Damped (t : Tuning ℝ) (b b' : Ewma ℝ) : Prop where
  mean : |b'.mean - b.mean| ≤ t.alpha * t.zThreshold * √b.var
  var : b'.var ≤ (1 - t.alpha) * (1 + t.alpha * t.zThreshold ^ 2) * b.var

/-- The spikes whose damping outweighs their square. -/
def Mild (t : Tuning ℝ) (z : ℝ) : Prop :=
  let u := 1 + |z| - t.zThreshold
  let s := t.zThreshold - 1
  u ^ 2 + (1 + 2 * t.alpha * s) * u + t.alpha * s ^ 2 ≤ (1 - t.alpha) * s ^ 2 * u

theorem effAlpha_of_spike (h : t.zThreshold < |z|) :
    effAlpha .exact t z = t.alpha / (1 + |z| - t.zThreshold) := by
  have hexcess : max 0 (|z| - t.zThreshold) = |z| - t.zThreshold :=
    max_eq_right (sub_nonneg.mpr h.le)
  change t.alpha / (1 + max 0 (|z| - t.zThreshold)) = _
  rw [hexcess, add_sub_assoc]

theorem value_sub_mean (h : 1 / 1000000000 ≤ √b.var) (value : ℝ) :
    value - b.mean = zScore .exact b value * √b.var := by
  have hpos : (0 : ℝ) < √b.var := lt_of_lt_of_le (by norm_num) h
  have hz : zScore .exact b value = (value - b.mean) / √b.var := if_neg (not_lt.mpr h)
  rw [hz, div_mul_cancel₀ _ hpos.ne']

theorem var_pos_of_std (h : 1 / 1000000000 ≤ √b.var) : 0 < b.var :=
  Real.sqrt_pos.mp (lt_of_lt_of_le (by norm_num) h)

theorem mean_sub_of_spike (hstd : 1 / 1000000000 ≤ √b.var)
    (h : t.zThreshold < |zScore .exact b c.value|) :
    |(updated .exact t b c).mean - b.mean| =
      |t.alpha / (1 + |zScore .exact b c.value| - t.zThreshold)| *
        |zScore .exact b c.value| * √b.var := by
  rw [mean_updated, add_sub_cancel_left, effAlpha_of_spike h, value_sub_mean hstd, abs_mul,
    abs_mul, abs_of_nonneg (Real.sqrt_nonneg _), mul_assoc]

theorem var_of_spike (hstd : 1 / 1000000000 ≤ √b.var)
    (h : t.zThreshold < |zScore .exact b c.value|) :
    (updated .exact t b c).var =
      (1 - t.alpha / (1 + |zScore .exact b c.value| - t.zThreshold)) *
        (1 + t.alpha / (1 + |zScore .exact b c.value| - t.zThreshold) *
          |zScore .exact b c.value| ^ 2) * b.var := by
  rw [var_updated, effAlpha_of_spike h, value_sub_mean hstd, mul_pow,
    Real.sq_sqrt (var_pos_of_std hstd).le, sq_abs]
  ring

/-- The mean moves no further than at the threshold, however far out the value is. -/
theorem mean_damped (h₀ : 0 < t.alpha) (h₁ : 1 < t.zThreshold)
    (hstd : 1 / 1000000000 ≤ √b.var) (h : t.zThreshold < |zScore .exact b c.value|) :
    |(updated .exact t b c).mean - b.mean| ≤ t.alpha * t.zThreshold * √b.var := by
  have hu : 1 < 1 + |zScore .exact b c.value| - t.zThreshold := by linarith
  have hle := shift_le h₀.le (sub_nonneg.mpr h₁.le) hu.le
  have hz : 1 + |zScore .exact b c.value| - t.zThreshold + (t.zThreshold - 1) =
      |zScore .exact b c.value| := by ring
  rw [hz, add_sub_cancel] at hle
  rw [mean_sub_of_spike hstd h, abs_of_pos (div_pos h₀ (one_pos.trans hu))]
  exact mul_le_mul_of_nonneg_right hle (Real.sqrt_nonneg _)

theorem var_damped_iff (h₀ : 0 < t.alpha) (hstd : 1 / 1000000000 ≤ √b.var)
    (h : t.zThreshold < |zScore .exact b c.value|) :
    (updated .exact t b c).var ≤ (1 - t.alpha) * (1 + t.alpha * t.zThreshold ^ 2) * b.var ↔
      Mild t (zScore .exact b c.value) := by
  have hu : 1 < 1 + |zScore .exact b c.value| - t.zThreshold := by linarith
  have hiff := @inflation_le_iff t.alpha (t.zThreshold - 1) _ h₀ hu
  have hz : 1 + |zScore .exact b c.value| - t.zThreshold + (t.zThreshold - 1) =
      |zScore .exact b c.value| := by ring
  rw [hz, add_sub_cancel] at hiff
  rw [var_of_spike hstd h, mul_le_mul_iff_left₀ (var_pos_of_std hstd)]
  exact hiff

theorem not_mild_default (z : ℝ) : ¬ Mild ⟨3 / 10, 7 / 2⟩ z := by
  intro h
  unfold Mild at h
  dsimp only at h
  nlinarith [sq_nonneg (1 + |z| - 7 / 2 - 15 / 16)]

/-- An observation past the threshold is bounded by one at the threshold exactly when it is
mild. -/
theorem spike_damped_iff (t : Tuning ℝ) (stored : Option (Ewma ℝ)) (c : Call ℝ)
    (h₀ : 0 < t.alpha) (h₁ : 1 < t.zThreshold) (hstd : 1 / 1000000000 ≤ √(read stored c).var)
    (h : t.zThreshold < |zScore .exact (read stored c) c.value|) :
    ∃ b', observe .exact t stored c = some b' ∧
      (Damped t (read stored c) b' ↔ Mild t (zScore .exact (read stored c) c.value)) := by
  refine ⟨_, observe_eq (var_pos_of_std hstd).le, fun hdamped => ?_, fun hmild => ?_⟩
  · exact (var_damped_iff h₀ hstd h).mp hdamped.var
  · exact ⟨mean_damped h₀ h₁ hstd h, (var_damped_iff h₀ hstd h).mpr hmild⟩

theorem zScore_unit (value : ℝ) (n : ℕ) (expiresAt : Time) :
    zScore .exact ⟨0, 1, n, expiresAt⟩ value = value := by
  have hone : √(1 : ℝ) = 1 := Real.sqrt_one
  have hstd : ¬ √(1 : ℝ) < 1 / 1000000000 := by
    rw [hone]
    norm_num
  have hz : zScore .exact ⟨0, 1, n, expiresAt⟩ value = (value - 0) / √1 := if_neg hstd
  rw [hz, hone, sub_zero, div_one]

theorem spike_damped_iff_mild :
    ∃ b', observe .exact ⟨1 / 10, 6⟩ (some ⟨0, 1, 20, 1⟩) ⟨7, 0⟩ = some b' ∧
      Damped ⟨1 / 10, 6⟩ ⟨0, 1, 20, 1⟩ b' := by
  have hread : read (some (⟨0, 1, 20, 1⟩ : Ewma ℝ)) ⟨7, 0⟩ = ⟨0, 1, 20, 1⟩ :=
    read_of_alive (by decide)
  obtain ⟨b', hb', hiff⟩ := spike_damped_iff ⟨1 / 10, 6⟩ (some ⟨0, 1, 20, 1⟩) ⟨7, 0⟩
    (by norm_num) (by norm_num) (by rw [hread, Real.sqrt_one]; norm_num)
    (by rw [hread, zScore_unit]; norm_num)
  rw [hread, zScore_unit] at hiff
  refine ⟨b', hb', hiff.mpr ?_⟩
  norm_num [Mild]

/-- Under the default settings a value of 100 standard deviations multiplies the variance by
more than nine times what an observation at the threshold would. -/
theorem spike_poisons_variance :
    let t : Tuning ℝ := ⟨3 / 10, 7 / 2⟩
    let b : Ewma ℝ := ⟨0, 1, 20, 1⟩
    1 / 1000000000 ≤ √b.var ∧ t.zThreshold < |zScore .exact b 100| ∧
      ∃ b', observe .exact t (some b) ⟨100, 0⟩ = some b' ∧
        9 * ((1 - t.alpha) * (1 + t.alpha * t.zThreshold ^ 2) * b.var) < b'.var := by
  intro t b
  have hstd : 1 / 1000000000 ≤ √b.var := by
    rw [Real.sqrt_one]
    norm_num
  have hz : zScore .exact b 100 = 100 := zScore_unit 100 20 1
  have hspike : t.zThreshold < |zScore .exact b 100| := by
    rw [hz]
    norm_num
  have hread : read (some b) ⟨100, 0⟩ = b := read_of_alive (by decide)
  have hnonneg : 0 ≤ (read (some b) ⟨100, 0⟩).var := by
    rw [hread]
    exact zero_le_one
  refine ⟨hstd, hspike, _, observe_eq hnonneg, ?_⟩
  rw [hread, var_of_spike hstd hspike, hz]
  norm_num

end SiemEngine.Ewma
