import SiemEngine.Detection.Ewma
import SiemEngine.Detection.SharedBaseline

/-!
# Which baselines report a large deviation

Below a standard deviation of `1e-9` the z-score is zero whatever the value is. A baseline of
equal observations has variance zero, so no value departs from it; from any other one a value
far enough from the mean is reported.
-/

namespace SiemEngine.StatisticalAnomalyDetector

deriving instance DecidableEq for Baseline

open Binary64

variable (py : Python) (det : StatisticalAnomalyDetector) (metric : String)

/-- A call of `observe`; where it raises nothing is stored. -/
def afterCall (bs : Baselines) (c : Ewma.Call ℚ) : Baselines :=
  match det.observeOrRaise py c.clock bs metric c.value with
  | none => bs
  | some out => out.1

def afterAll (cs : List (Ewma.Call ℚ)) : Baselines := Run.exec (afterCall py det metric) [] cs

def Reports (bs : Baselines) (clock : Time) (value : ℚ) : Prop :=
  ∃ out ∈ det.observeOrRaise py clock bs metric value, out.2.isSome = true

/-- A double that a next value can be. The metrics are numbers of events and sums of sizes
below `2 ^ 63`, so the bound leaves room for every value that a minute can have. -/
def Value (v : ℚ) : Prop := nearest v = v ∧ |v| ≤ 2 ^ 470

/-- What a usable baseline does with the next value. -/
structure Sighted (bs : Baselines) (clock : Time) (mean : ℚ) : Prop where
  far : ∃ d, (∃ v, Value v ∧ d ≤ |v - mean|) ∧
    ∀ v, Value v → d ≤ |v - mean| → Reports py det metric bs clock v
  further : ∀ v w, Value v → Value w → Outward (v - mean) (w - mean) →
    Reports py det metric bs clock v → Reports py det metric bs clock w

variable {py det metric} {bs : Baselines} {clock : Time} {b : Baseline} {std mean v w : ℚ}

theorem zScore_of_small (h : std < nearest (1 / 1000000000)) : zScore std mean v = 0 :=
  if_pos h

theorem zScore_of_le (h : nearest (1 / 1000000000) ≤ std) :
    zScore std mean v = div (sub v mean) std :=
  if_neg (not_lt.mpr h)

theorem roundings : 1 / 2 ^ 30 ≤ nearest (1 / 1000000000) ∧
    nearest (2 ^ 300 + 2 ^ 400) = 2 ^ 400 ∧ nearest (-(2 ^ 300 + 2 ^ 400)) = -2 ^ 400 ∧
    nearest (2 ^ 850 + 2 ^ 796) = 2 ^ 850 ∧ 0 ≤ nearest (15 / 16) ∧
    nearest (nearest (15 / 16) * nearest (2 ^ 850 + 2 ^ 800)) ≤ 2 ^ 850 := by
  decide +kernel

theorem pow_add_pow_le {i j k : ℕ} (hi : i ≤ k) (hj : j ≤ k) :
    (2 : ℚ) ^ i + 2 ^ j ≤ 2 ^ (k + 1) := by
  calc (2 : ℚ) ^ i + 2 ^ j ≤ 2 ^ k + 2 ^ k := by gcongr <;> exact one_le_two
    _ = 2 ^ (k + 1) := by rw [pow_succ, mul_two]

theorem std_pos (h : nearest (1 / 1000000000) ≤ std) : 0 < std := by
  have hsmall : (0 : ℚ) < 1 / 2 ^ 30 := by positivity
  exact hsmall.trans_le (roundings.1.trans h)

theorem abs_zScore_le (h : Outward (v - mean) (w - mean)) :
    |zScore std mean v| ≤ |zScore std mean w| := by
  rcases lt_or_ge std (nearest (1 / 1000000000)) with hsmall | hle
  · rw [zScore_of_small hsmall, zScore_of_small hsmall]
  · rw [zScore_of_le hle, zScore_of_le hle]
    exact (h.nearest.div (std_pos hle).le).nearest.abs_le

theorem le_zScore (h : nearest (1 / 1000000000) ≤ std) (hstd : std ≤ 2 ^ 425)
    (hv : 2 ^ 457 ≤ |v - mean|) : 2 ^ 32 ≤ |zScore std mean v| := by
  have hsub : (2 : ℚ) ^ 457 ≤ |sub v mean| := two_pow_le_abs_nearest hv
  have hquot : (2 : ℚ) ^ 32 ≤ |sub v mean / std| := by
    rw [abs_div, abs_of_pos (std_pos h), le_div_iff₀ (std_pos h)]
    calc (2 : ℚ) ^ 32 * std ≤ 2 ^ 32 * 2 ^ 425 := by gcongr
      _ = 2 ^ 457 := (pow_add 2 32 425).symm
      _ ≤ |sub v mean| := hsub
  rw [zScore_of_le h]
  exact two_pow_le_abs_nearest hquot

theorem abs_zScore_le_two_pow (hmean : |mean| ≤ 2 ^ 400) (hv : Value v) :
    |zScore std mean v| ≤ 2 ^ 501 := by
  rcases lt_or_ge std (nearest (1 / 1000000000)) with hsmall | hle
  · rw [zScore_of_small hsmall, abs_zero]
    positivity
  · have hdist : |v - mean| ≤ 2 ^ 471 := by
      calc |v - mean| ≤ |v| + |mean| := abs_sub v mean
        _ ≤ 2 ^ 470 + 2 ^ 400 := add_le_add hv.2 hmean
        _ ≤ 2 ^ 471 := pow_add_pow_le le_rfl (by decide)
    have hsub : |sub v mean| ≤ 2 ^ 471 := abs_nearest_le_two_pow hdist
    rw [zScore_of_le hle]
    apply abs_nearest_le_two_pow
    rw [abs_div, abs_of_pos (std_pos hle), div_le_iff₀ (std_pos hle)]
    calc |sub v mean| ≤ 2 ^ 471 := hsub
      _ = 2 ^ 501 * (1 / 2 ^ 30) := by
        rw [mul_one_div, eq_div_iff (by positivity), ← pow_add]
      _ ≤ 2 ^ 501 * std := by gcongr; exact roundings.1.trans hle

theorem not_overflows (hmean : |mean| ≤ 2 ^ 400) (ht : |det.zThreshold| ≤ 2 ^ 32)
    (hv : Value v) : let excess := sub |zScore std mean v| det.zThreshold
    ¬ Overflows (mul excess excess) := by
  intro excess
  have hz : |zScore std mean v| ≤ 2 ^ 501 := abs_zScore_le_two_pow hmean hv
  have hexcess : |excess| ≤ 2 ^ 502 := by
    apply abs_nearest_le_two_pow
    calc |(|zScore std mean v| - det.zThreshold)| ≤ |(|zScore std mean v|)| + |det.zThreshold| :=
          abs_sub _ _
      _ ≤ 2 ^ 501 + 2 ^ 32 := add_le_add (by rwa [abs_abs]) ht
      _ ≤ 2 ^ 502 := pow_add_pow_le le_rfl (by decide)
  have hsquare : |mul excess excess| ≤ 2 ^ 1004 := by
    apply abs_nearest_le_two_pow
    calc |excess * excess| = |excess| * |excess| := abs_mul _ _
      _ ≤ 2 ^ 502 * 2 ^ 502 := mul_le_mul hexcess hexcess (abs_nonneg _) (by positivity)
      _ = 2 ^ 1004 := (pow_add 2 502 502).symm
  exact not_le.mpr (hsquare.trans_lt (pow_lt_pow_right₀ one_lt_two (by decide)))

theorem get?_afterCall (bs : Baselines) (c : Ewma.Call ℚ) :
    Dict.get? (afterCall py det metric bs c) metric = Dict.get? bs metric ∨
      Dict.get? (afterCall py det metric bs c) metric =
        some (det.updated py (baseline bs c.clock metric c.value) c.clock c.value) := by
  unfold afterCall observeOrRaise
  split_ifs
  · exact Or.inl rfl
  · exact Or.inr (Dict.get?_set_self _ _ _)

theorem entry_afterAll {P : Baseline → Prop} {Q : Ewma.Call ℚ → Prop}
    (hfresh : ∀ c, Q c → P ⟨c.value, 0, 0, 0⟩)
    (hstep : ∀ b c, P b → Q c → P (det.updated py b c.clock c.value))
    {cs : List (Ewma.Call ℚ)} (hcs : ∀ c ∈ cs, Q c)
    (hb : Dict.get? (afterAll py det metric cs) metric = some b) : P b := by
  let Kept (bs : Baselines) : Prop := ∀ b, Dict.get? bs metric = some b → P b
  have hread : ∀ bs c, Kept bs → Q c → P (baseline bs c.clock metric c.value) := by
    intro bs c hbs hc
    rw [baseline]
    cases hget : Dict.get? bs metric with
    | none => exact hfresh c hc
    | some b =>
      dsimp only
      split_ifs
      · exact hfresh c hc
      · exact hbs b hget
  have hkeep : ∀ bs c, Kept bs → Q c → Kept (afterCall py det metric bs c) := by
    intro bs c hbs hc b hb
    rcases get?_afterCall bs c with h | h
    · exact hbs b (h ▸ hb)
    · rw [h] at hb
      rw [← Option.some.inj hb]
      exact hstep _ c (hread bs c hbs hc) hc
  have hnil : Kept [] := fun b hb => absurd hb (by simp)
  exact (Run.holds_of_guarded hkeep hnil (Run.guarded_of_forall hcs)).last b hb

theorem effAlpha_mem (h₀ : 0 ≤ det.alpha) (h₁ : det.alpha ≤ 1) {x : ℚ} (hx : 0 ≤ x) :
    0 ≤ div det.alpha (add 1 x) ∧ div det.alpha (add 1 x) ≤ 1 := by
  have hone : nearest 1 = 1 := by simpa using nearest_two_pow 0
  have hdivisor : 1 ≤ add 1 x := by
    calc (1 : ℚ) = nearest 1 := hone.symm
      _ ≤ nearest (1 + x) := nearest_mono (by linarith)
  have hquot₀ : 0 ≤ det.alpha / add 1 x := div_nonneg h₀ (zero_le_one.trans hdivisor)
  have hquot₁ : det.alpha / add 1 x ≤ 1 := div_le_one_of_le₀ (h₁.trans hdivisor)
    (zero_le_one.trans hdivisor)
  exact ⟨nearest_nonneg hquot₀, nearest_le_one hquot₀ hquot₁⟩

theorem mul_mul_self_nonneg {a x : ℚ} (ha : 0 ≤ a) : 0 ≤ mul (mul a x) x := by
  rcases le_total 0 x with hx | hx
  · exact nearest_nonneg (mul_nonneg (nearest_nonneg (mul_nonneg ha hx)) hx)
  · have hneg : mul a x ≤ 0 := nearest_nonpos (mul_nonpos_of_nonneg_of_nonpos ha hx)
    exact nearest_nonneg (mul_nonneg_of_nonpos_of_nonpos hneg hx)

structure Moderate (b : Baseline) : Prop where
  mean : |b.mean| ≤ 2 ^ 400
  var_nonneg : 0 ≤ b.var
  var_le : b.var ≤ 2 ^ 850

theorem var_updated_nonneg (h₀ : 0 ≤ det.alpha) (h₁ : det.alpha ≤ 1) (hb : 0 ≤ b.var)
    (clock : Time) (v : ℚ) : 0 ≤ (det.updated py b clock v).var := by
  obtain ⟨ha₀, ha₁⟩ := effAlpha_mem h₀ h₁
    (le_max_left 0 (sub |zScore (py.sqrt b.var) b.mean v| det.zThreshold))
  have hrest : 0 ≤ sub 1 (div det.alpha
      (add 1 (max 0 (sub |zScore (py.sqrt b.var) b.mean v| det.zThreshold)))) :=
    nearest_nonneg (sub_nonneg.mpr ha₁)
  have hsum := nearest_nonneg (add_nonneg hb (mul_mul_self_nonneg (x := sub v b.mean) ha₀))
  exact nearest_nonneg (mul_nonneg hrest hsum)

theorem abs_delta_le (hmean : |mean| ≤ 2 ^ 400) (hv : |v| ≤ 2 ^ 300) :
    |sub v mean| ≤ 2 ^ 400 := by
  -- the sum of the bounds rounds down to the larger of them
  refine abs_nearest_le (2 ^ 300 + 2 ^ 400) roundings.2.2.1 roundings.2.1 ?_
  exact (abs_sub v mean).trans (add_le_add hv hmean)

theorem mul_between {a x : ℚ} (ha₀ : 0 ≤ a) (ha₁ : a ≤ 1) (hx : nearest x = x) :
    0 ≤ mul a x ∧ mul a x ≤ x ∨ x ≤ mul a x ∧ mul a x ≤ 0 := by
  rcases le_total 0 x with h | h
  · exact Or.inl ⟨nearest_nonneg (mul_nonneg ha₀ h),
      (nearest_mono (mul_le_of_le_one_left h ha₁)).trans_eq hx⟩
  · refine Or.inr ⟨hx.symm.trans_le (nearest_mono ?_),
      nearest_nonpos (mul_nonpos_of_nonneg_of_nonpos ha₀ h)⟩
    have hle := mul_le_of_le_one_left (neg_nonneg.mpr h) ha₁
    linarith

theorem abs_moved_le {far near x p : ℚ} (hnear : 0 ≤ near) (hmean : |mean| ≤ far)
    (hx : |x| ≤ far) (hup : 0 ≤ mean → x ≤ near) (hdown : mean ≤ 0 → -near ≤ x)
    (hp : 0 ≤ p ∧ p ≤ x ∨ x ≤ p ∧ p ≤ 0) : |mean + p| ≤ near + far := by
  obtain ⟨hmlo, hmhi⟩ := abs_le.mp hmean
  obtain ⟨hxlo, hxhi⟩ := abs_le.mp hx
  refine abs_le.mpr ?_
  rcases hp with ⟨h₀, h₁⟩ | ⟨h₁, h₀⟩
  · rcases le_total 0 mean with hm | hm
    · have hle := hup hm
      exact ⟨by linarith, by linarith⟩
    · exact ⟨by linarith, by linarith⟩
  · rcases le_total 0 mean with hm | hm
    · exact ⟨by linarith, by linarith⟩
    · have hle := hdown hm
      exact ⟨by linarith, by linarith⟩

theorem abs_mean_moved_le {a : ℚ} (ha₀ : 0 ≤ a) (ha₁ : a ≤ 1) (hmean : |mean| ≤ 2 ^ 400)
    (hv : |v| ≤ 2 ^ 300) : |add mean (mul a (sub v mean))| ≤ 2 ^ 400 := by
  obtain ⟨hvlo, hvhi⟩ := abs_le.mp hv
  refine abs_nearest_le (2 ^ 300 + 2 ^ 400) roundings.2.2.1 roundings.2.1 ?_
  refine abs_moved_le (by positivity) hmean (abs_delta_le hmean hv) (fun hm => ?_) (fun hm => ?_)
    (mul_between ha₀ ha₁ (nearest_nearest (v - mean)))
  · exact (nearest_mono ((sub_le_self v hm).trans hvhi)).trans_eq (nearest_two_pow 300)
  · exact (nearest_neg_two_pow 300).symm.trans_le
      (nearest_mono (hvlo.trans (le_sub_self_iff v |>.mpr hm)))

theorem var_moved_le {a var delta : ℚ} (ha₀ : 0 ≤ a) (ha₁ : a ≤ 1) (hvar : var ≤ 2 ^ 850)
    (hdelta : |delta| ≤ 2 ^ 400) (hsum : 0 ≤ add var (mul (mul a delta) delta)) :
    mul (sub 1 a) (add var (mul (mul a delta) delta)) ≤ 2 ^ 850 := by
  have hrest₀ : 0 ≤ sub 1 a := nearest_nonneg (sub_nonneg.mpr ha₁)
  have hbound : ∀ k : ℕ, a ≤ 2 ^ k / 16 → k ≤ 4 → mul (mul a delta) delta ≤ 2 ^ (796 + k) := by
    intro k hk hk4
    have hfirst : |mul a delta| ≤ 2 ^ (396 + k) := by
      apply abs_nearest_le_two_pow
      calc |a * delta| = a * |delta| := by rw [abs_mul, abs_of_nonneg ha₀]
        _ ≤ 2 ^ k / 16 * 2 ^ 400 := mul_le_mul hk hdelta (abs_nonneg _) (by positivity)
        _ = 2 ^ (396 + k) := by
          rw [pow_add, show (2 : ℚ) ^ 400 = 2 ^ 396 * 2 ^ 4 from pow_add 2 396 4]
          generalize (2 : ℚ) ^ 396 = y
          ring
    refine (abs_le.mp (abs_nearest_le_two_pow ?_)).2
    calc |mul a delta * delta| = |mul a delta| * |delta| := abs_mul _ _
      _ ≤ 2 ^ (396 + k) * 2 ^ 400 := mul_le_mul hfirst hdelta (abs_nonneg _) (by positivity)
      _ = 2 ^ (796 + k) := by rw [← pow_add, Nat.add_right_comm]
  -- a small weight adds less than half a unit in the last place, a large one takes more away
  rcases le_total a (1 / 16) with hsmall | hlarge
  · have hadd : add var (mul (mul a delta) delta) ≤ 2 ^ 850 := by
      calc add var (mul (mul a delta) delta) ≤ nearest (2 ^ 850 + 2 ^ 796) :=
            nearest_mono (add_le_add hvar (hbound 0 (by simpa using hsmall) (by omega)))
        _ = 2 ^ 850 := roundings.2.2.2.1
    have hrest₁ : sub 1 a ≤ 1 := nearest_le_one (sub_nonneg.mpr ha₁) (sub_le_self 1 ha₀)
    calc mul (sub 1 a) _ ≤ nearest (2 ^ 850) :=
          nearest_mono ((mul_le_of_le_one_left hsum hrest₁).trans hadd)
      _ = 2 ^ 850 := nearest_two_pow 850
  · have hadd : add var (mul (mul a delta) delta) ≤ nearest (2 ^ 850 + 2 ^ 800) :=
      nearest_mono (add_le_add hvar (hbound 4 (by norm_num; exact ha₁) le_rfl))
    have hrest₁ : sub 1 a ≤ nearest (15 / 16) := nearest_mono (by linarith)
    obtain ⟨-, -, -, -, hpos, hround⟩ := roundings
    calc mul (sub 1 a) _ ≤ nearest (nearest (15 / 16) * nearest (2 ^ 850 + 2 ^ 800)) :=
          nearest_mono (mul_le_mul hrest₁ hadd hsum hpos)
      _ ≤ 2 ^ 850 := hround

theorem moderate_updated (h₀ : 0 ≤ det.alpha) (h₁ : det.alpha ≤ 1) (hb : Moderate b)
    (hv : |v| ≤ 2 ^ 300) (clock : Time) : Moderate (det.updated py b clock v) := by
  obtain ⟨ha₀, ha₁⟩ := effAlpha_mem h₀ h₁
    (le_max_left 0 (sub |zScore (py.sqrt b.var) b.mean v| det.zThreshold))
  have hsum := nearest_nonneg (add_nonneg hb.var_nonneg
    (mul_mul_self_nonneg (x := sub v b.mean) ha₀))
  exact ⟨abs_mean_moved_le ha₀ ha₁ hb.mean hv, var_updated_nonneg h₀ h₁ hb.var_nonneg clock v,
    var_moved_le ha₀ ha₁ hb.var_le (abs_delta_le hb.mean hv) hsum⟩

theorem moderate_afterAll (h₀ : 0 ≤ det.alpha) (h₁ : det.alpha ≤ 1) {cs : List (Ewma.Call ℚ)}
    (hcs : ∀ c ∈ cs, |c.value| ≤ 2 ^ 300)
    (hb : Dict.get? (afterAll py det metric cs) metric = some b) : Moderate b := by
  refine @entry_afterAll py det metric b Moderate (fun c => |c.value| ≤ 2 ^ 300)
    (fun c hc => ⟨hc.trans (pow_le_pow_right₀ one_le_two (by decide)), le_rfl, by positivity⟩)
    (fun b c hb hc => moderate_updated h₀ h₁ hb hc _) cs hcs hb

theorem updated_flat (hv : nearest v = v) (h : b.mean = v ∧ b.var = 0) (clock : Time) :
    (det.updated py b clock v).mean = v ∧ (det.updated py b clock v).var = 0 := by
  obtain ⟨hmean, hvar⟩ := h
  simp only [updated, hmean, hvar, sub_same, add, mul, mul_zero, add_zero, nearest_zero, hv,
    and_self]

theorem flat_afterAll (hv : nearest v = v) {cs : List (Ewma.Call ℚ)}
    (hcs : ∀ c ∈ cs, c.value = v)
    (hb : Dict.get? (afterAll py det metric cs) metric = some b) : b.mean = v ∧ b.var = 0 := by
  refine @entry_afterAll py det metric b (fun b => b.mean = v ∧ b.var = 0) (fun c => c.value = v)
    (fun c hc => ⟨hc, rfl⟩) (fun b c hb hc => ?_) cs hcs hb
  rw [hc]
  exact updated_flat hv hb _

theorem get?_of_stored (h : stored bs clock metric = some b) : Dict.get? bs metric = some b := by
  rw [stored] at h
  cases hget : Dict.get? bs metric with
  | none => simp [hget] at h
  | some b' =>
    simp only [hget] at h
    split_ifs at h
    exact h

theorem baseline_of_stored (h : stored bs clock metric = some b) (value : ℚ) :
    baseline bs clock metric value = b := by
  rw [baseline_eq_getD, h, Option.getD_some]

theorem reports_iff (h : stored bs clock metric = some b) (hn : det.minSamples ≤ b.n) :
    Reports py det metric bs clock v ↔
      ¬ det.raises py b v ∧ det.zThreshold ≤ |zScore (py.sqrt b.var) b.mean v| := by
  rw [Reports, observeOrRaise, baseline_of_stored h]
  by_cases hraises : det.raises py b v
  · simp [hraises]
  · simp [hraises, observe, baseline_of_stored h, hn, apply_ite Option.isSome]

theorem not_raises (hb : Moderate b) (ht : |det.zThreshold| ≤ 2 ^ 32) (hv : Value v) :
    ¬ det.raises py b v := by
  rintro (hvar | ⟨-, hover⟩)
  · exact absurd hvar (not_lt.mpr hb.var_nonneg)
  · exact not_overflows hb.mean ht hv hover

/-- After every history that leaves enough samples the detector sees a large deviation exactly
when the standard deviation is not taken for zero, or the threshold is. -/
theorem sighted_iff (py : Python) (det : StatisticalAnomalyDetector) (metric : String)
    (cs : List (Ewma.Call ℚ)) {clock : Time} {b : Baseline} (h₀ : 0 ≤ det.alpha)
    (h₁ : det.alpha ≤ 1) (ht : |det.zThreshold| ≤ 2 ^ 32)
    (hsqrt : ∀ x, x ≤ 2 ^ 850 → py.sqrt x ≤ 2 ^ 425) (hcs : ∀ c ∈ cs, |c.value| ≤ 2 ^ 300)
    (h : stored (afterAll py det metric cs) clock metric = some b) (hn : det.minSamples ≤ b.n) :
    Sighted py det metric (afterAll py det metric cs) clock b.mean ↔
      det.zThreshold ≤ 0 ∨ nearest (1 / 1000000000) ≤ py.sqrt b.var := by
  have hb : Moderate b := moderate_afterAll h₀ h₁ hcs (get?_of_stored h)
  constructor
  · intro hsighted
    obtain ⟨d, ⟨v, hv, hfar⟩, hd⟩ := hsighted.far
    obtain ⟨-, hz⟩ := (reports_iff h hn).mp (hd v hv hfar)
    rcases lt_or_ge (py.sqrt b.var) (nearest (1 / 1000000000)) with hsmall | hle
    · rw [zScore_of_small hsmall, abs_zero] at hz
      exact Or.inl hz
    · exact Or.inr hle
  · intro hcond
    constructor
    · refine ⟨2 ^ 457, ⟨2 ^ 470, ⟨nearest_two_pow 470, (abs_of_pos (by positivity)).le⟩, ?_⟩,
        fun v hv hfar => ?_⟩
      · have hsum : (2 : ℚ) ^ 457 + 2 ^ 400 ≤ 2 ^ 470 :=
          (pow_add_pow_le le_rfl (by decide)).trans (pow_le_pow_right₀ one_le_two (by decide))
        calc (2 : ℚ) ^ 457 ≤ 2 ^ 470 - 2 ^ 400 := le_sub_iff_add_le.mpr hsum
          _ ≤ 2 ^ 470 - b.mean := sub_le_sub_left ((le_abs_self _).trans hb.mean) _
          _ ≤ |2 ^ 470 - b.mean| := le_abs_self _
      · refine (reports_iff h hn).mpr ⟨not_raises hb ht hv, ?_⟩
        rcases hcond with hzero | hstd
        · exact hzero.trans (abs_nonneg _)
        · exact ((le_abs_self _).trans ht).trans (le_zScore hstd (hsqrt _ hb.var_le) hfar)
    · intro v w _ hw hout hv
      obtain ⟨-, hz⟩ := (reports_iff h hn).mp hv
      exact (reports_iff h hn).mpr ⟨not_raises hb ht hw, hz.trans (abs_zScore_le hout)⟩

theorem sighted_iff_two_values :
    let py : Python := { Python.ascii with sqrt := fun x => min x (2 ^ 425) }
    Sighted py ⟨1 / 2, 7 / 2, 2⟩ "db_errors_per_min"
      (afterAll py ⟨1 / 2, 7 / 2, 2⟩ "db_errors_per_min" [⟨0, 0⟩, ⟨2, 60⟩]) 120 1 := by
  intro py
  have hstored : stored (afterAll py ⟨1 / 2, 7 / 2, 2⟩ "db_errors_per_min"
      [⟨0, 0⟩, ⟨2, 60⟩]) 120 "db_errors_per_min" = some ⟨1, 1, 2, 60 + weekInMicros⟩ := by
    decide +kernel
  exact (sighted_iff py ⟨1 / 2, 7 / 2, 2⟩ "db_errors_per_min" [⟨0, 0⟩, ⟨2, 60⟩]
    (by decide +kernel) (by decide +kernel) (by decide +kernel) (fun x _ => min_le_right _ _)
    (by decide +kernel) hstored le_rfl).mpr (Or.inr (by decide +kernel))

/-- A metric that was always the same is never reported again, whatever its value becomes. -/
theorem constant_blind (hv : nearest v = v) {cs : List (Ewma.Call ℚ)}
    (hcs : ∀ c ∈ cs, c.value = v) (hsqrt : py.sqrt 0 = 0) (ht : 0 < det.zThreshold)
    (h : stored (afterAll py det metric cs) clock metric = some b) (hn : det.minSamples ≤ b.n)
    (w : ℚ) : ¬ Reports py det metric (afterAll py det metric cs) clock w := by
  intro hreport
  obtain ⟨-, hz⟩ := (reports_iff h hn).mp hreport
  have hvar : b.var = 0 := (flat_afterAll hv hcs (get?_of_stored h)).2
  rw [hvar, hsqrt, zScore_of_small (by decide +kernel), abs_zero] at hz
  exact absurd ht (not_lt.mpr hz)

/-- After twenty minutes without a database error no number of them is reported. -/
theorem quiet_metric_blind :
    let cs : List (Ewma.Call ℚ) := List.replicate 20 ⟨0, 0⟩
    let bs := afterAll .ascii {} "db_errors_per_min" cs
    ∃ b, stored bs 60 "db_errors_per_min" = some b ∧
      ({} : StatisticalAnomalyDetector).minSamples ≤ b.n ∧
      (∀ v, ¬ Reports .ascii {} "db_errors_per_min" bs 60 v) ∧
      ¬ Sighted .ascii {} "db_errors_per_min" bs 60 b.mean := by
  intro cs bs
  have hstored : stored bs 60 "db_errors_per_min" = some ⟨0, 0, 20, weekInMicros⟩ := by
    decide +kernel
  have hblind : ∀ v, ¬ Reports .ascii {} "db_errors_per_min" bs 60 v :=
    constant_blind nearest_zero (fun c hc => by rw [List.eq_of_mem_replicate hc]) rfl
      (by norm_num) hstored le_rfl
  refine ⟨_, hstored, le_rfl, hblind, fun hsighted => ?_⟩
  obtain ⟨d, ⟨v, hv, hfar⟩, hd⟩ := hsighted.far
  exact hblind v (hd v hv hfar)

end SiemEngine.StatisticalAnomalyDetector
