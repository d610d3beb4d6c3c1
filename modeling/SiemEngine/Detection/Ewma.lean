import Mathlib.Analysis.Real.Sqrt
import Mathlib.Data.List.Chain
import Mathlib.Data.List.OfFn
import SiemEngine.Detection.Anomaly
import SiemEngine.Lib.Mixture

/-!
# The exponentially weighted baseline in exact arithmetic

The update of a baseline is written once for any arithmetic: with the rounding of doubles it
is the update of the detector, and without rounding the stored mean and variance are those of
the observed values under some weights, whatever the z-scores did to the effective alpha.
-/

namespace SiemEngine

/-- The arithmetic of the update: the result of every operation is rounded. -/
structure Arithmetic (K : Type*) where
  round : K → K
  sqrt : K → K

def Arithmetic.binary64 (py : Python) : Arithmetic ℚ := ⟨Binary64.nearest, py.sqrt⟩

noncomputable def Arithmetic.exact : Arithmetic ℝ := ⟨id, Real.sqrt⟩

structure Ewma (K : Type*) where
  mean : K
  var : K
  n : ℕ
  expiresAt : Time

namespace Ewma

structure Tuning (K : Type*) where
  alpha : K
  zThreshold : K

structure Call (K : Type*) where
  value : K
  clock : Time

open StatisticalAnomalyDetector (weekInMicros)

section Code

variable {K : Type*} [Field K]

def read (stored : Option (Ewma K)) (c : Call K) : Ewma K :=
  match stored with
  | none => ⟨c.value, 0, 0, 0⟩
  | some b => if b.expiresAt < c.clock then ⟨c.value, 0, 0, 0⟩ else b

theorem read_of_expired {b : Ewma K} {c : Call K} (h : b.expiresAt < c.clock) :
    read (some b) c = ⟨c.value, 0, 0, 0⟩ :=
  if_pos h

theorem read_of_alive {b : Ewma K} {c : Call K} (h : c.clock ≤ b.expiresAt) :
    read (some b) c = b :=
  if_neg (not_lt.mpr h)

variable [LinearOrder K] (A : Arithmetic K) (t : Tuning K)

def zScore (b : Ewma K) (value : K) : K :=
  if A.sqrt b.var < A.round (1 / 1000000000) then 0
  else A.round (A.round (value - b.mean) / A.sqrt b.var)

def effAlpha (z : K) : K :=
  A.round (t.alpha / A.round (1 + max 0 (A.round (|z| - t.zThreshold))))

def updated (b : Ewma K) (c : Call K) : Ewma K :=
  let alpha := effAlpha A t (zScore A b c.value)
  let delta := A.round (c.value - b.mean)
  { mean := A.round (b.mean + A.round (alpha * delta))
    var := A.round (A.round (1 - alpha) *
      A.round (b.var + A.round (A.round (alpha * delta) * delta)))
    n := b.n + 1
    expiresAt := c.clock + weekInMicros }

/-- What the call stores, unless `math.sqrt` raises on a negative variance. -/
def observe (stored : Option (Ewma K)) (c : Call K) : Option (Ewma K) :=
  if (read stored c).var < 0 then none else some (updated A t (read stored c) c)

def observeAll (stored : Option (Ewma K)) (cs : List (Call K)) : Option (Option (Ewma K)) :=
  cs.foldlM (fun stored c => (observe A t stored c).map some) stored

variable {A t}

theorem observe_eq {stored : Option (Ewma K)} {c : Call K} (h : 0 ≤ (read stored c).var) :
    observe A t stored c = some (updated A t (read stored c) c) :=
  if_neg (not_lt.mpr h)

theorem observeAll_cons (stored : Option (Ewma K)) (c : Call K) (cs : List (Call K)) :
    observeAll A t stored (c :: cs) =
      (observe A t stored c).bind fun b => observeAll A t (some b) cs := by
  rw [observeAll, List.foldlM_cons]
  cases observe A t stored c <;> rfl

theorem observeAll_concat (stored : Option (Ewma K)) (cs : List (Call K)) (c : Call K) :
    observeAll A t stored (cs.concat c) =
      (observeAll A t stored cs).bind fun stored => (observe A t stored c).map some := by
  rw [observeAll, List.concat_eq_append, List.foldlM_append]
  change (observeAll A t stored cs).bind _ = _
  congr 1
  funext stored'
  cases h : observe A t stored' c with
  | none => simp [h]
  | some b => simp [h]

end Code

def ofBaseline (b : Baseline) : Ewma ℚ := ⟨b.mean, b.var, b.n, b.expiresAt⟩

def tuning (det : StatisticalAnomalyDetector) : Tuning ℚ := ⟨det.alpha, det.zThreshold⟩

theorem read_ofBaseline (bs : Baselines) (metric : String) (c : Call ℚ) :
    read ((Dict.get? bs metric).map ofBaseline) c =
      ofBaseline (StatisticalAnomalyDetector.baseline bs c.clock metric c.value) := by
  unfold StatisticalAnomalyDetector.baseline
  cases Dict.get? bs metric with
  | none => rfl
  | some b =>
    rcases lt_or_ge b.expiresAt c.clock with hexp | hle
    · simp [read, ofBaseline, hexp]
    · simp [read, ofBaseline, not_lt.mpr hle]

theorem updated_ofBaseline (py : Python) (det : StatisticalAnomalyDetector) (b : Baseline)
    (c : Call ℚ) : updated (.binary64 py) (tuning det) (ofBaseline b) c =
      ofBaseline (det.updated py b c.clock c.value) := rfl

/-- With the rounding of doubles this is what the detector stores. -/
theorem observe_binary64 (py : Python) (det : StatisticalAnomalyDetector) (bs : Baselines)
    (metric : String) (c : Call ℚ)
    (h : 0 ≤ (StatisticalAnomalyDetector.baseline bs c.clock metric c.value).var) :
    observe (.binary64 py) (tuning det) ((Dict.get? bs metric).map ofBaseline) c =
      (Dict.get? (det.observe py c.clock bs metric c.value).1 metric).map ofBaseline := by
  have hvar : 0 ≤ (read ((Dict.get? bs metric).map ofBaseline) c).var := by
    rw [read_ofBaseline]
    exact h
  rw [observe_eq hvar, read_ofBaseline, updated_ofBaseline, StatisticalAnomalyDetector.observe,
    Dict.get?_set_self]
  rfl

section Exact

open Mixture

/-- No call finds the entry that the call before it wrote expired. -/
def Lasting {n : ℕ} (cs : Fin (n + 1) → Call ℝ) : Prop :=
  ∀ i : Fin n, (cs i.succ).clock ≤ (cs i.castSucc).clock + weekInMicros

/-- The mean and the variance are weighted ones of the observed values, and the count is
theirs as long as the entry never expired. -/
structure Weighted {n : ℕ} (cs : Fin (n + 1) → Call ℝ) (b : Ewma ℝ) : Prop where
  weights : ∃ w ∈ stdSimplex ℝ (Fin (n + 1)), b.mean = Mixture.mean w (fun i => (cs i).value) ∧
    b.var = variance w fun i => (cs i).value
  count_le : b.n ≤ n + 1
  count_eq : b.n = n + 1 ↔ Lasting cs

variable {t : Tuning ℝ} {n : ℕ} {cs : Fin (n + 1) → Call ℝ} {b : Ewma ℝ}

theorem effAlpha_pos (h : 0 < t.alpha) (z : ℝ) : 0 < effAlpha .exact t z :=
  div_pos h (add_pos_of_pos_of_nonneg one_pos (le_max_left _ _))

theorem effAlpha_le (h : 0 < t.alpha) (z : ℝ) : effAlpha .exact t z ≤ t.alpha :=
  div_le_self h.le (le_add_of_nonneg_right (le_max_left _ _))

theorem mean_updated (b : Ewma ℝ) (c : Call ℝ) : (updated .exact t b c).mean =
    b.mean + effAlpha .exact t (zScore .exact b c.value) * (c.value - b.mean) := rfl

theorem var_updated (b : Ewma ℝ) (c : Call ℝ) : (updated .exact t b c).var =
    (1 - effAlpha .exact t (zScore .exact b c.value)) *
      (b.var + effAlpha .exact t (zScore .exact b c.value) * (c.value - b.mean) ^ 2) := by
  rw [sq, ← mul_assoc]
  rfl

namespace Weighted

theorem var_nonneg (h : Weighted cs b) : 0 ≤ b.var := by
  obtain ⟨w, hw, -, hvar⟩ := h.weights
  rw [hvar]
  exact variance_nonneg hw

theorem mean_mem_Icc (h : Weighted cs b) {lo hi : ℝ}
    (hbounds : ∀ i, (cs i).value ∈ Set.Icc lo hi) : b.mean ∈ Set.Icc lo hi := by
  obtain ⟨w, hw, hmean, -⟩ := h.weights
  rw [hmean]
  exact Mixture.mean_mem_Icc hw hbounds

end Weighted

theorem updated_fresh (t : Tuning ℝ) (c : Call ℝ) :
    updated .exact t ⟨c.value, 0, 0, 0⟩ c = ⟨c.value, 0, 1, c.clock + weekInMicros⟩ := by
  have hmean : (updated .exact t ⟨c.value, 0, 0, 0⟩ c).mean = c.value := by
    rw [mean_updated, sub_self, mul_zero, add_zero]
  have hvar : (updated .exact t ⟨c.value, 0, 0, 0⟩ c).var = 0 := by
    rw [var_updated, sub_self]
    simp
  calc updated .exact t ⟨c.value, 0, 0, 0⟩ c =
      ⟨(updated .exact t ⟨c.value, 0, 0, 0⟩ c).mean,
        (updated .exact t ⟨c.value, 0, 0, 0⟩ c).var, 1, c.clock + weekInMicros⟩ := rfl
    _ = ⟨c.value, 0, 1, c.clock + weekInMicros⟩ := by rw [hmean, hvar]

theorem lasting_succ {cs : Fin (n + 2) → Call ℝ} : Lasting cs ↔ Lasting (Fin.init cs) ∧
    (cs (Fin.last (n + 1))).clock ≤ (cs (Fin.last n).castSucc).clock + weekInMicros := by
  rw [Lasting, Fin.forall_fin_succ']
  rfl

theorem snoc_init_value (cs : Fin (n + 2) → Call ℝ) :
    (fun i => (cs i).value) = @Fin.snoc (n + 1) (fun _ => ℝ) (fun i => (Fin.init cs i).value)
      (cs (Fin.last (n + 1))).value := by
  funext i
  refine Fin.lastCases ?_ (fun i => ?_) i
  · rw [Fin.snoc_last]
  · rw [Fin.snoc_castSucc]
    rfl

/-- The step lemma: the effective alpha is the weight of the new value, and one where the
entry has expired. -/
theorem Weighted.updated {cs : Fin (n + 2) → Call ℝ} (h : Weighted (Fin.init cs) b)
    (hb : b.expiresAt = (cs (Fin.last n).castSucc).clock + weekInMicros) (h₀ : 0 < t.alpha)
    (h₁ : t.alpha ≤ 1) : Weighted cs
      (updated .exact t (read (some b) (cs (Fin.last (n + 1)))) (cs (Fin.last (n + 1)))) := by
  obtain ⟨⟨w, hw, hmean, hvar⟩, hle, heq⟩ := h
  generalize hc : cs (Fin.last (n + 1)) = c
  rcases lt_or_ge b.expiresAt c.clock with hexp | halive
  · rw [read_of_expired hexp, updated_fresh]
    refine ⟨⟨mixed w 1, mixed_mem hw zero_le_one le_rfl, ?_, ?_⟩, by simp, ?_⟩
    · rw [snoc_init_value, mean_mixed, hc]
      ring
    · rw [snoc_init_value, variance_mixed hw]
      ring
    · rw [lasting_succ, hc, ← hb]
      exact iff_of_false (by simp) fun hlast => absurd hlast.2 (not_le.mpr hexp)
  · rw [read_of_alive halive]
    refine ⟨⟨mixed w (effAlpha .exact t (zScore .exact b c.value)), mixed_mem hw
      (effAlpha_pos h₀ _).le ((effAlpha_le h₀ _).trans h₁), ?_, ?_⟩, Nat.succ_le_succ hle, ?_⟩
    · rw [snoc_init_value, mean_mixed, hc, mean_updated, hmean]
    · rw [snoc_init_value, variance_mixed hw, hc, var_updated, hmean, hvar]
    · rw [lasting_succ, hc, ← hb, ← heq, and_iff_left halive]
      exact Nat.succ_inj

theorem weighted_observeAll (h₀ : 0 < t.alpha) (h₁ : t.alpha ≤ 1)
    (cs : Fin (n + 1) → Call ℝ) : ∃ b, observeAll .exact t none (List.ofFn cs) = some (some b) ∧
      Weighted cs b ∧ b.expiresAt = (cs (Fin.last n)).clock + weekInMicros := by
  induction n with
  | zero =>
    have hread : read none (cs 0) = ⟨(cs 0).value, 0, 0, 0⟩ := rfl
    have hobserve : observe .exact t none (cs 0) =
        some ⟨(cs 0).value, 0, 1, (cs 0).clock + weekInMicros⟩ := by
      rw [observe_eq (by rw [hread]), hread, updated_fresh]
    refine ⟨⟨(cs 0).value, 0, 1, (cs 0).clock + weekInMicros⟩, ?_, ?_, rfl⟩
    · simp [observeAll, hobserve]
    · refine ⟨⟨fun _ => 1, one_mem, ?_, ?_⟩, le_rfl, iff_of_true rfl fun i => i.elim0⟩
      · rw [mean_one]
      · rw [variance_one]
  | succ n ih =>
    obtain ⟨b, hb, hweighted, hexpires⟩ := ih (Fin.init cs)
    have hnonneg : 0 ≤ (read (some b) (cs (Fin.last (n + 1)))).var := by
      rcases lt_or_ge b.expiresAt (cs (Fin.last (n + 1))).clock with hexp | halive
      · rw [read_of_expired hexp]
      · rw [read_of_alive halive]
        exact hweighted.var_nonneg
    refine ⟨updated .exact t (read (some b) (cs (Fin.last (n + 1)))) (cs (Fin.last (n + 1))), ?_,
      hweighted.updated hexpires h₀ h₁, rfl⟩
    have hsplit : List.ofFn cs = (List.ofFn (Fin.init cs)).concat (cs (Fin.last (n + 1))) :=
      List.ofFn_succ' cs
    rw [hsplit, observeAll_concat, hb, Option.bind_some, observe_eq hnonneg, Option.map_some]

/-- Along every sequence of calls on a fresh metric no call raises, the mean and the variance
are weighted ones of the observed values, the mean lies between their bounds, and the count is
the number of calls exactly as long as the entry never expired. -/
theorem baseline_weighted (t : Tuning ℝ) (h₀ : 0 < t.alpha) (h₁ : t.alpha ≤ 1) {n : ℕ}
    (cs : Fin (n + 1) → Call ℝ) :
    ∃ b, observeAll .exact t none (List.ofFn cs) = some (some b) ∧ Weighted cs b ∧
      (∀ lo hi, (∀ i, (cs i).value ∈ Set.Icc lo hi) → b.mean ∈ Set.Icc lo hi) ∧ 0 ≤ b.var := by
  obtain ⟨b, hb, hweighted, -⟩ := weighted_observeAll h₀ h₁ cs
  exact ⟨b, hb, hweighted, fun lo hi => hweighted.mean_mem_Icc, hweighted.var_nonneg⟩

theorem baseline_weighted_two_calls :
    ∃ b, observeAll .exact ⟨3 / 10, 7 / 2⟩ none (List.ofFn ![⟨1, 0⟩, ⟨3, 60⟩]) = some (some b) ∧
      b.mean ∈ Set.Icc 1 3 ∧ b.n = 2 := by
  obtain ⟨b, hb, hweighted, hmean, -⟩ := baseline_weighted ⟨3 / 10, 7 / 2⟩ (by norm_num)
    (by norm_num) ![⟨1, 0⟩, ⟨3, 60⟩]
  refine ⟨b, hb, hmean 1 3 fun i => ?_, hweighted.count_eq.mpr fun i => ?_⟩
  · fin_cases i <;> norm_num
  · fin_cases i
    decide

/-- Of two calls two weeks apart the baseline counts the second only. -/
theorem expired_call_uncounted :
    ∃ b, observeAll .exact ⟨3 / 10, 7 / 2⟩ none (List.ofFn ![⟨1, 0⟩, ⟨1, 2 * weekInMicros⟩]) =
      some (some b) ∧ b.n = 1 := by
  have hfirst : observe .exact ⟨3 / 10, 7 / 2⟩ none ⟨1, 0⟩ = some ⟨1, 0, 1, 0 + weekInMicros⟩ := by
    rw [observe_eq le_rfl]
    exact congrArg some (updated_fresh _ ⟨1, 0⟩)
  have hexp : 0 + weekInMicros < 2 * weekInMicros := by decide
  have hsecond : observe .exact ⟨3 / 10, 7 / 2⟩ (some ⟨1, 0, 1, 0 + weekInMicros⟩)
      ⟨1, 2 * weekInMicros⟩ = some ⟨1, 0, 1, 2 * weekInMicros + weekInMicros⟩ := by
    have hread : read (some (⟨1, 0, 1, 0 + weekInMicros⟩ : Ewma ℝ)) ⟨1, 2 * weekInMicros⟩ =
        ⟨1, 0, 0, 0⟩ := read_of_expired hexp
    rw [observe_eq (by rw [hread]), hread]
    exact congrArg some (updated_fresh _ ⟨1, 2 * weekInMicros⟩)
  refine ⟨⟨1, 0, 1, 2 * weekInMicros + weekInMicros⟩, ?_, rfl⟩
  have hpair : ∀ x y : Call ℝ, List.ofFn ![x, y] = [x, y] := fun x y => rfl
  rw [hpair, observeAll_cons, hfirst, Option.bind_some, observeAll_cons, hsecond]
  rfl

end Exact

end Ewma

end SiemEngine
