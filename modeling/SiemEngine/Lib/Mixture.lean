import Mathlib.Algebra.BigOperators.Fin
import Mathlib.Analysis.Convex.StdSimplex
import Mathlib.Tactic.Linarith
import Mathlib.Tactic.Ring

/-!
# Weighted means and variances

The mean and the variance of finitely many values under weights that sum to one. Mixing in
a further value with weight `a` scales the other weights by `1 - a`, moves the mean by `a`
times the deviation `δ` of that value, and turns the variance `v` into
`(1 - a) * (v + a * δ ^ 2)`.
-/

open scoped BigOperators

namespace Mixture

variable {K ι : Type*} [Field K] [Fintype ι]

def mean (w x : ι → K) : K := ∑ i, w i * x i

def variance (w x : ι → K) : K := ∑ i, w i * (x i - mean w x) ^ 2

/-- The weights after a value of weight `a` is mixed in. -/
def mixed {n : ℕ} (w : Fin n → K) (a : K) : Fin (n + 1) → K :=
  Fin.snoc (fun i => (1 - a) * w i) a

theorem mean_one (x : Fin 1 → K) : mean (fun _ => 1) x = x 0 := by
  simp [mean]

theorem variance_one (x : Fin 1 → K) : variance (fun _ => 1) x = 0 := by
  simp [variance, mean]

theorem sum_mixed {n : ℕ} (w : Fin n → K) (a : K) (f : K → K) (x : Fin n → K) (y : K) :
    ∑ i, mixed w a i * f (@Fin.snoc n (fun _ => K) x y i) =
      (1 - a) * ∑ i, w i * f (x i) + a * f y := by
  rw [Fin.sum_univ_castSucc]
  simp only [mixed, Fin.snoc_castSucc, Fin.snoc_last, mul_assoc]
  rw [← Finset.mul_sum]

theorem mean_mixed {n : ℕ} (w x : Fin n → K) (a y : K) :
    mean (mixed w a) (Fin.snoc x y) = mean w x + a * (y - mean w x) := by
  have hsum := sum_mixed w a id x y
  simp only [id_eq] at hsum
  rw [mean, hsum, mean]
  ring

variable [LinearOrder K] {w x : ι → K}

theorem sum_sq_sub (hw : w ∈ stdSimplex K ι) (c : K) :
    ∑ i, w i * (x i - c) ^ 2 = variance w x + (mean w x - c) ^ 2 := by
  have hsplit : ∀ i, w i * (x i - c) ^ 2 = w i * (x i - mean w x) ^ 2 +
      (2 * (mean w x - c) * (w i * x i) - 2 * (mean w x - c) * mean w x * w i +
        (mean w x - c) ^ 2 * w i) := by
    intro i
    ring
  have hmean : ∑ i, w i * x i = mean w x := rfl
  rw [Finset.sum_congr rfl fun i _ => hsplit i, Finset.sum_add_distrib, Finset.sum_add_distrib,
    Finset.sum_sub_distrib, ← Finset.mul_sum, ← Finset.mul_sum, ← Finset.mul_sum, hw.2, hmean,
    variance]
  ring

theorem variance_mixed {n : ℕ} {w x : Fin n → K} (hw : w ∈ stdSimplex K (Fin n)) (a y : K) :
    variance (mixed w a) (Fin.snoc x y) =
      (1 - a) * (variance w x + a * (y - mean w x) ^ 2) := by
  have hsum := sum_mixed w a (fun z => (z - mean (mixed w a) (Fin.snoc x y)) ^ 2) x y
  rw [variance, hsum, sum_sq_sub hw, mean_mixed]
  ring

theorem mean_const (hw : w ∈ stdSimplex K ι) (c : K) : mean w (fun _ => c) = c := by
  rw [mean, ← Finset.sum_mul, hw.2, one_mul]

variable [IsStrictOrderedRing K]

theorem variance_nonneg (hw : w ∈ stdSimplex K ι) : 0 ≤ variance w x :=
  Finset.sum_nonneg fun i _ => mul_nonneg (hw.1 i) (sq_nonneg _)

theorem mean_mono {y : ι → K} (hw : w ∈ stdSimplex K ι) (h : ∀ i, x i ≤ y i) :
    mean w x ≤ mean w y :=
  Finset.sum_le_sum fun i _ => mul_le_mul_of_nonneg_left (h i) (hw.1 i)

theorem mean_mem_Icc {lo hi : K} (hw : w ∈ stdSimplex K ι) (h : ∀ i, x i ∈ Set.Icc lo hi) :
    mean w x ∈ Set.Icc lo hi := by
  constructor
  · rw [← mean_const hw lo]
    exact mean_mono hw fun i => (h i).1
  · rw [← mean_const hw hi]
    exact mean_mono hw fun i => (h i).2

theorem one_mem : (fun _ => 1 : Fin 1 → K) ∈ stdSimplex K (Fin 1) :=
  ⟨fun _ => zero_le_one, by simp⟩

theorem mixed_mem {n : ℕ} {w : Fin n → K} {a : K} (hw : w ∈ stdSimplex K (Fin n))
    (h₀ : 0 ≤ a) (h₁ : a ≤ 1) : mixed w a ∈ stdSimplex K (Fin (n + 1)) := by
  constructor
  · intro i
    refine Fin.lastCases ?_ (fun i => ?_) i
    · rw [mixed, Fin.snoc_last]
      exact h₀
    · rw [mixed, Fin.snoc_castSucc]
      exact mul_nonneg (sub_nonneg.mpr h₁) (hw.1 i)
  · rw [Fin.sum_univ_castSucc]
    simp only [mixed, Fin.snoc_castSucc, Fin.snoc_last]
    rw [← Finset.mul_sum, hw.2, mul_one, sub_add_cancel]

end Mixture
