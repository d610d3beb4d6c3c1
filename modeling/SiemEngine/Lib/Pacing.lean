import Mathlib.Algebra.BigOperators.Intervals
import Mathlib.Data.Nat.Periodic

/-!
# Pacing

A rate that does not divide by the number of slots in a period is spread over them: each slot
gets the whole part, and the first slots of the period one more. Whichever slots follow one
another, a whole number of periods gets a whole number of rates.
-/

namespace Pacing

/-- What slot `t` gets of the rate `r`, with `p` slots in a period. -/
def share (p r t : ℕ) : ℕ := r / p + if t % p < r % p then 1 else 0

theorem share_zero (p t : ℕ) : share p 0 t = 0 := by
  rw [share, Nat.zero_div, Nat.zero_mod, if_neg (Nat.not_lt_zero _)]

theorem count_mod_lt {p k : ℕ} (h : k ≤ p) : p.count (fun t => t % p < k) = k := by
  rw [Nat.count_eq_card_filter_range]
  have hfilter : (Finset.range p).filter (fun t => t % p < k) = Finset.range k := by
    ext t
    rw [Finset.mem_filter, Finset.mem_range, Finset.mem_range]
    constructor
    · intro ht
      obtain ⟨hlt, hmod⟩ := ht
      rwa [Nat.mod_eq_of_lt hlt] at hmod
    · intro ht
      have hlt : t < p := ht.trans_le h
      exact ⟨hlt, by rwa [Nat.mod_eq_of_lt hlt]⟩
  rw [hfilter, Finset.card_range]

theorem sum_share {p : ℕ} (hp : 0 < p) (r t : ℕ) :
    ∑ i ∈ Finset.range p, share p r (t + i) = r := by
  have hperiodic : Function.Periodic (fun t => t % p < r % p) p := by
    intro t
    dsimp only
    rw [Nat.add_mod_right]
  have hcount := Nat.filter_Ico_card_eq_of_periodic t p (fun t => t % p < r % p) hperiodic
  rw [count_mod_lt (Nat.mod_lt r hp).le, Finset.card_filter,
    Finset.sum_Ico_eq_sum_range, Nat.add_sub_cancel_left] at hcount
  simp only [share, Finset.sum_add_distrib, Finset.sum_const, Finset.card_range, smul_eq_mul]
  rw [hcount]
  exact Nat.div_add_mod r p

theorem sum_share_periods {p : ℕ} (hp : 0 < p) (r t n : ℕ) :
    ∑ i ∈ Finset.range (p * n), share p r (t + i) = n * r := by
  induction n with
  | zero => simp
  | succ n ih =>
    rw [Nat.mul_succ, Finset.sum_range_add, ih]
    have hlast : ∑ i ∈ Finset.range p, share p r (t + (p * n + i)) = r := by
      simpa only [← Nat.add_assoc] using sum_share hp r (t + p * n)
    rw [hlast, Nat.succ_mul]

end Pacing
