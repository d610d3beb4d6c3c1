import Mathlib.Algebra.Order.Floor.Ring
import Mathlib.Data.Int.Log
import Mathlib.Data.Rat.Floor
import Mathlib.Tactic.Linarith
import Mathlib.Tactic.Positivity

/-!
# Binary64 arithmetic on exact rationals

A finite double is the rational number it denotes. `nearest` rounds a rational to the
nearest double, ties to even; the exponent is bounded below by that of the subnormals and
not above, so a result that a double has no room for is one that `Overflows`. `roundTo`
rounds to decimal places.
-/

namespace Binary64

def halfEven (q : ℚ) : ℤ :=
  let r := q - ⌊q⌋
  if r < 1 / 2 then ⌊q⌋
  else if 1 / 2 < r then ⌊q⌋ + 1
  else if ⌊q⌋ % 2 = 0 then ⌊q⌋ else ⌊q⌋ + 1

def lastPlace (q : ℚ) : ℤ := max (-1074) (Int.log 2 |q| - 52)

def nearest (q : ℚ) : ℚ := halfEven (q / 2 ^ lastPlace q) * 2 ^ lastPlace q

/-- Rounded without a bound on the exponent, the result is past the finite doubles. -/
def Overflows (q : ℚ) : Prop := 2 ^ 1024 ≤ |q|

instance (q : ℚ) : Decidable (Overflows q) := inferInstanceAs (Decidable (_ ≤ _))

def add (x y : ℚ) : ℚ := nearest (x + y)
def sub (x y : ℚ) : ℚ := nearest (x - y)
def mul (x y : ℚ) : ℚ := nearest (x * y)
def div (x y : ℚ) : ℚ := nearest (x / y)

def roundTo (places : ℕ) (x : ℚ) : ℚ := nearest (halfEven (x * 10 ^ places) / 10 ^ places)

theorem floor_le_halfEven (q : ℚ) : ⌊q⌋ ≤ halfEven q := by
  unfold halfEven
  dsimp only
  split_ifs <;> omega

theorem halfEven_le_floor_succ (q : ℚ) : halfEven q ≤ ⌊q⌋ + 1 := by
  unfold halfEven
  dsimp only
  split_ifs <;> omega

theorem halfEven_mono {p q : ℚ} (h : p ≤ q) : halfEven p ≤ halfEven q := by
  rcases lt_or_eq_of_le (Int.floor_mono h) with hlt | heq
  · calc halfEven p ≤ ⌊p⌋ + 1 := halfEven_le_floor_succ p
      _ ≤ ⌊q⌋ := hlt
      _ ≤ halfEven q := floor_le_halfEven q
  · have hr : p - (⌊q⌋ : ℚ) ≤ q - ⌊q⌋ := by linarith
    unfold halfEven
    dsimp only
    rw [heq]
    split_ifs <;> first | omega | linarith

@[simp] theorem halfEven_intCast (n : ℤ) : halfEven n = n := by
  simp [halfEven]

theorem halfEven_nonneg {q : ℚ} (h : 0 ≤ q) : 0 ≤ halfEven q :=
  (Int.floor_nonneg.mpr h).trans (floor_le_halfEven q)

theorem halfEven_le {q : ℚ} {n : ℤ} (h : q ≤ n) : halfEven q ≤ n :=
  (halfEven_mono h).trans_eq (halfEven_intCast n)

theorem nearest_nonneg {q : ℚ} (h : 0 ≤ q) : 0 ≤ nearest q := by
  have hplace : (0 : ℚ) < 2 ^ lastPlace q := zpow_pos two_pos _
  have hn : (0 : ℚ) ≤ halfEven (q / 2 ^ lastPlace q) :=
    Int.cast_nonneg (halfEven_nonneg (div_nonneg h hplace.le))
  exact mul_nonneg hn hplace.le

def roundAt (place : ℤ) (q : ℚ) : ℚ := halfEven (q / 2 ^ place) * 2 ^ place

theorem roundAt_mono (place : ℤ) {p q : ℚ} (h : p ≤ q) : roundAt place p ≤ roundAt place q := by
  have hpos : (0 : ℚ) < 2 ^ place := zpow_pos two_pos _
  have hscaled : p / 2 ^ place ≤ q / 2 ^ place := div_le_div_of_nonneg_right h hpos.le
  exact mul_le_mul_of_nonneg_right (Int.cast_le.mpr (halfEven_mono hscaled)) hpos.le

theorem roundAt_multiple (place n : ℤ) : roundAt place (n * 2 ^ place) = n * 2 ^ place := by
  have hne : (2 : ℚ) ^ place ≠ 0 := zpow_ne_zero _ two_ne_zero
  rw [roundAt, mul_div_cancel_right₀ _ hne, halfEven_intCast]

theorem exists_multiple {place e : ℤ} (h : place ≤ e) : ∃ n : ℤ, (2 : ℚ) ^ e = n * 2 ^ place := by
  obtain ⟨k, hk⟩ := Int.eq_ofNat_of_zero_le (sub_nonneg.mpr h)
  refine ⟨2 ^ k, ?_⟩
  have he : e = k + place := by omega
  rw [he, zpow_add₀ two_ne_zero, zpow_natCast]
  push_cast
  rfl

theorem roundAt_zpow {place e : ℤ} (h : place ≤ e) : roundAt place (2 ^ e) = 2 ^ e := by
  obtain ⟨n, hn⟩ := exists_multiple h
  rw [hn, roundAt_multiple]

theorem roundAt_neg_zpow {place e : ℤ} (h : place ≤ e) : roundAt place (-2 ^ e) = -2 ^ e := by
  obtain ⟨n, hn⟩ := exists_multiple h
  have hneg : -((n : ℚ) * 2 ^ place) = ((-n : ℤ) : ℚ) * 2 ^ place := by push_cast; ring
  rw [hn, hneg, roundAt_multiple]

theorem lastPlace_mono {p q : ℚ} (hp : p ≠ 0) (h : |p| ≤ |q|) : lastPlace p ≤ lastPlace q := by
  have hlog : Int.log 2 |p| ≤ Int.log 2 |q| := Int.log_mono_right (abs_pos.mpr hp) h
  unfold lastPlace
  omega

theorem exists_between {p q : ℚ} (hq : q ≠ 0) (h : lastPlace p < lastPlace q) : ∃ e : ℤ,
    lastPlace p ≤ e ∧ lastPlace q ≤ e ∧ |p| ≤ 2 ^ e ∧ 2 ^ e ≤ |q| := by
  have hlog : Int.log 2 |p| < Int.log 2 |q| ∧ lastPlace q ≤ Int.log 2 |q| := by
    unfold lastPlace at h ⊢
    omega
  refine ⟨Int.log 2 |q|, h.le.trans hlog.2, hlog.2, ?_,
    by exact_mod_cast Int.zpow_log_le_self one_lt_two (abs_pos.mpr hq)⟩
  have hlt : |p| < (2 : ℚ) ^ (Int.log 2 |p| + 1) := by
    exact_mod_cast Int.lt_zpow_succ_log_self one_lt_two |p|
  exact hlt.le.trans (zpow_le_zpow_right₀ one_le_two (by omega))

@[simp] theorem nearest_zero : nearest 0 = 0 := by
  have hzero : roundAt (lastPlace 0) 0 = 0 := by simpa using roundAt_multiple (lastPlace 0) 0
  exact hzero

theorem nearest_nonpos {q : ℚ} (h : q ≤ 0) : nearest q ≤ 0 := by
  have hzero : roundAt (lastPlace q) 0 = 0 := by simpa using roundAt_multiple (lastPlace q) 0
  calc nearest q = roundAt (lastPlace q) q := rfl
    _ ≤ roundAt (lastPlace q) 0 := roundAt_mono _ h
    _ = 0 := hzero

theorem nearest_mono_of_pos {p q : ℚ} (hp : 0 < p) (h : p ≤ q) : nearest p ≤ nearest q := by
  have hq : 0 < q := hp.trans_le h
  have hplace : lastPlace p ≤ lastPlace q :=
    lastPlace_mono hp.ne' (by rwa [abs_of_pos hp, abs_of_pos hq])
  rcases eq_or_lt_of_le hplace with heq | hlt
  · rw [nearest, heq]
    exact roundAt_mono _ h
  · obtain ⟨e, hpe, hqe, hle, hge⟩ := exists_between hq.ne' hlt
    rw [abs_of_pos hp] at hle
    rw [abs_of_pos hq] at hge
    calc nearest p ≤ roundAt (lastPlace p) (2 ^ e) := roundAt_mono _ hle
      _ = roundAt (lastPlace q) (2 ^ e) := by rw [roundAt_zpow hpe, roundAt_zpow hqe]
      _ ≤ nearest q := roundAt_mono _ hge

theorem nearest_mono_of_neg {p q : ℚ} (hq : q < 0) (h : p ≤ q) : nearest p ≤ nearest q := by
  have hp : p < 0 := h.trans_lt hq
  have hplace : lastPlace q ≤ lastPlace p :=
    lastPlace_mono hq.ne (by rwa [abs_of_neg hp, abs_of_neg hq, neg_le_neg_iff])
  rcases eq_or_lt_of_le hplace with heq | hlt
  · rw [nearest, ← heq]
    exact roundAt_mono _ h
  · obtain ⟨e, hqe, hpe, hle, hge⟩ := exists_between hp.ne hlt
    rw [abs_of_neg hq] at hle
    rw [abs_of_neg hp] at hge
    calc nearest p ≤ roundAt (lastPlace p) (-2 ^ e) := roundAt_mono _ (le_neg_of_le_neg hge)
      _ = roundAt (lastPlace q) (-2 ^ e) := by rw [roundAt_neg_zpow hpe, roundAt_neg_zpow hqe]
      _ ≤ nearest q := roundAt_mono _ (neg_le.mp hle)

theorem nearest_mono {p q : ℚ} (h : p ≤ q) : nearest p ≤ nearest q := by
  rcases lt_or_ge 0 p with hp | hp
  · exact nearest_mono_of_pos hp h
  · rcases lt_or_ge q 0 with hq | hq
    · exact nearest_mono_of_neg hq h
    · exact (nearest_nonpos hp).trans (nearest_nonneg hq)

theorem sub_mono {x x' y y' : ℚ} (hx : x ≤ x') (hy : y' ≤ y) : sub x y ≤ sub x' y' :=
  nearest_mono (sub_le_sub hx hy)

@[simp] theorem sub_same (x : ℚ) : sub x x = 0 := by
  rw [sub, sub_self, nearest_zero]

theorem lastPlace_two_pow (k : ℕ) : lastPlace (2 ^ k) ≤ k := by
  have hlog : Int.log 2 |(2 : ℚ) ^ k| = k := by
    rw [abs_of_pos (pow_pos two_pos k), ← zpow_natCast]
    exact_mod_cast Int.log_zpow (R := ℚ) one_lt_two k
  unfold lastPlace
  omega

theorem nearest_two_pow (k : ℕ) : nearest (2 ^ k) = 2 ^ k := by
  have h := roundAt_zpow (lastPlace_two_pow k)
  rwa [zpow_natCast] at h

theorem nearest_neg_two_pow (k : ℕ) : nearest (-2 ^ k) = -2 ^ k := by
  have hplace : lastPlace (-2 ^ k) ≤ k := by
    rw [lastPlace, abs_neg]
    exact lastPlace_two_pow k
  have h := roundAt_neg_zpow hplace
  rwa [zpow_natCast] at h

/-- On the side of `p`, and no closer to zero. -/
def Outward (p q : ℚ) : Prop := 0 ≤ p ∧ p ≤ q ∨ q ≤ p ∧ p ≤ 0

namespace Outward

variable {p q r : ℚ}

theorem nearest (h : Outward p q) : Outward (nearest p) (nearest q) := by
  rcases h with ⟨h₀, hle⟩ | ⟨hle, h₀⟩
  · exact Or.inl ⟨nearest_nonneg h₀, nearest_mono hle⟩
  · exact Or.inr ⟨nearest_mono hle, nearest_nonpos h₀⟩

theorem div (h : Outward p q) (hr : 0 ≤ r) : Outward (p / r) (q / r) := by
  rcases h with ⟨h₀, hle⟩ | ⟨hle, h₀⟩
  · exact Or.inl ⟨div_nonneg h₀ hr, div_le_div_of_nonneg_right hle hr⟩
  · exact Or.inr ⟨div_le_div_of_nonneg_right hle hr, div_nonpos_of_nonpos_of_nonneg h₀ hr⟩

theorem abs_le (h : Outward p q) : |p| ≤ |q| := by
  rcases h with ⟨h₀, hle⟩ | ⟨hle, h₀⟩
  · rw [abs_of_nonneg h₀]
    exact hle.trans (le_abs_self q)
  · rw [abs_of_nonpos h₀]
    exact (neg_le_neg hle).trans (neg_le_abs q)

end Outward

theorem two_pow_le_abs_nearest {q : ℚ} {k : ℕ} (h : 2 ^ k ≤ |q|) : 2 ^ k ≤ |nearest q| := by
  rcases le_abs.mp h with hpos | hneg
  · calc (2 : ℚ) ^ k = nearest (2 ^ k) := (nearest_two_pow k).symm
      _ ≤ nearest q := nearest_mono hpos
      _ ≤ |nearest q| := le_abs_self _
  · have hle : nearest q ≤ -2 ^ k := by
      rw [← nearest_neg_two_pow]
      exact nearest_mono (le_neg_of_le_neg hneg)
    exact (le_neg_of_le_neg hle).trans (neg_le_abs _)

theorem abs_nearest_le {x hi : ℚ} (lo : ℚ) (hlo : nearest (-lo) = -hi) (hhi : nearest lo = hi)
    (h : |x| ≤ lo) : |nearest x| ≤ hi := by
  obtain ⟨hl, hr⟩ := abs_le.mp h
  exact abs_le.mpr ⟨hlo.symm.trans_le (nearest_mono hl), (nearest_mono hr).trans_eq hhi⟩

theorem abs_nearest_le_two_pow {x : ℚ} {k : ℕ} (h : |x| ≤ 2 ^ k) : |nearest x| ≤ 2 ^ k :=
  abs_nearest_le (2 ^ k) (nearest_neg_two_pow k) (nearest_two_pow k) h

theorem nearest_of_multiple {q : ℚ} {e n : ℤ} (hplace : lastPlace q ≤ e) (h : q = n * 2 ^ e) :
    nearest q = q := by
  obtain ⟨k, hk⟩ := exists_multiple hplace
  have hq : q = ((n * k : ℤ) : ℚ) * 2 ^ lastPlace q := by
    rw [Int.cast_mul, mul_assoc, ← hk]
    exact h
  have hround := roundAt_multiple (lastPlace q) (n * k)
  rwa [← hq] at hround

theorem exists_eq_multiple {q : ℚ} (h : nearest q = q) : ∃ n : ℤ, q = n * 2 ^ lastPlace q :=
  ⟨halfEven (q / 2 ^ lastPlace q), h.symm⟩

theorem nearest_neg_of_multiple {q : ℚ} {e n : ℤ} (he : -1074 ≤ e) (hn : n < 0)
    (h : q = n * 2 ^ e) : nearest q < 0 := by
  have hpos : (0 : ℚ) < 2 ^ e := zpow_pos two_pos _
  have hlog : Int.log 2 |-(2 : ℚ) ^ e| = e := by
    rw [abs_neg, abs_of_pos hpos]
    exact_mod_cast Int.log_zpow (R := ℚ) one_lt_two e
  have hplace : lastPlace (-(2 : ℚ) ^ e) ≤ e := by
    unfold lastPlace
    omega
  have hone : (n : ℚ) ≤ -1 := by exact_mod_cast Int.le_sub_one_of_lt hn
  calc nearest q ≤ nearest (-2 ^ e) := nearest_mono (by rw [h]; nlinarith)
    _ = -2 ^ e := roundAt_neg_zpow hplace
    _ < 0 := neg_lt_zero.mpr hpos

theorem abs_lt_lastPlace (q : ℚ) : |q| < 2 ^ (lastPlace q + 53) := by
  have hlt : |q| < (2 : ℚ) ^ (Int.log 2 |q| + 1) := by
    exact_mod_cast Int.lt_zpow_succ_log_self one_lt_two |q|
  refine hlt.trans_le (zpow_le_zpow_right₀ one_le_two ?_)
  unfold lastPlace
  omega

theorem lastPlace_le {q : ℚ} {e : ℤ} (he : -1074 ≤ e) (hq : q ≠ 0) (h : |q| < 2 ^ (e + 53)) :
    lastPlace q ≤ e := by
  have hlog := (Int.lt_zpow_iff_log_lt one_lt_two (abs_pos.mpr hq)).mp (by exact_mod_cast h)
  unfold lastPlace
  omega

theorem abs_halfEven_sub_le (q : ℚ) : |halfEven q - q| ≤ 1 / 2 := by
  have hlo := Int.floor_le q
  have hhi := Int.lt_floor_add_one q
  unfold halfEven
  dsimp only
  split_ifs <;> rw [abs_le] <;> push_cast <;> constructor <;> linarith

theorem abs_nearest_sub_le {q : ℚ} {e : ℤ} (he : -1074 ≤ e) (h : |q| < 2 ^ (e + 53)) :
    |nearest q - q| ≤ 2 ^ e / 2 := by
  have hpow : (0 : ℚ) < 2 ^ e := zpow_pos two_pos _
  rcases eq_or_ne q 0 with rfl | hq
  · rw [nearest_zero, sub_self, abs_zero]
    exact (half_pos hpow).le
  · have hpos : (0 : ℚ) < 2 ^ lastPlace q := zpow_pos two_pos _
    have hscale : nearest q - q =
        (halfEven (q / 2 ^ lastPlace q) - q / 2 ^ lastPlace q) * 2 ^ lastPlace q := by
      rw [sub_mul, div_mul_cancel₀ _ hpos.ne']
      rfl
    calc |nearest q - q| ≤ 1 / 2 * 2 ^ lastPlace q := by
          rw [hscale, abs_mul, abs_of_pos hpos]
          exact mul_le_mul_of_nonneg_right (abs_halfEven_sub_le _) hpos.le
      _ ≤ 1 / 2 * 2 ^ e := mul_le_mul_of_nonneg_left
          (zpow_le_zpow_right₀ one_le_two (lastPlace_le he hq h)) (by norm_num)
      _ = 2 ^ e / 2 := by ring

theorem nearest_signed_zpow {q : ℚ} {e n : ℤ} (he : -1074 ≤ e) (hn : |n| = 1)
    (h : q = n * 2 ^ e) : nearest q = q := by
  have habs : |q| = 2 ^ e := by
    rw [h, abs_mul, ← Int.cast_abs, hn, Int.cast_one, one_mul]
    exact abs_of_pos (zpow_pos two_pos _)
  have hlog : Int.log 2 |q| = e := by
    rw [habs]
    exact_mod_cast Int.log_zpow (R := ℚ) one_lt_two e
  refine nearest_of_multiple ?_ h
  unfold lastPlace
  omega

theorem nearest_nearest (q : ℚ) : nearest (nearest q) = nearest q := by
  have hpos : (0 : ℚ) < 2 ^ lastPlace q := zpow_pos two_pos _
  have hmin : -1074 ≤ lastPlace q := le_max_left _ _
  have hsplit : (2 : ℚ) ^ (lastPlace q + 53) = 2 ^ 53 * 2 ^ lastPlace q := by
    rw [zpow_add₀ two_ne_zero, mul_comm]
    rfl
  have hscaled : |q / 2 ^ lastPlace q| < 2 ^ 53 := by
    rw [abs_div, abs_of_pos hpos, div_lt_iff₀ hpos, ← hsplit]
    exact abs_lt_lastPlace q
  have hm : |halfEven (q / 2 ^ lastPlace q)| ≤ 2 ^ 53 := by
    obtain ⟨hlo, hhi⟩ := abs_lt.mp hscaled
    refine abs_le.mpr ⟨?_, halfEven_le (by push_cast; exact hhi.le)⟩
    have hmono := @halfEven_mono ((-2 ^ 53 : ℤ) : ℚ) _ (by push_cast; exact hlo.le)
    rwa [halfEven_intCast] at hmono
  have hval : nearest q = halfEven (q / 2 ^ lastPlace q) * 2 ^ lastPlace q := rfl
  generalize halfEven (q / 2 ^ lastPlace q) = m at hm hval
  rcases eq_or_ne m 0 with rfl | hne
  · rw [Int.cast_zero, zero_mul] at hval
    rw [hval, nearest_zero]
  · have hne' : nearest q ≠ 0 := by
      rw [hval]
      exact mul_ne_zero (Int.cast_ne_zero.mpr hne) hpos.ne'
    rcases hm.lt_or_eq with hlt | heq
    · have habs : |nearest q| < 2 ^ (lastPlace q + 53) := by
        rw [hval, abs_mul, abs_of_pos hpos, hsplit]
        exact mul_lt_mul_of_pos_right (by exact_mod_cast hlt) hpos
      exact nearest_of_multiple (lastPlace_le hmin hne' habs) hval
    · -- the magnitude is the next power of two
      obtain ⟨n, hn, hmn⟩ : ∃ n : ℤ, |n| = 1 ∧ m = n * 2 ^ 53 := by
        rcases abs_eq (by decide) |>.mp heq with rfl | rfl
        · exact ⟨1, by decide, by decide⟩
        · exact ⟨-1, by decide, by decide⟩
      have hpow : nearest q = n * 2 ^ (lastPlace q + 53) := by
        rw [hval, hmn, hsplit]
        push_cast
        ring
      exact nearest_signed_zpow (by omega) hn hpow

theorem lt_of_sub_lt {t w s : ℚ} (hs : nearest s = s) (h : sub t w < s) : t - w < s := by
  by_contra hge
  have hmono := nearest_mono (not_lt.mp hge)
  rw [hs] at hmono
  exact absurd h (not_lt.mpr hmono)

theorem sub_lt_iff {t s : ℚ} {w : ℤ} (ht : nearest t = t) (h₀ : 0 ≤ t) (h₁ : t < 2 ^ 53)
    (hw : 0 ≤ w) (hs : 0 ≤ s) : sub t w < s ↔ t - w < s := by
  rcases h₀.eq_or_lt with rfl | hpos
  · rcases hw.eq_or_lt with rfl | hneg
    · rw [Int.cast_zero, sub_same, sub_zero]
    · have hmul : (0 : ℚ) - w = ((-w : ℤ) : ℚ) * 2 ^ (0 : ℤ) := by push_cast; ring
      have hlt := nearest_neg_of_multiple (by decide) (neg_lt_zero.mpr hneg) hmul
      have hlt' : (0 : ℚ) - w < 0 := by
        rw [zero_sub, neg_lt_zero]
        exact_mod_cast hneg
      exact iff_of_true (hlt.trans_le hs) (hlt'.trans_le hs)
  · have hlog : Int.log 2 |t| < 53 := by
      rw [abs_of_pos hpos]
      exact (Int.lt_zpow_iff_log_lt one_lt_two hpos).mp (by exact_mod_cast h₁)
    have hplace : lastPlace t ≤ 0 ∧ -1074 ≤ lastPlace t := by
      unfold lastPlace
      omega
    obtain ⟨n, hn⟩ := exists_eq_multiple ht
    obtain ⟨k, hk⟩ := exists_multiple hplace.1
    -- the difference is a multiple of the last place of `t`
    have hmul : t - w = ((n - w * k : ℤ) : ℚ) * 2 ^ lastPlace t := by
      have hw' : (w : ℚ) = w * k * 2 ^ lastPlace t := by
        rw [mul_assoc, ← hk, zpow_zero, mul_one]
      calc t - w = n * 2 ^ lastPlace t - w * k * 2 ^ lastPlace t := by rw [← hn, ← hw']
        _ = ((n - w * k : ℤ) : ℚ) * 2 ^ lastPlace t := by push_cast; ring
    rcases lt_or_ge (t - w) 0 with hlt | hge
    · have hstep : (0 : ℚ) < 2 ^ lastPlace t := zpow_pos two_pos _
      have hneg : n - w * k < 0 := by
        have hcast : ((n - w * k : ℤ) : ℚ) < 0 := by
          by_contra hnot
          rw [hmul] at hlt
          exact absurd hlt (not_lt.mpr (mul_nonneg (not_lt.mp hnot) hstep.le))
        exact_mod_cast hcast
      exact iff_of_true ((nearest_neg_of_multiple hplace.2 hneg hmul).trans_le hs)
        (hlt.trans_le hs)
    · rcases hge.eq_or_lt with heq | hgt
      · have hzero : sub t w = 0 := by
          have hself := sub_same t
          rw [sub, sub_self] at hself
          rw [sub, ← heq, hself]
        rw [hzero, ← heq]
      · have hle : |t - w| ≤ |t| := by
          rw [abs_of_pos hgt, abs_of_pos hpos]
          have hw' : (0 : ℚ) ≤ w := by exact_mod_cast hw
          linarith
        rw [sub, nearest_of_multiple (lastPlace_mono hgt.ne' hle) hmul]

theorem nearest_le_one {q : ℚ} (h₀ : 0 ≤ q) (h₁ : q ≤ 1) : nearest q ≤ 1 := by
  have hlog : Int.log 2 |q| ≤ 0 := by
    rw [abs_of_nonneg h₀]
    rcases eq_or_lt_of_le h₀ with rfl | hpos
    · simp
    · have hmono := Int.log_mono_right (b := 2) hpos h₁
      simpa using hmono
  obtain ⟨k, hk⟩ : ∃ k : ℕ, lastPlace q = -k := by
    have hneg : lastPlace q ≤ 0 := by unfold lastPlace; omega
    exact ⟨(-lastPlace q).toNat, by omega⟩
  have hscaled : q / 2 ^ lastPlace q ≤ ((2 ^ k : ℤ) : ℚ) := by
    rw [hk, zpow_neg, div_inv_eq_mul, zpow_natCast]
    push_cast
    nlinarith [show (0 : ℚ) < 2 ^ k by positivity]
  have hn : (halfEven (q / 2 ^ lastPlace q) : ℚ) ≤ 2 ^ k := by
    exact_mod_cast halfEven_le hscaled
  have hpow : (0 : ℚ) < 2 ^ k := by positivity
  rw [nearest, hk, zpow_neg, zpow_natCast, ← div_eq_mul_inv, div_le_one hpow]
  rwa [hk, zpow_neg, zpow_natCast] at hn

theorem roundTo_mem_unit {places : ℕ} {x : ℚ} (h₀ : 0 ≤ x) (h₁ : x ≤ 1) :
    0 ≤ roundTo places x ∧ roundTo places x ≤ 1 := by
  have hpow : (0 : ℚ) < 10 ^ places := by positivity
  have hlo : 0 ≤ halfEven (x * 10 ^ places) := halfEven_nonneg (by positivity)
  have hhi : halfEven (x * 10 ^ places) ≤ 10 ^ places := by
    apply halfEven_le
    push_cast
    nlinarith
  have hlo' : (0 : ℚ) ≤ halfEven (x * 10 ^ places) := by exact_mod_cast hlo
  have hhi' : (halfEven (x * 10 ^ places) : ℚ) ≤ 10 ^ places := by exact_mod_cast hhi
  have hq : (0 : ℚ) ≤ halfEven (x * 10 ^ places) / 10 ^ places := by positivity
  exact ⟨nearest_nonneg hq, nearest_le_one hq ((div_le_one hpow).mpr hhi')⟩

example : add (nearest (1 / 10)) (nearest (2 / 10)) ≠ nearest (3 / 10) := by decide +kernel

end Binary64
