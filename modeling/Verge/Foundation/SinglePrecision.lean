import Mathlib.Data.Int.Log
import Mathlib.Data.Rat.Floor
import Mathlib.Tactic.Linarith
import Mathlib.Tactic.Positivity

/-!
# Rounding to single precision

`single q` is the number with a significand of 24 bits that is nearest to `q`, with
ties to the even significand; the range of the exponent is not bounded.  The results
are those that a ceiling of a quotient of small integers needs.
-/

namespace Verge.Foundation

def roundEven (q : ℚ) : ℤ :=
  if q - ⌊q⌋ < 1 / 2 then ⌊q⌋
  else if 1 / 2 < q - ⌊q⌋ then ⌊q⌋ + 1
  else if ⌊q⌋ % 2 = 0 then ⌊q⌋ else ⌊q⌋ + 1

def ulp (q : ℚ) : ℚ := 2 ^ (Int.log 2 |q| - 23)

def single (q : ℚ) : ℚ := roundEven (q / ulp q) * ulp q

theorem roundEven_le {q : ℚ} {m : ℤ} (h : q ≤ m) : roundEven q ≤ m := by
  have hfloor : ⌊q⌋ ≤ m := by
    have := Int.floor_le q
    exact_mod_cast this.trans h
  unfold roundEven
  by_cases heq : ⌊q⌋ = m
  · have hq : q = m := le_antisymm h (heq ▸ Int.floor_le q)
    simp [hq]
  · have hlt : ⌊q⌋ + 1 ≤ m := lt_of_le_of_ne hfloor heq
    split_ifs <;> omega

theorem le_roundEven {q : ℚ} {m : ℤ} (h : (m : ℚ) ≤ q) : m ≤ roundEven q := by
  have hfloor : m ≤ ⌊q⌋ := Int.le_floor.mpr h
  unfold roundEven
  split_ifs <;> omega

theorem roundEven_intCast (m : ℤ) : roundEven m = m :=
  le_antisymm (roundEven_le le_rfl) (le_roundEven le_rfl)

theorem roundEven_mono {p q : ℚ} (h : p ≤ q) : roundEven p ≤ roundEven q := by
  by_cases hfloor : ⌊p⌋ = ⌊q⌋
  · unfold roundEven
    rw [hfloor]
    split_ifs <;> first | omega | (exfalso; linarith)
  · have hlt : ⌊p⌋ < ⌊q⌋ := lt_of_le_of_ne (Int.floor_mono h) hfloor
    calc roundEven p ≤ ⌊p⌋ + 1 := roundEven_le (by exact_mod_cast (Int.lt_floor_add_one p).le)
      _ ≤ ⌊q⌋ := hlt
      _ ≤ roundEven q := le_roundEven (Int.floor_le q)

theorem ulp_pos (q : ℚ) : 0 < ulp q := zpow_pos (by norm_num) _

@[simp] theorem single_zero : single 0 = 0 := by
  simp [single, roundEven]

theorem div_ulp_bounds {q : ℚ} (hq : 0 < q) :
    ((2 ^ 23 : ℤ) : ℚ) ≤ q / ulp q ∧ q / ulp q < ((2 ^ 24 : ℤ) : ℚ) := by
  have hlow := Int.zpow_log_le_self (b := 2) (by norm_num) hq
  have hhigh := Int.lt_zpow_succ_log_self (b := 2) (by norm_num) q
  have hulp : ulp q * 2 ^ 23 = 2 ^ Int.log 2 q := by
    rw [ulp, abs_of_pos hq, ← zpow_natCast, ← zpow_add₀ (by norm_num)]
    congr 1
    push_cast
    ring
  rw [le_div_iff₀ (ulp_pos q), div_lt_iff₀ (ulp_pos q)]
  push_cast at hlow hhigh ⊢
  rw [zpow_add₀ (by norm_num), ← hulp] at hhigh
  rw [← hulp] at hlow
  constructor <;> linarith

theorem single_mono {p q : ℚ} (hp : 0 ≤ p) (h : p ≤ q) : single p ≤ single q := by
  rcases hp.eq_or_lt with rfl | hp
  · rcases h.eq_or_lt with rfl | hq
    · exact le_rfl
    · rw [single_zero]
      have hround : (0 : ℤ) ≤ roundEven (q / ulp q) :=
        le_roundEven (by push_cast; exact (div_pos hq (ulp_pos q)).le)
      exact mul_nonneg (by exact_mod_cast hround) (ulp_pos q).le
  · have hq := hp.trans_le h
    rcases (Int.log_mono_right (b := 2) hp h).eq_or_lt with heq | hlt
    · have hulp : ulp p = ulp q := by rw [ulp, ulp, abs_of_pos hp, abs_of_pos hq, heq]
      have hround : roundEven (p / ulp p) ≤ roundEven (q / ulp q) := by
        rw [hulp]
        exact roundEven_mono ((div_le_div_iff_of_pos_right (ulp_pos q)).mpr h)
      unfold single
      rw [hulp] at hround ⊢
      exact mul_le_mul_of_nonneg_right (by exact_mod_cast hround) (ulp_pos q).le
    · -- a power of two separates the two numbers
      have hp24 : (roundEven (p / ulp p) : ℚ) ≤ 2 ^ 24 := by
        exact_mod_cast roundEven_le (div_ulp_bounds hp).2.le
      have hq23 : (2 ^ 23 : ℚ) ≤ roundEven (q / ulp q) := by
        exact_mod_cast le_roundEven (div_ulp_bounds hq).1
      have hulp : ulp p * 2 ≤ ulp q := by
        rw [ulp, ulp, abs_of_pos hp, abs_of_pos hq, ← zpow_add_one₀ (by norm_num)]
        exact zpow_le_zpow_right₀ (by norm_num) (by omega)
      calc single p ≤ 2 ^ 24 * ulp p := mul_le_mul_of_nonneg_right hp24 (ulp_pos p).le
        _ = 2 ^ 23 * (ulp p * 2) := by ring
        _ ≤ 2 ^ 23 * ulp q := by gcongr
        _ ≤ single q := mul_le_mul_of_nonneg_right hq23 (ulp_pos q).le

theorem exists_inv_ulp {q : ℚ} (hq : 0 < q) (h : q < 2 ^ 24) : ∃ k : ℕ, (k : ℚ) * ulp q = 1 := by
  have hlog : Int.log 2 q ≤ 23 := by
    have hlt : Int.log 2 q < 24 := (Int.lt_zpow_iff_log_lt (by norm_num) hq).mp (by exact_mod_cast h)
    omega
  obtain ⟨k, hk⟩ := Int.eq_ofNat_of_zero_le (sub_nonneg.mpr hlog)
  refine ⟨2 ^ k, ?_⟩
  have hexp : Int.log 2 q - 23 = -(k : ℤ) := by omega
  rw [ulp, abs_of_pos hq, hexp, zpow_neg, zpow_natCast]
  push_cast
  exact mul_inv_cancel₀ (by positivity)

theorem single_natCast {n : ℕ} (h : n < 2 ^ 24) : single n = n := by
  rcases Nat.eq_zero_or_pos n with rfl | hn
  · simp
  · have hq : (0 : ℚ) < n := by exact_mod_cast hn
    obtain ⟨k, hk⟩ := exists_inv_ulp hq (by exact_mod_cast h)
    have hdiv : (n : ℚ) / ulp n = ((n * k : ℕ) : ℤ) := by
      rw [div_eq_iff (ulp_pos _).ne']
      push_cast
      rw [mul_assoc, hk, mul_one]
    unfold single
    rw [hdiv, roundEven_intCast, ← hdiv, div_mul_cancel₀ _ (ulp_pos _).ne']

end Verge.Foundation
