import Mathlib.Data.Nat.Bitwise
import Mathlib.Order.Bounds.Basic
import Verge.ChainParams

/-!
# The compact format

`GetCompact` keeps the length of a number in bytes and its upper three bytes, or two
of them where the third would set the sign bit.  What `SetCompact` reads back is the
number without its lower bytes: at most one part in 2 ^ 15 is lost.
-/

namespace Verge

def bits (n : Nat) : Nat := if n = 0 then 0 else n.log2 + 1

def getCompact (n : Nat) : Nat :=
  let nSize := (bits n + 7) / 8
  let nCompact := if nSize ≤ 3 then n <<< (8 * (3 - nSize)) else n >>> (8 * (nSize - 3))
  if nCompact &&& 0x00800000 ≠ 0 then nCompact >>> 8 ||| (nSize + 1) <<< 24
  else nCompact ||| nSize <<< 24

/-- The number that `nBits` stands for, whatever the flags say. -/
def targetOf (nBits : Nat) : Nat := (setCompact nBits).1

/-- The number `mantissa * 256 ^ (exponent - 3)`, rounded down, that an encoding denotes
apart from its sign. -/
def denoted (mantissa exponent : Nat) : Nat :=
  if exponent ≤ 3 then mantissa / 2 ^ (8 * (3 - exponent)) else mantissa * 2 ^ (8 * (exponent - 3))

theorem overflow_iff {word size : Nat} (h : word < 2 ^ 23) :
    (word ≠ 0 ∧ ((34 < size ∨ 0xff < word ∧ 33 < size) ∨ 0xffff < word ∧ 32 < size)) ↔
      2 ^ 256 ≤ word * 2 ^ (8 * (size - 3)) := by
  rcases Nat.lt_or_ge size 33 with hsmall | hlarge
  · have hle : word * 2 ^ (8 * (size - 3)) ≤ word * 2 ^ 232 :=
      Nat.mul_le_mul_left _ (Nat.pow_le_pow_right (by decide) (by omega))
    omega
  · obtain ⟨k, rfl⟩ : ∃ k, size = k + 33 := ⟨size - 33, by omega⟩
    match k with
    | 0 => omega
    | 1 => omega
    | k + 2 =>
      rw [show 8 * (k + 2 + 33 - 3) = 256 + 8 * k by omega, Nat.pow_add, Nat.mul_left_comm]
      constructor
      · intro hflag
        exact Nat.le_mul_of_pos_right _ (Nat.mul_pos (by omega) (Nat.two_pow_pos _))
      · intro hle
        refine ⟨fun hzero => ?_, by omega⟩
        rw [hzero, Nat.zero_mul, Nat.mul_zero] at hle
        omega

theorem and_sign_ne_zero_iff (word : Nat) : word &&& 0x00800000 ≠ 0 ↔ word / 2 ^ 23 % 2 = 1 := by
  rw [show (0x00800000 : Nat) = 2 ^ 23 from rfl, Nat.and_two_pow, Nat.testBit_eq_decide_div_mod_eq]
  by_cases word / 2 ^ 23 % 2 = 1
  all_goals simp_all

/-- What `SetCompact` computes, for every encoding. -/
theorem setCompact_eq (nCompact : Nat) :
    setCompact nCompact = (denoted (nCompact % 2 ^ 23) (nCompact >>> 24) % 2 ^ 256,
      decide (denoted (nCompact % 2 ^ 23) (nCompact >>> 24) ≠ 0 ∧ nCompact / 2 ^ 23 % 2 = 1),
      decide (2 ^ 256 ≤ denoted (nCompact % 2 ^ 23) (nCompact >>> 24))) := by
  have hword : nCompact &&& 0x007fffff = nCompact % 2 ^ 23 :=
    Nat.and_two_pow_sub_one_eq_mod nCompact 23
  have hlt : nCompact % 2 ^ 23 < 2 ^ 23 := Nat.mod_lt _ (by decide)
  simp only [setCompact, denoted, hword, and_sign_ne_zero_iff, Nat.shiftRight_eq_div_pow _ (8 * _),
    Nat.shiftLeft_eq, ← Bool.decide_and, ← Bool.decide_or]
  generalize nCompact % 2 ^ 23 = word at hlt ⊢
  generalize nCompact >>> 24 = size
  by_cases hsize : size ≤ 3
  · have hfits : word / 2 ^ (8 * (3 - size)) < 2 ^ 256 :=
      (Nat.div_le_self _ _).trans_lt (hlt.trans (by decide))
    simp only [if_pos hsize]
    rw [Nat.mod_eq_of_lt hfits]
    exact congrArg (_, _, ·) (decide_eq_decide.mpr (by omega))
  · have hzero : word * 2 ^ (8 * (size - 3)) ≠ 0 ↔ word ≠ 0 := by
      simp
    simp only [if_neg hsize]
    rw [decide_eq_decide.mpr (overflow_iff hlt), decide_eq_decide.mpr (and_congr_left' hzero)]

theorem setCompact_packed {word size : Nat} (h : word < 2 ^ 23) (hfits : denoted word size < 2 ^ 256) :
    setCompact (word ||| size <<< 24) = (denoted word size, false, false) := by
  have hor : word ||| size <<< 24 = 2 ^ 24 * size + word := by
    rw [Nat.or_comm, Nat.shiftLeft_eq, Nat.mul_comm, ← Nat.two_pow_add_eq_or_of_lt (by omega)]
  have hsize : (2 ^ 24 * size + word) >>> 24 = size := by
    rw [Nat.shiftRight_eq_div_pow]
    omega
  have hword : (2 ^ 24 * size + word) % 2 ^ 23 = word := by
    omega
  rw [setCompact_eq, hor, hsize, hword, Nat.mod_eq_of_lt hfits, decide_eq_false (by omega),
    decide_eq_false (by omega)]

theorem bits_bounds {n : Nat} (h : n ≠ 0) :
    2 ^ (8 * ((bits n + 7) / 8 - 1)) ≤ n ∧ n < 2 ^ (8 * ((bits n + 7) / 8)) := by
  rw [bits, if_neg h]
  have hle := Nat.log2_self_le h
  have hlt := Nat.lt_log2_self (n := n)
  refine ⟨le_trans (Nat.pow_le_pow_right (by decide) (by omega)) hle,
    lt_of_lt_of_le hlt (Nat.pow_le_pow_right (by decide) (by omega))⟩

/-- The upper bytes of `n`, those above the lowest `exponent - 3`. -/
def mantissa (n exponent : Nat) : Nat :=
  if exponent ≤ 3 then n * 2 ^ (8 * (3 - exponent)) else n / 2 ^ (8 * (exponent - 3))

theorem mantissa_succ (n exponent : Nat) : mantissa n exponent / 2 ^ 8 = mantissa n (exponent + 1) := by
  unfold mantissa
  rcases Nat.lt_trichotomy exponent 3 with hlt | rfl | hgt
  · rw [if_pos (by omega), if_pos (by omega),
      show 8 * (3 - exponent) = 8 * (3 - (exponent + 1)) + 8 by omega, Nat.pow_add, ← Nat.mul_assoc,
      Nat.mul_div_cancel _ (by decide)]
  · simp
  · rw [if_neg (by omega), if_neg (by omega), Nat.div_div_eq_div_mul, ← Nat.pow_add]
    congr 2
    omega

theorem denoted_mantissa (n exponent : Nat) :
    denoted (mantissa n exponent) exponent =
      n / 2 ^ (8 * (exponent - 3)) * 2 ^ (8 * (exponent - 3)) := by
  unfold denoted mantissa
  split_ifs with h
  · rw [Nat.mul_div_cancel _ (Nat.two_pow_pos _), Nat.sub_eq_zero_of_le h]
    simp
  · rfl

theorem dropped_le_mantissa (n exponent : Nat) :
    n / 2 ^ (8 * (exponent - 3)) ≤ mantissa n exponent := by
  unfold mantissa
  split_ifs with h
  · rw [Nat.sub_eq_zero_of_le h, Nat.mul_zero, Nat.pow_zero, Nat.div_one]
    exact Nat.le_mul_of_pos_right _ (Nat.two_pow_pos _)
  · exact Nat.le_refl _

/-- `v` is `n` without as few of its lower bytes as a mantissa of 23 bits allows. -/
def Truncates (n v : Nat) : Prop :=
  ∃ k, v = n / 2 ^ (8 * k) * 2 ^ (8 * k) ∧ n / 2 ^ (8 * k) < 2 ^ 23 ∧
    (k = 0 ∨ 2 ^ 15 ≤ n / 2 ^ (8 * k))

theorem setCompact_mantissa {n exponent : Nat} (hn : n < 2 ^ 256)
    (hlt : mantissa n exponent < 2 ^ 23)
    (hlong : 3 < exponent → 2 ^ 15 ≤ mantissa n exponent) :
    ∃ v, setCompact (mantissa n exponent ||| exponent <<< 24) = (v, false, false) ∧
      Truncates n v := by
  have hle := Nat.div_mul_le_self n (2 ^ (8 * (exponent - 3)))
  rw [setCompact_packed hlt (by rw [denoted_mantissa]; omega), denoted_mantissa]
  refine ⟨_, rfl, exponent - 3, rfl, (dropped_le_mantissa n exponent).trans_lt hlt, ?_⟩
  rcases Nat.lt_or_ge 3 exponent with hgt | hle
  · refine .inr ((hlong hgt).trans_eq ?_)
    rw [mantissa, if_neg (by omega)]
  · exact .inl (by omega)

theorem setCompact_getCompact {n : Nat} (hn : n < 2 ^ 256) :
    ∃ v, setCompact (getCompact n) = (v, false, false) ∧ Truncates n v := by
  by_cases hzero : n = 0
  · subst hzero
    exact ⟨0, by decide, 0, by decide⟩
  obtain ⟨hle, hlt⟩ := bits_bounds hzero
  have hcompact : getCompact n = if mantissa n ((bits n + 7) / 8) &&& 0x00800000 ≠ 0 then
      mantissa n ((bits n + 7) / 8) >>> 8 ||| ((bits n + 7) / 8 + 1) <<< 24
    else mantissa n ((bits n + 7) / 8) ||| ((bits n + 7) / 8) <<< 24 := by
    simp only [getCompact, mantissa, Nat.shiftLeft_eq _ (8 * _), Nat.shiftRight_eq_div_pow _ (8 * _)]
    rfl
  rw [hcompact]
  generalize (bits n + 7) / 8 = size at hle hlt
  have hword : mantissa n size < 2 ^ 24 := by
    unfold mantissa
    split_ifs
    · calc n * 2 ^ (8 * (3 - size)) < 2 ^ (8 * size) * 2 ^ (8 * (3 - size)) :=
            Nat.mul_lt_mul_of_pos_right hlt (Nat.two_pow_pos _)
        _ = 2 ^ 24 := by rw [← Nat.pow_add]; congr 1; omega
    · rw [Nat.div_lt_iff_lt_mul (Nat.two_pow_pos _), ← Nat.pow_add]
      exact lt_of_lt_of_eq hlt (by congr 1; omega)
  split_ifs with hsign
  · have hhigh := (and_sign_ne_zero_iff _).mp hsign
    rw [Nat.shiftRight_eq_div_pow, mantissa_succ]
    have hsucc := mantissa_succ n size
    exact setCompact_mantissa hn (by omega) (by omega)
  · have hlow := mt (and_sign_ne_zero_iff _).mpr hsign
    refine setCompact_mantissa hn (by omega) fun hlong => ?_
    rw [mantissa, if_neg (by omega), Nat.le_div_iff_mul_le (Nat.two_pow_pos _), ← Nat.pow_add]
    exact le_trans (Nat.pow_le_pow_right (by decide) (by omega)) hle

def Representable (v : Nat) : Prop := ∃ m k, m < 2 ^ 23 ∧ v = m * 256 ^ k

theorem representable_denoted {word : Nat} (h : word < 2 ^ 23) (size : Nat) :
    Representable (denoted word size) := by
  unfold denoted
  split_ifs
  · exact ⟨_, 0, (Nat.div_le_self _ _).trans_lt h, (Nat.mul_one _).symm⟩
  · exact ⟨word, size - 3, h, by rw [Nat.pow_mul]⟩

theorem Truncates.isGreatest {n v : Nat} (h : Truncates n v) :
    IsGreatest {r | Representable r ∧ r ≤ n} v := by
  obtain ⟨k, rfl, hlt, hlong⟩ := h
  refine ⟨⟨⟨_, k, hlt, by rw [Nat.pow_mul]⟩, Nat.div_mul_le_self _ _⟩, ?_⟩
  rintro r ⟨⟨m, j, hm, rfl⟩, hle⟩
  rcases Nat.lt_or_ge j k with hjk | hkj
  · -- the factor is smaller, so that the product stays below any mantissa of 15 bits
    have hk : 2 ^ 15 ≤ n / 2 ^ (8 * k) := by omega
    calc m * 256 ^ j ≤ 2 ^ 23 * 256 ^ (k - 1) :=
          Nat.mul_le_mul hm.le (Nat.pow_le_pow_right (by decide) (by omega))
      _ = 2 ^ 15 * 2 ^ (8 * k) := by
          rw [show 256 = 2 ^ 8 from rfl, ← Nat.pow_mul, ← Nat.pow_add, ← Nat.pow_add]
          congr 1
          omega
      _ ≤ n / 2 ^ (8 * k) * 2 ^ (8 * k) := Nat.mul_le_mul_right _ hk
  · have hsplit : m * 256 ^ j = m * 256 ^ (j - k) * 2 ^ (8 * k) := by
      rw [Nat.pow_mul, Nat.mul_assoc, ← Nat.pow_add, Nat.sub_add_cancel hkj]
    rw [hsplit] at hle ⊢
    exact Nat.mul_le_mul_right _ ((Nat.le_div_iff_mul_le (Nat.two_pow_pos _)).mpr hle)

theorem Truncates.error_lt {n v : Nat} (h : Truncates n v) (hpos : 0 < n) : (n - v) * 2 ^ 15 < n := by
  obtain ⟨k, rfl, -, hlong⟩ := h
  have hmod := Nat.div_add_mod' n (2 ^ (8 * k))
  have hlt := Nat.mod_lt n (Nat.two_pow_pos (8 * k))
  rcases hlong with rfl | hlong
  · omega
  · have hle := Nat.mul_le_mul_right (2 ^ (8 * k)) hlong
    omega

theorem targetOf_getCompact {n : Nat} (h : n < 2 ^ 256) : Truncates n (targetOf (getCompact n)) := by
  obtain ⟨v, heq, htruncates⟩ := setCompact_getCompact h
  rw [targetOf, heq]
  exact htruncates

theorem targetOf_getCompact_le {n : Nat} (h : n < 2 ^ 256) : targetOf (getCompact n) ≤ n :=
  (targetOf_getCompact h).isGreatest.1.2

theorem le_targetOf_getCompact {n : Nat} (h : n < 2 ^ 256) :
    n ≤ targetOf (getCompact n) + n / 2 ^ 15 := by
  rcases Nat.eq_zero_or_pos n with rfl | hpos
  · exact Nat.zero_le _
  · have hlt := (targetOf_getCompact h).error_lt hpos
    omega

theorem targetOf_getCompact_eq {n : Nat} (h : n < 2 ^ 256) (hn : Representable n) :
    targetOf (getCompact n) = n :=
  (targetOf_getCompact h).isGreatest.unique ⟨⟨hn, Nat.le_refl n⟩, fun _ hr => hr.2⟩

/-- The compact format rounds down to a mantissa of 23 bits, in order, and every number it
can hold has one canonical encoding. -/
theorem compact_canonical :
    (∀ x < 2 ^ 256,
      (setCompact (getCompact x)).2 = (false, false) ∧
      IsGreatest {r | Representable r ∧ r ≤ x} (targetOf (getCompact x)) ∧
      (2 ^ 23 ≤ x → (x - targetOf (getCompact x)) * 2 ^ 15 < x)) ∧
    (∀ c < 2 ^ 32, (setCompact c).2 = (false, false) →
      targetOf (getCompact (targetOf c)) = targetOf c ∧
      ∀ c' < 2 ^ 32, (setCompact c').2 = (false, false) → targetOf c' = targetOf c →
        getCompact (targetOf c') = getCompact (targetOf c) ∧
        getCompact (targetOf (getCompact (targetOf c'))) = getCompact (targetOf c')) ∧
    (∀ x y, x ≤ y → y < 2 ^ 256 → targetOf (getCompact x) ≤ targetOf (getCompact y)) ∧
    ∀ c < 2 ^ 32, (setCompact c).2.2 = true ↔ 2 ^ 256 ≤ denoted (c % 2 ^ 23) (c >>> 24) := by
  refine ⟨fun x hx => ?_, fun c _ hflags => ?_, fun x y hle hy => ?_, fun c _ => ?_⟩
  · obtain ⟨v, heq, -⟩ := setCompact_getCompact hx
    exact ⟨by rw [heq], (targetOf_getCompact hx).isGreatest,
      fun hlarge => (targetOf_getCompact hx).error_lt (by omega)⟩
  · have hsame : targetOf (getCompact (targetOf c)) = targetOf c := by
      have hfits : ¬2 ^ 256 ≤ denoted (c % 2 ^ 23) (c >>> 24) := by
        have hoverflow := congrArg Prod.snd hflags
        rw [setCompact_eq] at hoverflow
        exact of_decide_eq_false hoverflow
      have hvalue : targetOf c = denoted (c % 2 ^ 23) (c >>> 24) := by
        rw [targetOf, setCompact_eq]
        exact Nat.mod_eq_of_lt (by omega)
      rw [hvalue]
      exact targetOf_getCompact_eq (by omega) (representable_denoted (Nat.mod_lt _ (by decide)) _)
    refine ⟨hsame, fun c' _ _ heq => ?_⟩
    rw [heq, hsame]
    exact ⟨rfl, rfl⟩
  · obtain ⟨⟨hrep, hx⟩, -⟩ := (targetOf_getCompact (hle.trans_lt hy)).isGreatest
    exact (targetOf_getCompact hy).isGreatest.2 ⟨hrep, hx.trans hle⟩
  · rw [setCompact_eq, decide_eq_true_eq]

theorem compact_canonical_sample :
    targetOf (getCompact 0x12345678) ≤ targetOf (getCompact 0x12345679) ∧
    getCompact (targetOf 0x04000012) = getCompact (targetOf 0x03001200) :=
  ⟨compact_canonical.2.2.1 _ _ (by decide) (by decide),
    ((compact_canonical.2.1 0x03001200 (by decide) (by decide)).2 0x04000012 (by decide)
      (by decide) (by decide)).1⟩

end Verge
