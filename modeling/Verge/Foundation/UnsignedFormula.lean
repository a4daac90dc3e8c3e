import Mathlib.Algebra.Order.Ring.Int

/-!
# Formulas over unsigned numbers

A formula that a program computes with unsigned numbers of a fixed width, into which
signed numbers are converted first, beside its value over the integers.  The two agree
if the conversions keep the signed numbers, no divisor is zero, and every product and
sum, taken over the integers, is below the bound of the width.
-/

namespace Verge.Foundation

inductive Formula where
  | value (n : Nat)
  | cast (bits : Nat) (n : Int)
  | mul (a b : Formula)
  | add (a b : Formula)
  | div (a b : Formula)
  deriving DecidableEq, Repr

namespace Formula

def eval (width : Nat) : Formula → Nat
  | value n => n
  | cast bits n => (n % 2 ^ bits).toNat
  | mul a b => a.eval width * b.eval width % 2 ^ width
  | add a b => (a.eval width + b.eval width) % 2 ^ width
  | div a b => a.eval width / b.eval width

def ideal : Formula → Int
  | value n => n
  | cast _ n => n
  | mul a b => a.ideal * b.ideal
  | add a b => a.ideal + b.ideal
  | div a b => a.ideal / b.ideal

/-- Every conversion, product and sum has the result that it has over the integers, and
no divisor is zero. -/
def Exact (width : Nat) : Formula → Prop
  | value _ => True
  | cast bits n => ((n % 2 ^ bits).toNat : Int) = n
  | mul a b => a.Exact width ∧ b.Exact width ∧ ((mul a b).eval width : Int) = (mul a b).ideal
  | add a b => a.Exact width ∧ b.Exact width ∧ ((add a b).eval width : Int) = (add a b).ideal
  | div a b => a.Exact width ∧ b.Exact width ∧ b.ideal ≠ 0

def Converts : Formula → Prop
  | value _ => True
  | cast bits n => 0 ≤ n ∧ n < 2 ^ bits
  | mul a b => a.Converts ∧ b.Converts
  | add a b => a.Converts ∧ b.Converts
  | div a b => a.Converts ∧ b.Converts ∧ b.ideal ≠ 0

def InRange (width : Nat) : Formula → Prop
  | value _ => True
  | cast _ _ => True
  | mul a b => a.InRange width ∧ b.InRange width ∧ a.ideal * b.ideal < 2 ^ width
  | add a b => a.InRange width ∧ b.InRange width ∧ a.ideal + b.ideal < 2 ^ width
  | div a b => a.InRange width ∧ b.InRange width

variable {width : Nat} {f : Formula}

theorem Converts.div_cast {bits : Nat} {n : Int} (h : f.Converts) (hpos : 0 < n)
    (hlt : n < 2 ^ bits) : (f.div (cast bits n)).Converts :=
  ⟨h, ⟨hpos.le, hlt⟩, hpos.ne'⟩

theorem Converts.mul_cast {bits : Nat} {n : Int} (h : f.Converts) (hnonneg : 0 ≤ n)
    (hlt : n < 2 ^ bits) : (f.mul (cast bits n)).Converts :=
  ⟨h, hnonneg, hlt⟩

theorem Exact.eval_eq (h : f.Exact width) : (f.eval width : Int) = f.ideal := by
  induction f with
  | value n => rfl
  | cast bits n => exact h
  | mul a b iha ihb => exact h.2.2
  | add a b iha ihb => exact h.2.2
  | div a b iha ihb =>
    rw [eval, ideal, ← iha h.1, ← ihb h.2.1]
    exact Int.natCast_div _ _

theorem cast_exact_iff (bits : Nat) (n : Int) :
    ((n % 2 ^ bits).toNat : Int) = n ↔ 0 ≤ n ∧ n < 2 ^ bits := by
  have hpos : (0 : Int) < 2 ^ bits := Int.pow_pos (by decide)
  rw [Int.toNat_of_nonneg (Int.emod_nonneg n hpos.ne')]
  constructor
  · intro h
    rw [← h]
    exact ⟨Int.emod_nonneg n hpos.ne', Int.emod_lt_of_pos n hpos⟩
  · exact fun h => Int.emod_eq_of_lt h.1 h.2

theorem mod_exact_iff {n : Nat} {m : Int} (h : (n : Int) = m) :
    ((n % 2 ^ width : Nat) : Int) = m ↔ m < 2 ^ width := by
  rw [← h]
  have hbound : ((n : Int) < 2 ^ width) ↔ n < 2 ^ width := by
    exact_mod_cast Iff.rfl
  rw [hbound, Nat.cast_inj]
  exact ⟨fun heq => heq ▸ Nat.mod_lt n (Nat.two_pow_pos width), Nat.mod_eq_of_lt⟩

private theorem exact_pair {a b : Formula} {P Q : Prop}
    (iha : a.Exact width ↔ a.Converts ∧ a.InRange width)
    (ihb : b.Exact width ↔ b.Converts ∧ b.InRange width)
    (h : a.Exact width → b.Exact width → (P ↔ Q)) : a.Exact width ∧ b.Exact width ∧ P ↔
      (a.Converts ∧ b.Converts) ∧ a.InRange width ∧ b.InRange width ∧ Q := by
  constructor
  · rintro ⟨ha, hb, hP⟩
    obtain ⟨hca, hra⟩ := iha.mp ha
    obtain ⟨hcb, hrb⟩ := ihb.mp hb
    exact ⟨⟨hca, hcb⟩, hra, hrb, (h ha hb).mp hP⟩
  · rintro ⟨⟨hca, hcb⟩, hra, hrb, hQ⟩
    have ha := iha.mpr ⟨hca, hra⟩
    have hb := ihb.mpr ⟨hcb, hrb⟩
    exact ⟨ha, hb, (h ha hb).mpr hQ⟩

theorem exact_iff : f.Exact width ↔ f.Converts ∧ f.InRange width := by
  induction f with
  | value n => exact ⟨fun _ => ⟨trivial, trivial⟩, fun _ => trivial⟩
  | cast bits n =>
    rw [Exact, cast_exact_iff, Converts, InRange]
    exact (and_iff_left trivial).symm
  | mul a b iha ihb =>
    refine exact_pair iha ihb fun ha hb => mod_exact_iff ?_
    rw [Nat.cast_mul, ha.eval_eq, hb.eval_eq, ideal]
  | add a b iha ihb =>
    refine exact_pair iha ihb fun ha hb => mod_exact_iff ?_
    rw [Nat.cast_add, ha.eval_eq, hb.eval_eq, ideal]
  | div a b iha ihb =>
    rw [Exact, Converts, InRange, iha, ihb]
    constructor
    · rintro ⟨⟨hca, hra⟩, ⟨hcb, hrb⟩, hdiv⟩
      exact ⟨⟨hca, hcb, hdiv⟩, hra, hrb⟩
    · rintro ⟨⟨hca, hcb, hdiv⟩, hra, hrb⟩
      exact ⟨⟨hca, hra⟩, ⟨hcb, hrb⟩, hdiv⟩

end Formula

end Verge.Foundation
