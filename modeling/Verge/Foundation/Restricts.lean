import Mathlib.Logic.Basic

/-!
# Computations that accept less

`Restricts strict loose` says that whatever `strict` returns, `loose` returns
too.  The errors need not agree.  It is kept by sequencing, so two runs of one
program under different rules are compared check by check.
-/

namespace Verge.Foundation

variable {ε ε' α β : Type}

def Restricts (strict : Except ε α) (loose : Except ε' α) : Prop :=
  ∀ a, strict = .ok a → loose = .ok a

def failIf (bad : Bool) (e : ε) : Except ε Unit := if bad then .error e else .ok ()

theorem failIf_eq_ok {bad : Bool} {e : ε} {u : Unit} :
    failIf bad e = .ok u ↔ bad = false := by
  cases bad <;> simp [failIf]

theorem bind_eq_ok {x : Except ε α} {f : α → Except ε β} {b : β} :
    x >>= f = .ok b ↔ ∃ a, x = .ok a ∧ f a = .ok b := by
  cases x with
  | error e =>
    constructor
    · intro h
      cases h
    · rintro ⟨a, h, -⟩
      cases h
  | ok a =>
    constructor
    · intro h
      exact ⟨a, rfl, h⟩
    · rintro ⟨a', h, hf⟩
      cases h
      exact hf

namespace Restricts

theorem refl {x : Except ε α} : Restricts x x := fun _ h => h

theorem bind {x y : Except ε α} {f g : α → Except ε β} (hxy : Restricts x y)
    (hfg : ∀ a, Restricts (f a) (g a)) : Restricts (x >>= f) (y >>= g) := by
  intro b hb
  obtain ⟨a, hx, hf⟩ := bind_eq_ok.mp hb
  exact bind_eq_ok.mpr ⟨a, hxy a hx, hfg a b hf⟩

theorem before {x y : Except ε α} {f : α → Except ε β} (hxy : Restricts x y) :
    Restricts (x >>= f) (y >>= f) :=
  hxy.bind fun _ => refl

theorem after {x : Except ε α} {f g : α → Except ε β} (hfg : ∀ a, Restricts (f a) (g a)) :
    Restricts (x >>= f) (x >>= g) :=
  refl.bind hfg

theorem ite {c : Prop} [Decidable c] {x x' y y' : Except ε α} (h : c → Restricts x x')
    (h' : ¬c → Restricts y y') : Restricts (if c then x else y) (if c then x' else y') := by
  by_cases hc : c
  · simpa [hc] using h hc
  · simpa [hc] using h' hc

theorem failIf {bad bad' : Bool} {e e' : ε} (h : bad' = true → bad = true) :
    Restricts (failIf bad e) (Foundation.failIf bad' e') := by
  intro u hu
  rw [failIf_eq_ok] at hu ⊢
  exact Bool.eq_false_iff.mpr fun hbad => by simp [h hbad] at hu

end Restricts

end Verge.Foundation
