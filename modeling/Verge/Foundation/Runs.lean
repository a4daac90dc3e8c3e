import Mathlib.Logic.Basic

/-!
# Conditions along a run

A machine with a total step function is driven by a list of inputs.  `Along`
asks a condition of every step taken, given the state it starts from; what
holds after every step is the condition that looks at the state it leads to.
-/

namespace Verge.Foundation

variable {σ α : Type}

def Along (step : σ → α → σ) (C : σ → α → Prop) : σ → List α → Prop
  | _, [] => True
  | s, a :: as => C s a ∧ Along step C (step s a) as

namespace Along

variable {step : σ → α → σ} {C D : σ → α → Prop}

@[simp] theorem nil (s : σ) : Along step C s [] := trivial

@[simp] theorem cons (s : σ) (a : α) (as : List α) :
    Along step C s (a :: as) ↔ C s a ∧ Along step C (step s a) as := Iff.rfl

instance decidable [∀ s a, Decidable (C s a)] (s : σ) :
    ∀ as : List α, Decidable (Along step C s as)
  | [] => .isTrue trivial
  | a :: as => @instDecidableAnd _ _ _ (decidable (step s a) as)

/-- Two conditions that agree on the steps from `I` agree along a run, if the run stays in
`I` while the first one is met. -/
theorem iff_of_invariant {I : σ → Prop}
    (hiff : ∀ s a, I s → (C s a ↔ D s a)) (hkeep : ∀ s a, I s → C s a → I (step s a))
    {s : σ} (hs : I s) (as : List α) : Along step C s as ↔ Along step D s as := by
  induction as generalizing s with
  | nil => simp
  | cons a as ih =>
    rw [cons, cons, ← hiff s a hs]
    exact and_congr_right fun hc => ih (hkeep s a hs hc)

/-- What follows from a condition in states with `I` holds along every run that meets
the condition, if such steps stay in `I`. -/
theorem of_invariant {I : σ → Prop}
    (himp : ∀ s a, I s → C s a → D s a) (hkeep : ∀ s a, I s → C s a → I (step s a))
    {s : σ} (hs : I s) {as : List α} (h : Along step C s as) : Along step D s as := by
  induction as generalizing s with
  | nil => simp
  | cons a as ih =>
    rw [cons] at h ⊢
    exact ⟨himp s a hs h.1, ih (hkeep s a hs h.1) h.2⟩

theorem last {s : σ} {as : List α} {a : α} (h : Along step C s (as ++ [a])) :
    C (as.foldl step s) a := by
  induction as generalizing s with
  | nil => exact h.1
  | cons b as ih => exact ih h.2

theorem and (s : σ) (as : List α) :
    Along step (fun s a => C s a ∧ D s a) s as ↔ Along step C s as ∧ Along step D s as := by
  induction as generalizing s with
  | nil => simp
  | cons a as ih =>
    simp only [cons, ih]
    exact and_and_and_comm

end Along

end Verge.Foundation
