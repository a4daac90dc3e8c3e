import Mathlib.Logic.Basic

/-!
# Loops

A loop body either goes on with a new state or leaves the loop.  `whileLoop` runs a
body until it leaves, `forLoop` runs it a bounded number of times.  An invariant of
the body holds where the loop is left, and a measure that the body decreases bounds
the number of passes.
-/

namespace Verge.Foundation

inductive Pass (σ ρ : Type) where
  | next (s : σ)
  | done (r : ρ)

section While

variable {σ ρ : Type} (body : σ → Pass σ ρ)

def whileLoop : Nat → σ → Option ρ
  | 0, _ => none
  | fuel + 1, s =>
    match body s with
    | .next s' => whileLoop fuel s'
    | .done r => some r

variable {body}

theorem whileLoop_mono {fuel fuel' : Nat} {s : σ} {r : ρ} (h : whileLoop body fuel s = some r)
    (hle : fuel ≤ fuel') : whileLoop body fuel' s = some r := by
  induction fuel generalizing fuel' s with
  | zero => cases h
  | succ fuel ih =>
    obtain ⟨fuel', rfl⟩ : ∃ k, fuel' = k + 1 := ⟨fuel' - 1, by omega⟩
    simp only [whileLoop] at h ⊢
    cases hbody : body s with
    | next s' =>
      rw [hbody] at h
      exact ih h (by omega)
    | done r' =>
      rw [hbody] at h
      exact h

theorem exists_whileLoop {I : σ → Prop} {μ : σ → Nat}
    (hnext : ∀ s s', I s → body s = .next s' → I s' ∧ μ s' < μ s) {s : σ} (hs : I s) :
    ∃ r s', whileLoop body (μ s + 1) s = some r ∧ I s' ∧ body s' = .done r := by
  induction hμ : μ s using Nat.strongRecOn generalizing s with
  | ind m ih =>
    cases hbody : body s with
    | done r => exact ⟨r, s, by simp [whileLoop, hbody], hs, hbody⟩
    | next s' =>
      obtain ⟨hs', hlt⟩ := hnext s s' hs hbody
      obtain ⟨r, t, hrun, ht, hdone⟩ := ih (μ s') (hμ ▸ hlt) hs' rfl
      refine ⟨r, t, ?_, ht, hdone⟩
      simp only [whileLoop, hbody]
      exact whileLoop_mono hrun (by omega)

end While

section For

variable {σ : Type} (body : σ → Pass σ σ)

def forLoop : Nat → σ → σ
  | 0, s => s
  | count + 1, s =>
    match body s with
    | .next s' => forLoop count s'
    | .done s' => s'

theorem forLoop_invariant {I : σ → Prop}
    (hkeep : ∀ s s', I s → body s = .next s' ∨ body s = .done s' → I s') (count : Nat) {s : σ}
    (hs : I s) : I (forLoop body count s) := by
  induction count generalizing s with
  | zero => exact hs
  | succ count ih =>
    simp only [forLoop]
    cases hbody : body s with
    | next s' => exact ih (hkeep s s' hs (.inl hbody))
    | done s' => exact hkeep s s' hs (.inr hbody)

end For

end Verge.Foundation
