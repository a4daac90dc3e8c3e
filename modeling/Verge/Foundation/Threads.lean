import Mathlib.Algebra.BigOperators.Group.Finset.Basic
import Mathlib.Data.Fintype.Basic
import Mathlib.Logic.Relation

/-!
# Threads over a shared state

A family of local states indexed by the threads, changed one thread at a time:
what such a change does to a total over all threads, and the rule for invariants
of a labelled transition system.
-/

namespace Verge.Foundation

variable {ι τ σ α : Type}

section Totals

variable [Fintype ι] [DecidableEq ι]

def threadTotal (measure : τ → Nat) (threads : ι → τ) : Nat := ∑ i, measure (threads i)

theorem threadTotal_update (measure : τ → Nat) (threads : ι → τ) (i : ι) (t : τ) :
    threadTotal measure (Function.update threads i t) + measure (threads i) =
      threadTotal measure threads + measure t := by
  have hrest : ∑ j ∈ Finset.univ.erase i, measure (Function.update threads i t j) =
      ∑ j ∈ Finset.univ.erase i, measure (threads j) :=
    Finset.sum_congr rfl fun j hj => by
      rw [Function.update_of_ne (Finset.ne_of_mem_erase hj)]
  unfold threadTotal
  rw [← Finset.add_sum_erase _ _ (Finset.mem_univ i), hrest,
    ← Finset.add_sum_erase _ (fun j => measure (threads j)) (Finset.mem_univ i),
    Function.update_self]
  omega

omit [DecidableEq ι] in
theorem threadTotal_congr {measure : τ → Nat} {threads threads' : ι → τ}
    (h : ∀ i, measure (threads' i) = measure (threads i)) :
    threadTotal measure threads' = threadTotal measure threads :=
  Finset.sum_congr rfl fun i _ => h i

theorem measure_le_threadTotal (measure : τ → Nat) (threads : ι → τ) (i : ι) :
    measure (threads i) ≤ threadTotal measure threads := by
  unfold threadTotal
  rw [← Finset.add_sum_erase _ _ (Finset.mem_univ i)]
  exact Nat.le_add_right _ _

end Totals

/-- `t` is reached from `s` by steps that all lead to states with `ok`. -/
def ReachesWithin (Step : σ → α → σ → Prop) (ok : σ → Prop) : σ → σ → Prop :=
  Relation.ReflTransGen fun s t => ok t ∧ ∃ a, Step s a t

theorem ReachesWithin.invariant {Step : σ → α → σ → Prop} {ok I : σ → Prop} {s t : σ}
    (h : ReachesWithin Step ok s t) (hs : I s)
    (hstep : ∀ s a t, I s → ok t → Step s a t → I t) : I t := by
  induction h with
  | refl => exact hs
  | tail _ hlast ih =>
    obtain ⟨hok, a, hstep'⟩ := hlast
    exact hstep _ a _ ih hok hstep'

end Verge.Foundation
