import Mathlib.Data.List.GetD
import Mathlib.Data.List.Sort

/-!
# The middle of a sliding window

The middle element of a list is the one at half the length after sorting.  It is
at least `m` exactly when at most half of the elements are below `m`, so a window
that takes in an element not below its middle does not lower its middle.
-/

namespace Verge.Foundation

open List

variable {α : Type} [LinearOrder α]

def middle (d : α) (l : List α) : α := (l.insertionSort (· ≤ ·)).getD (l.length / 2) d

theorem getElem_le_getElem_of_pairwise {l : List α} (hl : l.Pairwise (· ≤ ·)) {i j : Nat}
    (hj : j < l.length) (hij : i ≤ j) : l[i] ≤ l[j] := by
  rcases Nat.lt_or_eq_of_le hij with hlt | rfl
  · exact pairwise_iff_getElem.mp hl i j (by omega) hj hlt
  · exact le_rfl

theorem le_getElem_of_countP_le {l : List α} (hl : l.Pairwise (· ≤ ·)) {m : α} {k : Nat}
    (hk : k < l.length) (h : l.countP (· < m) ≤ k) : m ≤ l[k] := by
  by_contra hlt
  have hall : ∀ a ∈ l.take (k + 1), decide (a < m) = true := by
    intro a ha
    obtain ⟨i, hi, rfl⟩ := mem_take_iff_getElem.mp ha
    have hle : l[i] ≤ l[k] := getElem_le_getElem_of_pairwise hl hk (by omega)
    exact decide_eq_true (lt_of_le_of_lt hle (not_le.mp hlt))
  have hcount : (l.take (k + 1)).countP (· < m) = k + 1 := by
    rw [countP_eq_length.mpr hall, length_take]
    omega
  have hle := (take_sublist (k + 1) l).countP_le (p := fun a => decide (a < m))
  omega

theorem countP_le_of_le_getElem {l : List α} (hl : l.Pairwise (· ≤ ·)) {m : α} {k : Nat}
    (hk : k < l.length) (h : m ≤ l[k]) : l.countP (· < m) ≤ k := by
  have hnone : ∀ a ∈ l.drop k, ¬ decide (a < m) = true := by
    intro a ha
    obtain ⟨i, hi, rfl⟩ := mem_drop_iff_getElem.mp ha
    have hki : k + i < l.length := by omega
    have hle : l[k] ≤ l[k + i] := getElem_le_getElem_of_pairwise hl hki (Nat.le_add_right k i)
    simpa using h.trans hle
  have hsplit : l.countP (fun a => decide (a < m)) =
      (l.take k).countP (fun a => decide (a < m)) + (l.drop k).countP (fun a => decide (a < m)) := by
    rw [← countP_append, take_append_drop]
  rw [countP_eq_zero.mpr hnone] at hsplit
  have hle := countP_le_length (p := fun a => decide (a < m)) (l := l.take k)
  rw [length_take] at hle
  omega

theorem le_middle_iff (d : α) {l : List α} (hl : l ≠ []) (m : α) :
    m ≤ middle d l ↔ l.countP (· < m) ≤ l.length / 2 := by
  have hperm := perm_insertionSort (· ≤ ·) l
  have hsorted := pairwise_insertionSort (· ≤ ·) l
  have hk : l.length / 2 < (l.insertionSort (· ≤ ·)).length := by
    rw [length_insertionSort]
    exact Nat.div_lt_self (length_pos_iff.mpr hl) (by decide)
  rw [middle, getD_eq_getElem _ _ hk, ← hperm.countP_eq]
  exact ⟨countP_le_of_le_getElem hsorted hk, le_getElem_of_countP_le hsorted hk⟩

theorem middle_take_le_middle_take_cons (d : α) {l : List α} (hl : l ≠ []) {width : Nat}
    (hwidth : 0 < width) {x : α} (hx : middle d (l.take width) ≤ x) :
    middle d (l.take width) ≤ middle d ((x :: l).take width) := by
  obtain ⟨n, rfl⟩ : ∃ n, width = n + 1 := ⟨width - 1, by omega⟩
  have hlen := length_pos_iff.mpr hl
  have hne : l.take (n + 1) ≠ [] := by simp [hl]
  have hold := (le_middle_iff d hne _).mp le_rfl
  rw [take_succ_cons]
  refine (le_middle_iff d (by simp) _).mpr ?_
  rw [countP_cons_of_neg (by simpa using hx)]
  have hsub := (take_sublist_take_left (l := l) (show n ≤ n + 1 by omega)).countP_le
    (p := fun a => decide (a < middle d (l.take (n + 1))))
  simp only [length_take, length_cons] at hold ⊢
  omega

end Verge.Foundation
