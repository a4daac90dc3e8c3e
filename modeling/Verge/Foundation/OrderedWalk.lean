import Mathlib.Data.List.Sort

/-!
# Walks over a sorted multimap

`lower_bound` in a sorted list skips the entries below a key, and a loop that starts
there and runs while a test holds takes a prefix of the rest.  Where the test is closed
downwards along the list, skipping and taking are filtering.
-/

namespace Verge.Foundation

open List

variable {α : Type} {p : α → Bool} {l : List α}

theorem takeWhile_eq_filter (h : l.Pairwise fun a b => p b = true → p a = true) :
    l.takeWhile p = l.filter p := by
  induction l with
  | nil => rfl
  | cons a l ih =>
    obtain ⟨hhead, htail⟩ := pairwise_cons.mp h
    cases ha : p a with
    | true => simp [ha, ih htail]
    | false =>
      have hnone : l.filter p = [] := by
        refine filter_eq_nil_iff.mpr fun b hb hpb => ?_
        simp [hhead b hb hpb] at ha
      simp [ha, hnone]

theorem dropWhile_eq_filter (h : l.Pairwise fun a b => p b = true → p a = true) :
    l.dropWhile p = l.filter fun a => !p a := by
  induction l with
  | nil => rfl
  | cons a l ih =>
    obtain ⟨hhead, htail⟩ := pairwise_cons.mp h
    cases ha : p a with
    | true => simp [ha, ih htail]
    | false =>
      have hall : l.filter (fun b => !p b) = l := by
        refine filter_eq_self.mpr fun b hb => ?_
        cases hpb : p b with
        | false => rfl
        | true => simp [hhead b hb hpb] at ha
      simp [ha, hall]

theorem takeWhile_eq_nil_of_forall (h : ∀ a ∈ l.head?, p a = false) : l.takeWhile p = [] := by
  cases l with
  | nil => rfl
  | cons a l => simp [h a (by simp)]

theorem rel_of_mem_head? {r : α → α → Prop} (hrefl : ∀ a, r a a) (h : l.Pairwise r) {a b : α}
    (ha : a ∈ l.head?) (hb : b ∈ l) : r a b := by
  cases l with
  | nil => cases hb
  | cons c l =>
    obtain rfl : c = a := by simpa using ha
    rcases mem_cons.mp hb with rfl | hb
    · exact hrefl b
    · exact (pairwise_cons.mp h).1 b hb

end Verge.Foundation
