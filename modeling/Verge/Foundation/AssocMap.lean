import Mathlib.Algebra.BigOperators.Group.List.Basic
import Mathlib.Algebra.Ring.Int.Defs
import Mathlib.Algebra.Ring.Nat
import Mathlib.Data.List.AList

/-!
# Finite maps with a nondependent value type

Association lists without repeated keys, read through `lookup`.  Beside the
two-case forms of the lookup laws there is a fold rule for loops that visit
each entry once and touch only that entry's key, and the total of a value
measure over all entries.
-/

namespace Verge.Foundation

open List

abbrev AssocMap (κ ν : Type) := AList fun _ : κ => ν

namespace AssocMap

variable {κ ν σ M : Type} {m : AssocMap κ ν} {a k : κ} {v w : ν}

section Lookup

variable [DecidableEq κ]

theorem lookup_insert_ite (m : AssocMap κ ν) (a k : κ) (v : ν) :
    (m.insert k v).lookup a = if a = k then some v else m.lookup a := by
  by_cases h : a = k
  · subst h
    simp
  · simp [AList.lookup_insert_ne h, h]

theorem lookup_erase_ite (m : AssocMap κ ν) (a k : κ) :
    (m.erase k).lookup a = if a = k then none else m.lookup a := by
  by_cases h : a = k
  · subst h
    simp
  · simp [AList.lookup_erase_ne h, h]

theorem of_lookup_insert (h : (m.insert k v).lookup a = some w) :
    a = k ∧ w = v ∨ a ≠ k ∧ m.lookup a = some w := by
  rw [lookup_insert_ite] at h
  split at h
  case isTrue heq =>
    cases h
    exact .inl ⟨heq, rfl⟩
  case isFalse hne => exact .inr ⟨hne, h⟩

theorem of_lookup_erase (h : (m.erase k).lookup a = some w) : a ≠ k ∧ m.lookup a = some w := by
  rw [lookup_erase_ite] at h
  split at h
  case isTrue => cases h
  case isFalse hne => exact ⟨hne, h⟩

theorem lookup_eq_some_iff : m.lookup k = some v ↔ (⟨k, v⟩ : Sigma fun _ : κ => ν) ∈ m.entries :=
  AList.mem_lookup_iff

variable {β : Type} (step : σ → κ → ν → σ) (read : σ → κ → β) (update : κ → ν → β → β)
  (hstep : ∀ s k v a, read (step s k v) a = if a = k then update k v (read s k) else read s a)

include hstep

theorem foldl_read_list (l : List (Sigma fun _ : κ => ν)) (hl : l.NodupKeys) (s : σ) (a : κ) :
    read (l.foldl (fun s e => step s e.1 e.2) s) a =
      (l.dlookup a).elim (read s a) fun v => update a v (read s a) := by
  induction l generalizing s with
  | nil => rfl
  | cons e l ih =>
    obtain ⟨k, v⟩ := e
    obtain ⟨hk, hl⟩ := nodupKeys_cons.mp hl
    simp only [foldl_cons]
    rw [ih hl, hstep]
    by_cases h : a = k
    · subst h
      have hnone : l.dlookup a = none := dlookup_eq_none.mpr hk
      simp [hnone]
    · rw [dlookup_cons_ne _ _ h]
      simp [h]

/-- A loop over the entries that changes only what `read` shows at the key being visited
updates every key of the map once and no other. -/
theorem foldl_read (m : AssocMap κ ν) (s : σ) (a : κ) :
    read (m.entries.foldl (fun s e => step s e.1 e.2) s) a =
      (m.lookup a).elim (read s a) fun v => update a v (read s a) :=
  foldl_read_list step read update hstep m.entries m.nodupKeys s a

end Lookup

section Total

variable [AddCommMonoid M]

def total (weight : ν → M) (m : AssocMap κ ν) : M :=
  (m.entries.map fun e => weight e.2).sum

variable [DecidableEq κ]

theorem entries_erase (m : AssocMap κ ν) (k : κ) : (m.erase k).entries = m.entries.kerase k := rfl

variable (weight : ν → M)

theorem total_insert (m : AssocMap κ ν) (k : κ) (v : ν) :
    total weight (m.insert k v) = weight v + total weight (m.erase k) := by
  simp [total, AList.entries_insert, entries_erase]

theorem total_erase_of_lookup_none (h : m.lookup k = none) :
    total weight (m.erase k) = total weight m := by
  have hk : k ∉ m.entries.keys := AList.lookup_eq_none.mp h
  simp [total, entries_erase, kerase_of_notMem_keys hk]

private theorem sum_kerase (l : List (Sigma fun _ : κ => ν)) (h : l.dlookup k = some v) :
    (l.map fun e => weight e.2).sum =
      weight v + ((l.kerase k).map fun e => weight e.2).sum := by
  induction l with
  | nil => simp at h
  | cons e l ih =>
    obtain ⟨k', v'⟩ := e
    by_cases hk : k = k'
    · subst hk
      simp only [dlookup_cons_eq, Option.some.injEq] at h
      subst h
      simp
    · rw [dlookup_cons_ne _ _ hk] at h
      rw [kerase_cons_ne hk]
      simp only [map_cons, sum_cons, ih h]
      exact add_left_comm _ _ _

theorem total_of_lookup_some (h : m.lookup k = some v) :
    total weight m = weight v + total weight (m.erase k) :=
  sum_kerase weight m.entries h

end Total

end AssocMap

end Verge.Foundation
