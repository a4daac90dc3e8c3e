import Verge.Foundation.AssocMap

/-!
# Logs of blind writes

A log sets or erases keys one after the other without looking at the map.  What
a key reads as afterwards is the last write to it, or the old value if there is
none; so two maps that agree outside the keys of a log agree everywhere after
it.
-/

namespace Verge.Foundation

open List AssocMap Option

abbrev WriteLog (κ ν : Type) := List (κ × Option ν)

namespace WriteLog

variable {κ ν : Type} [DecidableEq κ]

def write (m : AssocMap κ ν) (w : κ × Option ν) : AssocMap κ ν :=
  match w.2 with
  | some v => m.insert w.1 v
  | none => m.erase w.1

def apply (m : AssocMap κ ν) (log : WriteLog κ ν) : AssocMap κ ν := log.foldl write m

def last : WriteLog κ ν → κ → Option (Option ν)
  | [], _ => none
  | w :: log, k => (last log k).or (if k = w.1 then some w.2 else none)

variable (m : AssocMap κ ν)

@[simp] theorem apply_nil : apply m [] = m := rfl

@[simp] theorem apply_cons (w : κ × Option ν) (log : WriteLog κ ν) :
    apply m (w :: log) = apply (write m w) log := rfl

section

variable (log log' : WriteLog κ ν) (k : κ)

theorem apply_append : apply m (log ++ log') = apply (apply m log) log' := foldl_append

theorem lookup_write (w : κ × Option ν) (k : κ) :
    (write m w).lookup k = if k = w.1 then w.2 else m.lookup k := by
  obtain ⟨k', v⟩ := w
  cases v with
  | none => simp [write, lookup_erase_ite]
  | some v => simp [write, lookup_insert_ite]

theorem lookup_apply : (apply m log).lookup k = (last log k).getD (m.lookup k) := by
  induction log generalizing m with
  | nil => rfl
  | cons w log ih =>
    rw [apply_cons, ih, last]
    cases last log k with
    | some r => rfl
    | none =>
      rw [lookup_write]
      by_cases h : k = w.1 <;> simp [h]

theorem last_append : last (log ++ log') k = (last log' k).or (last log k) := by
  induction log with
  | nil => simp [last]
  | cons w log ih => simp only [cons_append, last, ih, Option.or_assoc]

end

variable {log : WriteLog κ ν}

theorem last_eq_none {k : κ} : last log k = none ↔ k ∉ log.map Prod.fst := by
  induction log with
  | nil => simp [last]
  | cons w log ih =>
    rw [last, or_eq_none_iff, ih, map_cons, mem_cons, not_or, and_comm]
    by_cases h : k = w.1 <;> simp [h]

theorem mem_of_last {k : κ} {v : Option ν} (h : last log k = some v) : (k, v) ∈ log := by
  induction log with
  | nil => simp [last] at h
  | cons w log ih =>
    rw [last, or_eq_some_iff] at h
    rcases h with h | ⟨-, h⟩
    · exact mem_cons_of_mem _ (ih h)
    · split at h
      case isTrue hk =>
        cases h
        subst hk
        exact mem_cons_self
      case isFalse => cases h

theorem last_of_mem (hnodup : (log.map Prod.fst).Nodup) {k : κ} {v : Option ν} (h : (k, v) ∈ log) :
    last log k = some v := by
  induction log with
  | nil => simp at h
  | cons w log ih =>
    obtain ⟨hw, hlog⟩ := nodup_cons.mp hnodup
    rw [last]
    rcases mem_cons.mp h with rfl | h
    · rw [last_eq_none.mpr hw]
      simp
    · rw [ih hlog h]
      rfl

theorem last_reverse (hnodup : (log.map Prod.fst).Nodup) (k : κ) :
    last log.reverse k = last log k := by
  by_cases hk : k ∈ log.map Prod.fst
  · obtain ⟨⟨k', v⟩, hmem, rfl⟩ := mem_map.mp hk
    rw [last_of_mem hnodup hmem, last_of_mem _ (mem_reverse.mpr hmem)]
    rw [map_reverse]
    exact nodup_reverse.mpr hnodup
  · rw [last_eq_none.mpr hk, last_eq_none.mpr (by simpa using hk)]

end WriteLog

end Verge.Foundation
