import Mathlib.Algebra.Ring.Int.Defs
import Mathlib.Algebra.Ring.Nat
import Mathlib.Data.List.Basic

/-!
# Files of records

A file that holds nothing but records, one after the other.  `placed` gives every
record the position it starts at, and `overwrite` writes into the middle of a file.
A record of a concatenation is rewritten in place without moving the others.
-/

namespace Verge.Foundation

open List

variable {β ρ : Type}

def overwrite (file : List β) (pos : Nat) (bytes : List β) : List β :=
  file.take pos ++ bytes ++ file.drop (pos + bytes.length)

theorem overwrite_append_right (front file bytes : List β) (pos : Nat) :
    overwrite (front ++ file) (front.length + pos) bytes = front ++ overwrite file pos bytes := by
  simp only [overwrite, Nat.add_assoc, take_length_add_append, drop_length_add_append,
    append_assoc]

theorem overwrite_append_left {file bytes : List β} {pos : Nat} (back : List β)
    (h : pos + bytes.length ≤ file.length) :
    overwrite (file ++ back) pos bytes = overwrite file pos bytes ++ back := by
  have hpos : pos ≤ file.length := by omega
  rw [overwrite, overwrite, take_append_of_le_length hpos, drop_append_of_le_length h]
  simp only [append_assoc]

section Placed

variable (size : ρ → Nat)

def placed : Nat → List ρ → List (Nat × ρ)
  | _, [] => []
  | pos, record :: records => (pos, record) :: placed (pos + size record) records

theorem placed_append (pos : Nat) (records later : List ρ) :
    placed size pos (records ++ later) =
      placed size pos records ++ placed size (pos + (records.map size).sum) later := by
  induction records generalizing pos with
  | nil => rfl
  | cons record records ih =>
    simp only [cons_append, placed, ih, map_cons, sum_cons, Nat.add_assoc]

theorem map_snd_placed (pos : Nat) (records : List ρ) :
    (placed size pos records).map Prod.snd = records := by
  induction records generalizing pos with
  | nil => rfl
  | cons record records ih => rw [placed, map_cons, ih]

theorem placed_map {f : ρ → ρ} (hf : ∀ record, size (f record) = size record) (pos : Nat)
    (records : List ρ) :
    placed size pos (records.map f) = (placed size pos records).map fun p => (p.1, f p.2) := by
  induction records generalizing pos with
  | nil => rfl
  | cons record records ih => rw [map_cons, placed, placed, hf, ih, map_cons]

theorem mem_placed {size : ρ → Nat} {pos start : Nat} {record : ρ} {records : List ρ}
    (h : (start, record) ∈ placed size pos records) :
    ∃ before after, records = before ++ record :: after ∧
      start = pos + (before.map size).sum := by
  induction records generalizing pos with
  | nil => cases h
  | cons first records ih =>
    rw [placed, mem_cons] at h
    cases h with
    | inl h =>
      cases h
      exact ⟨[], records, rfl, rfl⟩
    | inr h =>
      obtain ⟨before, after, rfl, rfl⟩ := ih h
      exact ⟨first :: before, after, rfl, by
        simp only [map_cons, sum_cons, Nat.add_assoc]⟩

end Placed

end Verge.Foundation
