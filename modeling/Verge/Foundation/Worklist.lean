import Mathlib.Data.List.Sort
import Mathlib.Data.List.Perm.Subperm
import Verge.Foundation.Loop

/-!
# Worklists

A worklist keeps a set of items still to be visited and the set of those visited.  A
pass takes the first item in the order of the set, visits it, and adds what the visit
found and has not been visited before.  Every item is visited at most once, so the
loop ends when all items come from a finite universe.
-/

namespace Verge.Foundation

open List

/-- `std::set::insert` on the sorted list of the set's elements. -/
def setInsert {α : Type} [DecidableEq α] (r : α → α → Prop) [DecidableRel r] (a : α)
    (set : List α) : List α :=
  if a ∈ set then set else set.orderedInsert r a

section SetInsert

variable {α : Type} [DecidableEq α] {r : α → α → Prop} [DecidableRel r] {a b : α} {set : List α}

@[simp] theorem mem_setInsert : b ∈ setInsert r a set ↔ b = a ∨ b ∈ set := by
  unfold setInsert
  split
  case isTrue h =>
    refine ⟨.inr, ?_⟩
    rintro (rfl | hb)
    · exact h
    · exact hb
  case isFalse => exact mem_orderedInsert r

theorem nodup_setInsert (h : set.Nodup) : (setInsert r a set).Nodup := by
  unfold setInsert
  split
  case isTrue => exact h
  case isFalse ha =>
    exact (perm_orderedInsert r a set).nodup_iff.mpr (nodup_cons.mpr ⟨ha, h⟩)

end SetInsert

structure Worklist (α σ : Type) where
  todo : List α
  visited : List α
  state : σ

namespace Worklist

variable {α σ ε : Type}

def start (a : α) (s : σ) : Worklist α σ := ⟨[a], [], s⟩

/-- What the bookkeeping keeps: the two sets are sets, apart from each other, and within
the universe. -/
structure Within (U : List α) (l : Worklist α σ) : Prop where
  nodup_todo : l.todo.Nodup
  nodup_visited : l.visited.Nodup
  apart : ∀ a ∈ l.todo, a ∉ l.visited
  todo_mem : ∀ a ∈ l.todo, a ∈ U
  visited_mem : ∀ a ∈ l.visited, a ∈ U

theorem Within.start {U : List α} {a : α} (ha : a ∈ U) (s : σ) : Within U (start a s) where
  nodup_todo := nodup_singleton a
  nodup_visited := nodup_nil
  apart := by simp [Worklist.start]
  todo_mem := by simpa [Worklist.start] using ha
  visited_mem := by simp [Worklist.start]

theorem Within.length_visited_le {U : List α} {l : Worklist α σ} (h : Within U l) :
    l.visited.length ≤ U.length :=
  (h.nodup_visited.subperm h.visited_mem).length_le

variable [DecidableEq α] (r : α → α → Prop) [DecidableRel r]

/-- The worklist after the visit of `now`, which left `s` and found `found`. -/
def after (l : Worklist α σ) (now : α) (s : σ) (found : List α) : Worklist α σ where
  todo := (found.filter fun a => a ∉ now :: l.visited).foldl (fun set a => setInsert r a set)
    l.todo.tail
  visited := now :: l.visited
  state := s

variable (visit : σ → α → Except ε (σ × List α))

def pass (l : Worklist α σ) : Pass (Worklist α σ) (Except ε σ) :=
  match l.todo with
  | [] => .done (.ok l.state)
  | now :: _ =>
    match visit l.state now with
    | .error e => .done (.error e)
    | .ok (s, found) => .next (l.after r now s found)

def run (fuel : Nat) (l : Worklist α σ) : Option (Except ε σ) :=
  whileLoop (pass r visit) fuel l

section Universe

variable {r visit} {U : List α}

private theorem mem_foldl_setInsert {found set : List α} {b : α} :
    b ∈ found.foldl (fun set a => setInsert r a set) set ↔ b ∈ found ∨ b ∈ set := by
  induction found generalizing set with
  | nil => simp
  | cons a found ih =>
    rw [foldl_cons, ih, mem_setInsert, mem_cons]
    tauto

private theorem nodup_foldl_setInsert {found set : List α} (h : set.Nodup) :
    (found.foldl (fun set a => setInsert r a set) set).Nodup := by
  induction found generalizing set with
  | nil => exact h
  | cons a found ih => exact ih (nodup_setInsert h)

theorem mem_todo_after {l : Worklist α σ} {now a : α} {s : σ} {found : List α} :
    a ∈ (l.after r now s found).todo ↔
      (a ∈ found ∧ a ∉ now :: l.visited) ∨ a ∈ l.todo.tail := by
  simp only [after, mem_foldl_setInsert, mem_filter, decide_eq_true_eq]

theorem Within.after {l : Worklist α σ} (h : Within U l) {now : α} {todo : List α}
    (hnow : l.todo = now :: todo) (s : σ) {found : List α} (hfound : ∀ a ∈ found, a ∈ U) :
    Within U (l.after r now s found) := by
  have hnodup : (now :: todo).Nodup := hnow ▸ h.nodup_todo
  have hmem : now ∈ l.todo := by simp [hnow]
  have htail : l.todo.tail = todo := by rw [hnow, tail_cons]
  have hrest : ∀ a ∈ todo, a ∈ l.todo := fun a ha => by simp [hnow, ha]
  refine
    { nodup_todo := nodup_foldl_setInsert (htail ▸ (nodup_cons.mp hnodup).2)
      nodup_visited := nodup_cons.mpr ⟨h.apart now hmem, h.nodup_visited⟩
      apart := ?_
      todo_mem := ?_
      visited_mem := ?_ }
  · intro a ha
    rw [mem_todo_after, htail] at ha
    rcases ha with ⟨-, ha⟩ | ha
    · exact ha
    · refine not_mem_cons_of_ne_of_not_mem ?_ (h.apart a (hrest a ha))
      rintro rfl
      exact (nodup_cons.mp hnodup).1 ha
  · intro a ha
    rw [mem_todo_after, htail] at ha
    rcases ha with ⟨ha, -⟩ | ha
    · exact hfound a ha
    · exact h.todo_mem a (hrest a ha)
  · exact forall_mem_cons.mpr ⟨h.todo_mem now hmem, h.visited_mem⟩

/-- A worklist whose visits succeed and keep an invariant ends with nothing left to do,
in a state with the invariant. -/
theorem exists_run {I : Worklist α σ → Prop}
    (hvisit : ∀ l now todo, I l → Within U l → l.todo = now :: todo →
      ∃ s found, visit l.state now = .ok (s, found) ∧ (∀ a ∈ found, a ∈ U) ∧
        I (l.after r now s found))
    {a : α} {s : σ} (ha : a ∈ U) (hI : I (start a s)) {fuel : Nat} (hfuel : U.length < fuel) :
    ∃ l, run r visit fuel (start a s) = some (.ok l.state) ∧ I l ∧ l.todo = [] := by
  -- each pass visits an item for the first time, so the unvisited ones run out
  have hkeep : ∀ l l', I l ∧ Within U l → pass r visit l = .next l' →
      (I l' ∧ Within U l') ∧ U.length - l'.visited.length < U.length - l.visited.length := by
    rintro l l' ⟨hIl, hl⟩ hpass
    unfold pass at hpass
    split at hpass
    case h_1 => cases hpass
    case h_2 now todo htodo =>
      obtain ⟨s', found, hok, hfound, hI'⟩ := hvisit l now todo hIl hl htodo
      rw [hok] at hpass
      cases hpass
      have hwithin := hl.after htodo s' hfound (r := r)
      have hle := hwithin.length_visited_le
      refine ⟨⟨hI', hwithin⟩, ?_⟩
      simp only [after, length_cons] at hle ⊢
      omega
  obtain ⟨res, l, hrun, ⟨hIl, hl⟩, hdone⟩ := exists_whileLoop
    (I := fun l => I l ∧ Within U l) (μ := fun l => U.length - l.visited.length) hkeep
    ⟨hI, Within.start ha s⟩
  have hrun' : run r visit fuel (start a s) = some res := whileLoop_mono hrun (by omega)
  unfold pass at hdone
  split at hdone
  case h_1 htodo =>
    cases hdone
    exact ⟨l, hrun', hIl, htodo⟩
  case h_2 now todo htodo =>
    obtain ⟨s', found, hok, -⟩ := hvisit l now todo hIl hl htodo
    rw [hok] at hdone
    cases hdone

end Universe

end Worklist

end Verge.Foundation
