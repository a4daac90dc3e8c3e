import Verge.Foundation.AssocMap

/-!
# Dropping the first entries of a sorted map

A map that is too large is sorted and its first entries are dropped.  If the entries to
drop are those below some bound then every sort drops the same ones, and the result
depends on what the map reads as only.
-/

namespace Verge.Foundation

open List

theorem take_countP_eq_filter {α : Type} {p : α → Bool} {l : List α}
    (h : l.Pairwise fun a b => p b = true → p a = true) :
    l.take (l.countP p) = l.filter p := by
  induction l with
  | nil => rfl
  | cons a l ih =>
    obtain ⟨ha, hl⟩ := pairwise_cons.mp h
    by_cases hp : p a = true
    · simp [hp, ih hl]
    · have hnone : ∀ b ∈ l, p b ≠ true := fun b hb hpb => hp (ha b hb hpb)
      simp [hp, countP_eq_zero.mpr hnone, filter_eq_nil_iff.mpr hnone]

namespace AssocMap

variable {κ ν : Type} [DecidableEq κ]

theorem entries_perm {m m' : AssocMap κ ν} (h : ∀ k, m.lookup k = m'.lookup k) :
    m.entries.Perm m'.entries := by
  apply lookup_ext m.nodupKeys m'.nodupKeys
  intro k v
  exact iff_of_eq (congrArg (v ∈ ·) (h k))

def eraseAll (m : AssocMap κ ν) (keys : List κ) : AssocMap κ ν :=
  keys.foldl (fun m k => m.erase k) m

theorem lookup_eraseAll (m : AssocMap κ ν) (keys : List κ) (k : κ) :
    (m.eraseAll keys).lookup k = if k ∈ keys then none else m.lookup k := by
  induction keys generalizing m with
  | nil => rfl
  | cons k' keys ih =>
    rw [eraseAll, foldl_cons]
    refine (ih (m.erase k')).trans ?_
    rw [lookup_erase_ite]
    by_cases hk : k = k' <;> simp [hk]

theorem length_erase {m : AssocMap κ ν} {k : κ} (h : k ∈ m.entries.keys) :
    (m.erase k).entries.length + 1 = m.entries.length := by
  obtain ⟨v, l₁, l₂, -, heq, hkerase⟩ := exists_of_kerase h
  show (m.entries.kerase k).length + 1 = _
  rw [hkerase, heq]
  simp
  omega

theorem length_eraseAll {m : AssocMap κ ν} {keys : List κ} (hnodup : keys.Nodup)
    (hkeys : ∀ k ∈ keys, k ∈ m.entries.keys) :
    (m.eraseAll keys).entries.length + keys.length = m.entries.length := by
  induction keys generalizing m with
  | nil => rfl
  | cons k keys ih =>
    obtain ⟨hk, hnodup⟩ := nodup_cons.mp hnodup
    have hrest : ∀ k' ∈ keys, k' ∈ (m.erase k).entries.keys := by
      intro k' hk'
      have hne : k' ≠ k := fun heq => hk (heq ▸ hk')
      exact AList.mem_erase.mpr ⟨hne, hkeys k' (mem_cons_of_mem _ hk')⟩
    have hlength := ih hnodup hrest
    have hone := length_erase (hkeys k mem_cons_self)
    show (eraseAll (m.erase k) keys).entries.length + (keys.length + 1) = _
    omega

section Sorted

variable {m : AssocMap κ ν} {sorted : List (Sigma fun _ : κ => ν)}
  {p : Sigma (fun _ : κ => ν) → Bool} (hperm : sorted.Perm m.entries)

include hperm

theorem mem_take_sorted (hsorted : sorted.Pairwise fun a b => p b = true → p a = true)
    {e : Sigma fun _ : κ => ν} :
    e ∈ sorted.take (m.entries.countP p) ↔ m.lookup e.1 = some e.2 ∧ p e = true := by
  rw [← hperm.countP_eq p, take_countP_eq_filter hsorted, mem_filter, hperm.mem_iff,
    lookup_eq_some_iff]

theorem lookup_evict (hsorted : sorted.Pairwise fun a b => p b = true → p a = true) (k : κ) :
    (m.eraseAll ((sorted.take (m.entries.countP p)).map Sigma.fst)).lookup k =
      (m.lookup k).filter fun v => !p ⟨k, v⟩ := by
  have hmem : k ∈ (sorted.take (m.entries.countP p)).map Sigma.fst ↔
      ∃ v, m.lookup k = some v ∧ p ⟨k, v⟩ = true := by
    rw [mem_map]
    constructor
    · rintro ⟨e, he, rfl⟩
      exact ⟨e.2, (mem_take_sorted hperm hsorted).mp he⟩
    · rintro ⟨v, hv⟩
      exact ⟨⟨k, v⟩, (mem_take_sorted hperm hsorted).mpr hv, rfl⟩
  rw [lookup_eraseAll]
  cases hlookup : m.lookup k with
  | none => simp
  | some v =>
    rw [hlookup] at hmem
    simp only [Option.some.injEq, exists_eq_left'] at hmem
    by_cases hp : p ⟨k, v⟩ = true
    · rw [if_pos (hmem.mpr hp), Option.filter_some, if_neg (by simp [hp])]
    · rw [if_neg (fun h => hp (hmem.mp h)), Option.filter_some, if_pos (by simp [hp])]

theorem length_evict {n : Nat} (hn : n ≤ m.entries.length) :
    (m.eraseAll ((sorted.take n).map Sigma.fst)).entries.length + n = m.entries.length := by
  have hkeys : (sorted.map Sigma.fst).Perm m.entries.keys := hperm.map _
  have hnodup : (sorted.map Sigma.fst).Nodup := hkeys.nodup_iff.mpr m.nodupKeys
  have hsub := (take_sublist n sorted).map Sigma.fst
  have hlength := length_eraseAll (m := m) (hnodup.sublist hsub)
    (fun k hk => hkeys.mem_iff.mp (hsub.subset hk))
  rw [length_map, length_take, hperm.length_eq, min_eq_left hn] at hlength
  exact hlength

end Sorted

end AssocMap

end Verge.Foundation
