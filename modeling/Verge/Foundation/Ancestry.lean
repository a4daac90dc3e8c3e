import Mathlib.Data.Option.Basic
import Mathlib.Data.List.Basic
import Mathlib.Order.Lattice

/-!
# Trees given by parent pointers

A tree whose nodes know their parent and their height.  The ancestors of a node
form a chain with one node at every height up to its own, and any two nodes have
a last common ancestor.
-/

namespace Verge.Foundation

open List Option

structure Ancestry (ι : Type) where
  root : ι
  parent : ι → Option ι
  height : ι → Nat
  parent_eq_none : ∀ {i}, parent i = none → i = root
  height_root : height root = 0
  height_parent : ∀ {i j}, parent i = some j → height i = height j + 1

namespace Ancestry

variable {ι : Type} (t : Ancestry ι)

def up : Nat → ι → Option ι
  | 0, i => some i
  | n + 1, i => (t.parent i).bind (up n)

def ancestor (i : ι) (h : Nat) : Option ι :=
  if h ≤ t.height i then t.up (t.height i - h) i else none

def IsAncestor (a i : ι) : Prop := ∃ n, t.up n i = some a

variable {t}

theorem parent_root : t.parent t.root = none := by
  cases h : t.parent t.root with
  | none => rfl
  | some j =>
    have hheight := t.height_parent h
    rw [t.height_root] at hheight
    omega

variable {i a b : ι} {path : List ι}

theorem eq_root_of_height (h : t.height i = 0) : i = t.root := by
  cases hparent : t.parent i with
  | none => exact t.parent_eq_none hparent
  | some j =>
    have hheight := t.height_parent hparent
    omega

theorem exists_parent (h : 0 < t.height i) : ∃ j, t.parent i = some j := by
  cases hparent : t.parent i with
  | some j => exact ⟨j, rfl⟩
  | none =>
    rw [t.parent_eq_none hparent, t.height_root] at h
    omega

theorem up_add (m n : Nat) (i : ι) : t.up (m + n) i = (t.up m i).bind (t.up n) := by
  induction m generalizing i with
  | zero => simp [up]
  | succ m ih =>
    rw [Nat.succ_add, up, up, bind_assoc]
    exact bind_congr fun j _ => ih j

theorem height_up {n : Nat} (h : t.up n i = some a) :
    t.height i = t.height a + n := by
  induction n generalizing i with
  | zero =>
    cases h
    rfl
  | succ n ih =>
    obtain ⟨j, hj, hup⟩ := bind_eq_some_iff.mp h
    rw [t.height_parent hj, ih hup]
    omega

theorem exists_up {n : Nat} (h : n ≤ t.height i) : ∃ a, t.up n i = some a := by
  induction n generalizing i with
  | zero => exact ⟨i, rfl⟩
  | succ n ih =>
    obtain ⟨j, hj⟩ := exists_parent (Nat.zero_lt_of_lt h)
    have hheight := t.height_parent hj
    obtain ⟨a, ha⟩ := @ih j (by omega)
    exact ⟨a, by rw [up, hj]; exact ha⟩

namespace IsAncestor

theorem refl (i : ι) : t.IsAncestor i i := ⟨0, rfl⟩

variable {i a : ι}

theorem of_parent {j : ι} (h : t.parent i = some j) : t.IsAncestor j i :=
  ⟨1, by simp [up, h]⟩

theorem trans {b : ι} (hab : t.IsAncestor a b) (hbi : t.IsAncestor b i) :
    t.IsAncestor a i := by
  obtain ⟨m, hm⟩ := hab
  obtain ⟨n, hn⟩ := hbi
  refine ⟨n + m, ?_⟩
  rw [up_add, hn]
  exact hm

theorem height_le (h : t.IsAncestor a i) : t.height a ≤ t.height i := by
  obtain ⟨n, hn⟩ := h
  have hheight := height_up hn
  omega

theorem up_eq (h : t.IsAncestor a i) :
    t.up (t.height i - t.height a) i = some a := by
  obtain ⟨n, hn⟩ := h
  have hheight := height_up hn
  rwa [show t.height i - t.height a = n by omega]

theorem of_height_le {b : ι} (ha : t.IsAncestor a i) (hb : t.IsAncestor b i)
    (h : t.height a ≤ t.height b) : t.IsAncestor a b := by
  have hbound := hb.height_le
  refine ⟨t.height b - t.height a, ?_⟩
  have hsplit := up_add (t := t) (t.height i - t.height b) (t.height b - t.height a) i
  rw [hb.up_eq, show t.height i - t.height b + (t.height b - t.height a) =
    t.height i - t.height a by omega, ha.up_eq] at hsplit
  exact hsplit.symm

theorem eq_of_height {b : ι} (ha : t.IsAncestor a i) (hb : t.IsAncestor b i)
    (h : t.height a = t.height b) : a = b := by
  have hup := ha.up_eq
  rw [h, hb.up_eq] at hup
  exact (Option.some.inj hup).symm

theorem antisymm {b : ι} (hab : t.IsAncestor a b) (hba : t.IsAncestor b a) : a = b :=
  hab.eq_of_height (refl b) (Nat.le_antisymm hab.height_le hba.height_le)

end IsAncestor

theorem isAncestor_root (i : ι) : t.IsAncestor t.root i := by
  obtain ⟨a, ha⟩ := exists_up (t := t) (Nat.le_refl (t.height i))
  have hheight := height_up ha
  have hroot : a = t.root := eq_root_of_height (by omega)
  exact ⟨t.height i, hroot ▸ ha⟩

theorem isAncestor_iff :
    t.IsAncestor a i ↔ a = i ∨ ∃ j, t.parent i = some j ∧ t.IsAncestor a j := by
  constructor
  · rintro ⟨n, hn⟩
    cases n with
    | zero => exact .inl (Option.some.inj hn).symm
    | succ n =>
      obtain ⟨j, hj, hup⟩ := bind_eq_some_iff.mp hn
      exact .inr ⟨j, hj, n, hup⟩
  · rintro (rfl | ⟨j, hj, ha⟩)
    · exact .refl a
    · exact ha.trans (.of_parent hj)

theorem ancestor_eq_some {h : Nat} :
    t.ancestor i h = some a ↔ t.IsAncestor a i ∧ t.height a = h := by
  unfold ancestor
  constructor
  · intro heq
    split at heq
    case isFalse => cases heq
    case isTrue hle =>
      have hheight := height_up heq
      exact ⟨⟨_, heq⟩, by omega⟩
  · rintro ⟨ha, rfl⟩
    rw [if_pos ha.height_le, ha.up_eq]

theorem exists_ancestor {h : Nat} (hle : h ≤ t.height i) :
    ∃ a, t.IsAncestor a i ∧ t.height a = h := by
  obtain ⟨a, ha⟩ := exists_up (t := t) (Nat.sub_le (t.height i) h)
  have hheight := height_up ha
  exact ⟨a, ⟨_, ha⟩, by omega⟩

theorem IsAncestor.ancestor_eq (ha : t.IsAncestor a i) {h : Nat} (hle : h ≤ t.height a) :
    t.ancestor a h = t.ancestor i h := by
  obtain ⟨b, hb, hheight⟩ := exists_ancestor hle
  rw [ancestor_eq_some.mpr ⟨hb, hheight⟩, ancestor_eq_some.mpr ⟨hb.trans ha, hheight⟩]

instance [DecidableEq ι] (a i : ι) : Decidable (t.IsAncestor a i) :=
  decidable_of_iff (t.ancestor i (t.height a) = some a)
    (ancestor_eq_some.trans (and_iff_left rfl))

def accumulateUpTo {α : Type} (t : Ancestry ι) (f : Option α → ι → α) : Nat → ι → α
  | 0, i => f none i
  | n + 1, i => f ((t.parent i).map (accumulateUpTo t f n)) i

def accumulate {α : Type} (t : Ancestry ι) (f : Option α → ι → α) (i : ι) : α :=
  t.accumulateUpTo f (t.height i) i

theorem accumulate_root {α : Type} (f : Option α → ι → α) :
    t.accumulate f t.root = f none t.root := by
  rw [accumulate, t.height_root]
  rfl

theorem accumulate_parent {α : Type} (f : Option α → ι → α) {j : ι} (h : t.parent i = some j) :
    t.accumulate f i = f (some (t.accumulate f j)) i := by
  rw [accumulate, t.height_parent h, accumulateUpTo, h]
  rfl

structure IsLastCommon (t : Ancestry ι) (f a b : ι) : Prop where
  left : t.IsAncestor f a
  right : t.IsAncestor f b
  last : ∀ {c}, t.IsAncestor c a → t.IsAncestor c b → t.IsAncestor c f

theorem IsLastCommon.ancestor_eq_iff {f : ι} {h : Nat} (hf : t.IsLastCommon f a b)
    (hle : h ≤ t.height a) : t.ancestor b h = t.ancestor a h ↔ h ≤ t.height f := by
  constructor
  · intro heq
    obtain ⟨c, hc, hheight⟩ := exists_ancestor (t := t) hle
    rw [ancestor_eq_some.mpr ⟨hc, hheight⟩] at heq
    have hcb := (ancestor_eq_some.mp heq).1
    exact hheight ▸ (hf.last hc hcb).height_le
  · intro hlow
    obtain ⟨c, hc, hheight⟩ := exists_ancestor (t := t) hlow
    rw [ancestor_eq_some.mpr ⟨hc.trans hf.left, hheight⟩,
      ancestor_eq_some.mpr ⟨hc.trans hf.right, hheight⟩]

section LastCommon

variable [DecidableEq ι]

def meet (t : Ancestry ι) : Nat → ι → ι → Option ι
  | 0, a, b => if a = b then some a else none
  | n + 1, a, b =>
    if a = b then some a
    else match t.parent a, t.parent b with
      | some a', some b' => meet t n a' b'
      | _, _ => none

def lastCommonAncestor (t : Ancestry ι) (a b : ι) : Option ι :=
  match t.ancestor a (min (t.height a) (t.height b)),
      t.ancestor b (min (t.height a) (t.height b)) with
  | some a', some b' => t.meet (t.height a') a' b'
  | _, _ => none

theorem exists_meet {n : Nat} {a b : ι} (ha : t.height a = n) (hb : t.height b = n) :
    ∃ f, t.meet n a b = some f ∧ t.IsLastCommon f a b := by
  induction n generalizing a b with
  | zero =>
    obtain rfl : a = b := (eq_root_of_height ha).trans (eq_root_of_height hb).symm
    exact ⟨a, by simp [meet], .refl a, .refl a, fun h _ => h⟩
  | succ n ih =>
    by_cases hab : a = b
    · subst hab
      exact ⟨a, by simp [meet], .refl a, .refl a, fun h _ => h⟩
    · obtain ⟨a', ha'⟩ := exists_parent (t := t) (i := a) (by omega)
      obtain ⟨b', hb'⟩ := exists_parent (t := t) (i := b) (by omega)
      have hheightA := t.height_parent ha'
      have hheightB := t.height_parent hb'
      obtain ⟨f, hmeet, hf⟩ := @ih a' b' (by omega) (by omega)
      refine ⟨f, by simp [meet, hab, ha', hb', hmeet], hf.left.trans (.of_parent ha'),
        hf.right.trans (.of_parent hb'), fun {c} hca hcb => ?_⟩
      -- neither node is an ancestor of the other, so `c` is below both parents
      rcases isAncestor_iff.mp hca with rfl | ⟨j, hj, hca'⟩
      · exact absurd (hcb.eq_of_height (.refl b) (by omega)) hab
      · rcases isAncestor_iff.mp hcb with rfl | ⟨k, hk, hcb'⟩
        · exact absurd (hca.eq_of_height (.refl a) (by omega)).symm hab
        · cases ha'.symm.trans hj
          cases hb'.symm.trans hk
          exact hf.last hca' hcb'

theorem exists_lastCommonAncestor (a b : ι) :
    ∃ f, t.lastCommonAncestor a b = some f ∧ t.IsLastCommon f a b := by
  obtain ⟨a', ha', hheightA⟩ := exists_ancestor (t := t) (Nat.min_le_left (t.height a) (t.height b))
  obtain ⟨b', hb', hheightB⟩ := exists_ancestor (t := t) (Nat.min_le_right (t.height a) (t.height b))
  obtain ⟨f, hmeet, hf⟩ := exists_meet (t := t) rfl (hheightB.trans hheightA.symm)
  refine ⟨f, ?_, hf.left.trans ha', hf.right.trans hb', fun {c} hca hcb => ?_⟩
  · rw [lastCommonAncestor, ancestor_eq_some.mpr ⟨ha', hheightA⟩,
      ancestor_eq_some.mpr ⟨hb', hheightB⟩]
    exact hmeet
  · have hleft := hca.height_le
    have hright := hcb.height_le
    exact hf.last (hca.of_height_le ha' (by omega)) (hcb.of_height_le hb' (by omega))

end LastCommon

def IsPath (t : Ancestry ι) : ι → List ι → ι → Prop
  | a, [], b => a = b
  | a, i :: path, b => t.parent i = some a ∧ IsPath t i path b

theorem isPath_append_singleton :
    t.IsPath a (path ++ [i]) b ↔ i = b ∧ ∃ j, t.parent i = some j ∧ t.IsPath a path j := by
  induction path generalizing a with
  | nil =>
    constructor
    · rintro ⟨hparent, rfl⟩
      exact ⟨rfl, a, hparent, rfl⟩
    · rintro ⟨rfl, j, hparent, rfl⟩
      exact ⟨hparent, rfl⟩
  | cons k path ih =>
    simp only [cons_append, IsPath, ih]
    constructor
    · rintro ⟨hk, rfl, j, hj, hpath⟩
      exact ⟨rfl, j, hj, hk, hpath⟩
    · rintro ⟨rfl, j, hj, hk, hpath⟩
      exact ⟨hk, rfl, j, hj, hpath⟩

theorem IsAncestor.exists_path (h : t.IsAncestor a b) :
    ∃ path, t.IsPath a path b := by
  obtain ⟨n, hn⟩ := h
  induction n generalizing b with
  | zero => exact ⟨[], (Option.some.inj hn).symm⟩
  | succ n ih =>
    obtain ⟨j, hj, hup⟩ := bind_eq_some_iff.mp hn
    obtain ⟨path, hpath⟩ := ih hup
    exact ⟨path ++ [b], isPath_append_singleton.mpr ⟨rfl, j, hj, hpath⟩⟩

variable (h : t.IsPath a path b)

include h

theorem IsPath.isAncestor : t.IsAncestor a b := by
  induction path generalizing a with
  | nil => exact h ▸ .refl a
  | cons i path ih => exact (IsAncestor.of_parent h.1).trans (ih h.2)

theorem IsPath.isAncestor_of_mem (hi : i ∈ path) : t.IsAncestor i b := by
  induction path generalizing a with
  | nil => simp at hi
  | cons j path ih =>
    rcases mem_cons.mp hi with rfl | hi
    · exact IsPath.isAncestor h.2
    · exact ih h.2 hi

theorem IsPath.length_eq : t.height b = t.height a + path.length := by
  induction path generalizing a with
  | nil => exact h ▸ rfl
  | cons i path ih =>
    rw [ih h.2, t.height_parent h.1, length_cons]
    omega

theorem IsPath.map_ancestor :
    (List.range' (t.height a + 1) path.length).map (t.ancestor b) = path.map some := by
  induction path generalizing a with
  | nil => rfl
  | cons i path ih =>
    have hheight := t.height_parent h.1
    have hnode : t.ancestor b (t.height a + 1) = some i :=
      ancestor_eq_some.mpr ⟨IsPath.isAncestor h.2, hheight⟩
    rw [length_cons, List.range'_succ, map_cons, map_cons, hnode, ← hheight,
      ih h.2]

end Ancestry

end Verge.Foundation
