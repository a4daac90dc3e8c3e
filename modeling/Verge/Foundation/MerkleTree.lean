import Mathlib.Data.Set.Function
import Mathlib.Data.List.Basic

/-!
# Merkle trees with repeated leaves

A tree over a list of leaves in which the last node of a level of odd length is
paired with itself.  Because of that rule different lists can have the same root;
the list is fixed by the root once no level holds two equal nodes in a pair, the
hash has no collision on the pairs that are hashed, and the first leaf is not the
hash of such a pair.
-/

namespace Verge.Foundation

open List

variable {α : Type}

def levelPairs : List α → List (α × α)
  | [] => []
  | [a] => [(a, a)]
  | a :: b :: rest => (a, b) :: levelPairs rest

def pairUp (H : α × α → α) (hashes : List α) : List α := (levelPairs hashes).map H

def hasTwins [DecidableEq α] : List α → Bool
  | a :: b :: rest => a == b || hasTwins rest
  | _ => false

/-- Go up to a level of one node, and say whether twins were seen on the way. -/
def merkleLoop [DecidableEq α] (H : α × α → α) : Nat → List α → List α × Bool
  | 0, hashes => (hashes, false)
  | fuel + 1, hashes =>
    if hashes.length ≤ 1 then (hashes, false)
    else
      let (top, mutation) := merkleLoop H fuel (pairUp H hashes)
      (top, hasTwins hashes || mutation)

def computeMerkleRoot [DecidableEq α] (H : α × α → α) (null : α) (hashes : List α) : α × Bool :=
  let (top, mutated) := merkleLoop H hashes.length hashes
  (top.headD null, mutated)

/-- The list `top` is a level of the tree over `hashes`. -/
inductive Level (H : α × α → α) : List α → List α → Prop
  | refl (hashes : List α) : Level H hashes hashes
  | up {hashes top : List α} (many : 1 < hashes.length) (above : Level H (pairUp H hashes) top) :
      Level H hashes top

def HashedPair (H : α × α → α) (hashes : List α) (p : α × α) : Prop :=
  ∃ level, Level H hashes level ∧ 1 < level.length ∧ p ∈ levelPairs level

section Levels

variable {H : α × α → α}

theorem length_levelPairs (hashes : List α) :
    (levelPairs hashes).length = (hashes.length + 1) / 2 := by
  induction hashes using levelPairs.induct with
  | case1 => simp [levelPairs]
  | case2 a => simp [levelPairs]
  | case3 a b rest ih =>
    simp only [levelPairs, length_cons, ih]
    omega

theorem length_pairUp (hashes : List α) : (pairUp H hashes).length = (hashes.length + 1) / 2 := by
  rw [pairUp, length_map, length_levelPairs]

theorem Level.exists_below {hashes top : List α} (many : 1 < hashes.length)
    (h : Level H (pairUp H hashes) top) :
    ∃ level, Level H hashes level ∧ 1 < level.length ∧ top = pairUp H level := by
  generalize hbase : pairUp H hashes = base at h
  induction h generalizing hashes with
  | refl base => exact ⟨hashes, .refl _, many, hbase.symm⟩
  | @up base top many' _ ih =>
    obtain ⟨level, hlevel, hmany, htop⟩ := ih many' rfl
    subst hbase
    exact ⟨level, .up many hlevel, hmany, htop⟩

theorem HashedPair.of_pairUp {hashes : List α} {p : α × α} (many : 1 < hashes.length)
    (h : HashedPair H (pairUp H hashes) p) : HashedPair H hashes p := by
  obtain ⟨level, hlevel, hmany, hp⟩ := h
  exact ⟨level, .up many hlevel, hmany, hp⟩

theorem Level.ne_nil {hashes level : List α} (h : Level H hashes level) (hne : hashes ≠ []) :
    level ≠ [] := by
  induction h with
  | refl => exact hne
  | @up hashes top many _ ih =>
    refine ih (ne_nil_of_length_pos ?_)
    rw [length_pairUp]
    omega

theorem map_inj_on {S : Set (α × α)} (hinj : Set.InjOn H S) {ps qs : List (α × α)}
    (hp : ∀ p ∈ ps, p ∈ S) (hq : ∀ q ∈ qs, q ∈ S) (h : ps.map H = qs.map H) : ps = qs := by
  induction ps generalizing qs with
  | nil => simpa using h.symm
  | cons p ps ih =>
    cases qs with
    | nil => cases h
    | cons q qs =>
      simp only [map_cons, List.cons.injEq] at h
      rw [forall_mem_cons] at hp hq
      rw [hinj hp.1 hq.1 h.1, ih hp.2 hq.2 h.2]

end Levels

section Root

variable [DecidableEq α] {H : α × α → α} {fuel : Nat} {hashes l m : List α} {S : Set (α × α)}

theorem merkleLoop_of_le (h : hashes.length ≤ 1) : merkleLoop H fuel hashes = (hashes, false) := by
  cases fuel with
  | zero => rfl
  | succ fuel => rw [merkleLoop, if_pos h]

theorem merkleLoop_succ (h : 1 < hashes.length) :
    merkleLoop H (fuel + 1) hashes = ((merkleLoop H fuel (pairUp H hashes)).1,
      hasTwins hashes || (merkleLoop H fuel (pairUp H hashes)).2) := by
  rw [merkleLoop, if_neg (by omega)]

theorem level_merkleLoop (h : hashes.length ≤ fuel) :
    Level H hashes (merkleLoop H fuel hashes).1 ∧ (merkleLoop H fuel hashes).1.length ≤ 1 := by
  induction fuel generalizing hashes with
  | zero => exact ⟨.refl _, by simp only [merkleLoop]; omega⟩
  | succ fuel ih =>
    by_cases hone : hashes.length ≤ 1
    · rw [merkleLoop_of_le hone]
      exact ⟨.refl _, hone⟩
    · rw [merkleLoop_succ (by omega)]
      have hlength := length_pairUp (H := H) hashes
      have hfuel : (pairUp H hashes).length ≤ fuel := by omega
      exact ⟨.up (by omega) (ih hfuel).1, (ih hfuel).2⟩

theorem merkleLoop_mutated_iff (hfuel : hashes.length ≤ fuel) :
    (merkleLoop H fuel hashes).2 = true ↔
      ∃ level, Level H hashes level ∧ 1 < level.length ∧ hasTwins level = true := by
  induction fuel generalizing hashes with
  | zero =>
    refine ⟨fun h => (by cases h), fun ⟨level, hlevel, hmany, _⟩ => ?_⟩
    cases hlevel <;> omega
  | succ fuel ih =>
    rw [merkleLoop]
    split
    case isTrue hone =>
      refine ⟨fun h => (by cases h), fun ⟨level, hlevel, hmany, _⟩ => ?_⟩
      cases hlevel <;> omega
    case isFalse hmany =>
      have hlength := length_pairUp (H := H) hashes
      rw [Bool.or_eq_true, ih (by omega)]
      constructor
      · rintro (htwins | ⟨level, hlevel, h⟩)
        · exact ⟨hashes, .refl _, by omega, htwins⟩
        · exact ⟨level, .up (by omega) hlevel, h⟩
      · rintro ⟨level, hlevel, h⟩
        cases hlevel with
        | refl => exact .inl h.2
        | up _ above => exact .inr ⟨level, above, h⟩

def TwinFree (H : α × α → α) (hashes : List α) : Prop :=
  ∀ level, Level H hashes level → 1 < level.length → hasTwins level = false

theorem twinFree_of_merkleLoop (hfuel : hashes.length ≤ fuel)
    (h : (merkleLoop H fuel hashes).2 = false) : TwinFree H hashes := by
  intro level hlevel many
  rw [Bool.eq_false_iff] at h ⊢
  exact fun htwins => h ((merkleLoop_mutated_iff hfuel).mpr ⟨level, hlevel, many, htwins⟩)

theorem hasTwins_iff : hasTwins hashes = true ↔
    ∃ pos, 2 * pos + 1 < hashes.length ∧ hashes[2 * pos]? = hashes[2 * pos + 1]? := by
  induction hashes using levelPairs.induct with
  | case1 => simp [hasTwins]
  | case2 a => simp [hasTwins]
  | case3 a b rest ih =>
    rw [hasTwins, Bool.or_eq_true, beq_iff_eq, ih]
    simp only [length_cons]
    constructor
    · rintro (rfl | ⟨pos, hpos, h⟩)
      · exact ⟨0, by omega, rfl⟩
      · exact ⟨pos + 1, by omega, h⟩
    · rintro ⟨_ | pos, hpos, h⟩
      · exact .inl (Option.some.inj h)
      · exact .inr ⟨pos, by omega, h⟩

theorem levelPairs_inj (hl : hasTwins l = false) (hm : hasTwins m = false)
    (h : levelPairs l = levelPairs m) : l = m := by
  induction l using levelPairs.induct generalizing m with
  | case1 =>
    cases m using levelPairs.fun_cases with
    | case1 => rfl
    | case2 b => cases h
    | case3 b c rest => cases h
  | case2 a =>
    cases m using levelPairs.fun_cases with
    | case1 => cases h
    | case2 b =>
      cases h
      rfl
    | case3 b c rest =>
      simp only [levelPairs, List.cons.injEq, Prod.mk.injEq] at h
      simp [hasTwins, ← h.1.1, ← h.1.2] at hm
  | case3 a b rest ih =>
    cases m using levelPairs.fun_cases with
    | case1 => cases h
    | case2 c =>
      simp only [levelPairs, List.cons.injEq, Prod.mk.injEq] at h
      simp [hasTwins, h.1.1, h.1.2] at hl
    | case3 c d rest' =>
      simp only [levelPairs, List.cons.injEq, Prod.mk.injEq] at h
      simp only [hasTwins, Bool.or_eq_false_iff] at hl hm
      rw [h.1.1, h.1.2, ih hl.2 hm.2 h.2]

omit [DecidableEq α] in
theorem Level.eq_or_head_hashed {level : List α} (h : Level H hashes level) {a : α}
    (ha : level.head? = some a) :
    level = hashes ∨ ∃ p, HashedPair H hashes p ∧ H p = a := by
  cases h with
  | refl => exact .inl rfl
  | up many above =>
    obtain ⟨below, hbelow, hmany, rfl⟩ := above.exists_below many
    rw [pairUp, List.head?_map, Option.map_eq_some_iff] at ha
    obtain ⟨p, hp, rfl⟩ := ha
    exact .inr ⟨p, ⟨below, hbelow, hmany, mem_of_mem_head? hp⟩, rfl⟩

omit [DecidableEq α] in
private theorem eq_of_headD_eq {null : α} (hl : l ≠ []) (hm : m ≠ []) (hlone : l.length ≤ 1)
    (hmone : m.length ≤ 1) (h : l.headD null = m.headD null) : l = m := by
  match l, m, hl, hm with
  | [a], [b], _, _ => exact congrArg (fun c => [c]) h

theorem pairUp_inj (hinj : Set.InjOn H S) (hl : ∀ p ∈ levelPairs l, p ∈ S)
    (hm : ∀ p ∈ levelPairs m, p ∈ S) (hltwins : hasTwins l = false) (hmtwins : hasTwins m = false)
    (h : pairUp H l = pairUp H m) : l = m :=
  levelPairs_inj hltwins hmtwins (map_inj_on hinj hl hm h)

variable (hinj : Set.InjOn H S) (hl : ∀ p, HashedPair H l p → p ∈ S)
  (hm : ∀ p, HashedPair H m p → p ∈ S)

include hinj hl hm

theorem level_of_pairUp (hlmany : 1 < l.length) (hmmany : 1 < m.length) (hltwins : TwinFree H l)
    (hmtwins : TwinFree H m) (h : Level H (pairUp H m) (pairUp H l)) : Level H m l := by
  obtain ⟨level, hlevel, hmany, heq⟩ := h.exists_below hmmany
  have hleaves : l = level :=
    pairUp_inj hinj (fun p hp => hl p ⟨l, .refl l, hlmany, hp⟩)
      (fun p hp => hm p ⟨level, hlevel, hmany, hp⟩) (hltwins l (.refl l) hlmany)
      (hmtwins level hlevel hmany) heq
  exact hleaves ▸ hlevel

theorem level_of_merkleLoop_eq {fuel' : Nat} (hlfuel : l.length ≤ fuel) (hmfuel : m.length ≤ fuel')
    (hlmut : (merkleLoop H fuel l).2 = false) (hmmut : (merkleLoop H fuel' m).2 = false)
    (h : (merkleLoop H fuel l).1 = (merkleLoop H fuel' m).1) : Level H m l ∨ Level H l m := by
  induction fuel generalizing l m fuel' with
  | zero =>
    change l = _ at h
    exact .inl (h ▸ (level_merkleLoop hmfuel).1)
  | succ fuel ih =>
    by_cases hlone : l.length ≤ 1
    · rw [merkleLoop_of_le hlone] at h
      change l = _ at h
      exact .inl (h ▸ (level_merkleLoop hmfuel).1)
    by_cases hmone : m.length ≤ 1
    · rw [merkleLoop_of_le hmone] at h
      change _ = m at h
      exact .inr (h ▸ (level_merkleLoop hlfuel).1)
    obtain ⟨fuel', rfl⟩ : ∃ n, fuel' = n + 1 := ⟨fuel' - 1, by omega⟩
    -- both trees have a next level, and one of these is a level above the other
    have hlmany : 1 < l.length := by omega
    have hmmany : 1 < m.length := by omega
    have hltwins : TwinFree H l := twinFree_of_merkleLoop hlfuel hlmut
    have hmtwins : TwinFree H m := twinFree_of_merkleLoop hmfuel hmmut
    have hllength := length_pairUp (H := H) l
    have hmlength := length_pairUp (H := H) m
    rw [merkleLoop_succ hlmany, Bool.or_eq_false_iff] at hlmut
    rw [merkleLoop_succ hmmany, Bool.or_eq_false_iff] at hmmut
    rw [merkleLoop_succ hlmany, merkleLoop_succ hmmany] at h
    have hlfuel' : (pairUp H l).length ≤ fuel := by omega
    have hmfuel' : (pairUp H m).length ≤ fuel' := by omega
    have habove := ih (fun p hp => hl p (hp.of_pairUp hlmany))
      (fun p hp => hm p (hp.of_pairUp hmmany)) hlfuel' hmfuel' hlmut.2 hmmut.2 h
    exact habove.imp (level_of_pairUp hinj hl hm hlmany hmmany hltwins hmtwins)
      (level_of_pairUp hinj hm hl hmmany hlmany hmtwins hltwins)

theorem eq_of_computeMerkleRoot_eq {null root a b : α}
    (hlroot : computeMerkleRoot H null l = (root, false))
    (hmroot : computeMerkleRoot H null m = (root, false)) (ha : l.head? = some a)
    (hb : m.head? = some b) (hleaf : ∀ p, HashedPair H m p → H p ≠ a)
    (hleaf' : ∀ p, HashedPair H l p → H p ≠ b) : l = m := by
  obtain ⟨hltop, hlone⟩ := level_merkleLoop (H := H) (le_refl l.length)
  obtain ⟨hmtop, hmone⟩ := level_merkleLoop (H := H) (le_refl m.length)
  simp only [computeMerkleRoot, Prod.mk.injEq] at hlroot hmroot
  have htop : (merkleLoop H l.length l).1 = (merkleLoop H m.length m).1 :=
    eq_of_headD_eq (hltop.ne_nil (by rintro rfl; cases ha)) (hmtop.ne_nil (by rintro rfl; cases hb))
      hlone hmone (hlroot.1.trans hmroot.1.symm)
  rcases level_of_merkleLoop_eq hinj hl hm le_rfl le_rfl hlroot.2 hmroot.2 htop with h | h
  · rcases h.eq_or_head_hashed ha with rfl | ⟨p, hp, heq⟩
    · rfl
    · exact absurd heq (hleaf p hp)
  · rcases h.eq_or_head_hashed hb with rfl | ⟨p, hp, heq⟩
    · rfl
    · exact absurd heq (hleaf' p hp)

end Root

end Verge.Foundation
