import Mathlib.Data.Nat.Bitwise
import Verge.Coins.Coin
import Verge.Foundation.Ancestry

/-!
# Skip pointers of the block index

`GetAncestor` and `BuildSkip` of `chain.cpp`, on whatever holds the pointers: the
live index and the index that is read back from disk use the same code.
-/

namespace Verge

open Foundation Ancestry

def invertLowestOne (n : Nat) : Nat := n &&& (n - 1)

def getSkipHeight (height : Nat) : Nat :=
  if height < 2 then 0
  else if height % 2 = 1 then invertLowestOne (invertLowestOne (height - 1)) + 1
  else invertLowestOne height

theorem invertLowestOne_le (n : Nat) : invertLowestOne n ≤ n - 1 := Nat.and_le_right

theorem getSkipHeight_lt {height : Nat} (h : 0 < height) : getSkipHeight height < height := by
  unfold getSkipHeight
  have hinner := invertLowestOne_le (height - 1)
  have houter := invertLowestOne_le (invertLowestOne (height - 1))
  have heven := invertLowestOne_le height
  split_ifs <;> omega

structure BlockPointers (κ : Type) where
  pprev : κ → Option κ
  pskip : κ → Option κ
  nHeight : κ → Nat

/-- Follow `pskip` only if `pprev->pskip` is not better than `pskip->pprev`. -/
def followsSkip (heightWalk height : Nat) : Bool :=
  let heightSkip := getSkipHeight heightWalk
  let heightSkipPrev := getSkipHeight (heightWalk - 1)
  heightSkip == height ||
    (decide (height < heightSkip) &&
      !(decide (heightSkipPrev + 2 < heightSkip) && decide (height ≤ heightSkipPrev)))

theorem le_getSkipHeight_of_followsSkip {heightWalk height : Nat}
    (h : followsSkip heightWalk height = true) : height ≤ getSkipHeight heightWalk := by
  unfold followsSkip at h
  rcases Bool.or_eq_true_iff.mp h with heq | hlt
  · exact (beq_iff_eq.mp heq).ge
  · exact (decide_eq_true_iff.mp (Bool.and_eq_true_iff.mp hlt).1).le

namespace BlockPointers

variable {ι κ : Type} (p : BlockPointers κ)

/-- The loop of `GetAncestor`; the height it has reached goes down in every
round. -/
def getAncestorLoop (height : Nat) : Nat → κ → Nat → Except Failure κ
  | 0, pindexWalk, _ => .ok pindexWalk
  | fuel + 1, pindexWalk, heightWalk =>
    if heightWalk ≤ height then .ok pindexWalk
    else
      match if followsSkip heightWalk height then p.pskip pindexWalk else none with
      | some pskip => getAncestorLoop height fuel pskip (getSkipHeight heightWalk)
      | none =>
        match p.pprev pindexWalk with
        | none => .error (.assertion "pindexWalk->pprev")
        | some pprev => getAncestorLoop height fuel pprev (heightWalk - 1)

def getAncestor (pindex : κ) (height : Int) : Except Failure (Option κ) :=
  if p.nHeight pindex < height ∨ height < 0 then .ok none
  else (p.getAncestorLoop height.toNat (p.nHeight pindex) pindex (p.nHeight pindex)).map some

def buildSkip (pindex : κ) : Except Failure (Option κ) :=
  match p.pprev pindex with
  | none => .ok (p.pskip pindex)
  | some pprev => p.getAncestor pprev (getSkipHeight (p.nHeight pindex))

/-- The pointers of a node and its ancestors are those of the tree; a skip pointer
may be missing. -/
structure Linked (t : Ancestry ι) (p : BlockPointers κ) (f : ι → κ) (i : ι) : Prop where
  nHeight : ∀ a, t.IsAncestor a i → p.nHeight (f a) = t.height a
  pprev : ∀ a, t.IsAncestor a i → p.pprev (f a) = (t.parent a).map f
  pskip : ∀ a, t.IsAncestor a i → ∀ k, p.pskip (f a) = some k →
    ∃ b, t.ancestor a (getSkipHeight (t.height a)) = some b ∧ k = f b

variable {p} {t : Ancestry ι} {f : ι → κ} {i : ι}

theorem Linked.mono {a : ι} (h : p.Linked t f i) (ha : t.IsAncestor a i) : p.Linked t f a where
  nHeight b hb := h.nHeight b (hb.trans ha)
  pprev b hb := h.pprev b (hb.trans ha)
  pskip b hb := h.pskip b (hb.trans ha)

theorem Linked.getAncestorLoop {a c : ι} {fuel : Nat} (h : p.Linked t f a)
    (hc : t.IsAncestor c a) (hfuel : t.height a ≤ fuel) :
    p.getAncestorLoop (t.height c) fuel (f a) (t.height a) = .ok (f c) := by
  induction fuel generalizing a with
  | zero =>
    have hle := hc.height_le
    obtain rfl : c = a := hc.eq_of_height (.refl a) (by omega)
    rfl
  | succ fuel ih =>
    have hle := hc.height_le
    rw [BlockPointers.getAncestorLoop]
    by_cases hend : t.height a ≤ t.height c
    · obtain rfl : c = a := hc.eq_of_height (.refl a) (by omega)
      rw [if_pos hend]
    · rw [if_neg hend]
      split
      case h_1 pskip hskip =>
        split at hskip
        case isFalse => cases hskip
        case isTrue hfollows =>
          obtain ⟨b, hb, rfl⟩ := h.pskip a (.refl a) pskip hskip
          obtain ⟨hba, hheight⟩ := ancestor_eq_some.mp hb
          have hlow := le_getSkipHeight_of_followsSkip hfollows
          have hlt := getSkipHeight_lt (show 0 < t.height a by omega)
          rw [← hheight]
          exact ih (h.mono hba) (hc.of_height_le hba (by omega)) (by omega)
      case h_2 =>
        obtain ⟨b, hb⟩ := exists_parent (t := t) (i := a) (by omega)
        have hba : t.IsAncestor b a := .of_parent hb
        have hheight := t.height_parent hb
        rw [h.pprev a (.refl a), hb]
        show p.getAncestorLoop (t.height c) fuel (f b) (t.height a - 1) = .ok (f c)
        rw [show t.height a - 1 = t.height b by omega]
        exact ih (h.mono hba) (hc.of_height_le hba (by omega)) (by omega)

theorem Linked.getAncestor (h : p.Linked t f i) (height : Int) :
    p.getAncestor (f i) height =
      .ok (if 0 ≤ height then (t.ancestor i height.toNat).map f else none) := by
  have hheight := h.nHeight i (.refl i)
  unfold BlockPointers.getAncestor
  rw [hheight]
  by_cases hneg : height < 0
  · rw [if_pos (.inr hneg), if_neg (by omega)]
  · rw [if_pos (by omega : 0 ≤ height)]
    by_cases hhigh : (t.height i : Int) < height
    · rw [if_pos (.inl hhigh), Ancestry.ancestor, if_neg (by omega)]
      rfl
    · obtain ⟨c, hc, hcheight⟩ :=
        exists_ancestor (t := t) (i := i) (h := height.toNat) (by omega)
      rw [if_neg (by omega), ancestor_eq_some.mpr ⟨hc, hcheight⟩, ← hcheight,
        Linked.getAncestorLoop h hc le_rfl]
      rfl

theorem Linked.buildSkip {j : ι} (h : p.Linked t f j) (hj : t.parent i = some j)
    (hpprev : p.pprev (f i) = some (f j)) (hheight : p.nHeight (f i) = t.height i) :
    p.buildSkip (f i) = .ok ((t.ancestor i (getSkipHeight (t.height i))).map f) := by
  have hup := t.height_parent hj
  have hlt := getSkipHeight_lt (show 0 < t.height i by omega)
  obtain ⟨c, hc, hcheight⟩ := exists_ancestor (t := t) (i := j)
    (h := getSkipHeight (t.height i)) (by omega)
  unfold BlockPointers.buildSkip
  rw [hpprev]
  show p.getAncestor (f j) _ = _
  rw [Linked.getAncestor h, hheight, if_pos (by omega), Int.toNat_natCast,
    ancestor_eq_some.mpr ⟨hc, hcheight⟩,
    ancestor_eq_some.mpr ⟨hc.trans (.of_parent hj), hcheight⟩]

end BlockPointers

end Verge
