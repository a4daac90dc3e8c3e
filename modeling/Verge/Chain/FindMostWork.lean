import Mathlib.Data.Prod.Lex
import Verge.Chain.ChainState

/-!
# Facts about `FindMostWorkChain`

The comparator is a strict total order, the walk to the active chain reads the
status of the blocks on it, and the search changes nothing but the candidates,
the blocks waiting for data and the `BLOCK_FAILED_CHILD` marks of blocks that
descend from a failed one.
-/

namespace Verge

open Foundation List Ancestry
open scoped CChainState

variable {ι : Type} [LinearOrder ι]

namespace CChainState

variable {s : CChainState ι} {blocks : List ι} {f : CBlockIndex → CBlockIndex} {i : ι}

theorem entry_modify : (s.modify blocks f).entry i =
    if i ∈ blocks then f (s.entry i) else s.entry i := rfl

theorem entry_modify_of_notMem (h : i ∉ blocks) : (s.modify blocks f).entry i = s.entry i :=
  if_neg h

theorem mem_eraseCandidates : i ∈ (s.eraseCandidates blocks).setBlockIndexCandidates ↔
    i ∈ s.setBlockIndexCandidates ∧ i ∉ blocks := by
  simp [eraseCandidates]

theorem mem_insertCandidate {pindex : ι} :
    i ∈ (s.insertCandidate pindex).setBlockIndexCandidates ↔
      i = pindex ∨ i ∈ s.setBlockIndexCandidates := by
  unfold insertCandidate
  split
  case isTrue h =>
    constructor
    · exact .inr
    · rintro (rfl | hi)
      · exact h
      · exact hi
  case isFalse => exact mem_cons

end CChainState

namespace BlockTree

variable {t : BlockTree ι} {s : CChainState ι}

def rank (t : BlockTree ι) (s : CChainState ι) (i : ι) : Nat ×ₗ Int ×ₗ ιᵒᵈ :=
  toLex (t.height i, toLex (-(s.entry i).nSequenceId, OrderDual.toDual i))

variable {i j : ι}

theorem worse_iff : t.worse s i j = true ↔ t.rank s i < t.rank s j := by
  unfold worse rank
  rw [Prod.Lex.toLex_lt_toLex, Prod.Lex.toLex_lt_toLex, OrderDual.toDual_lt_toDual]
  dsimp only
  split_ifs with h1 h2 h3 h4
  · refine iff_of_false (by simp) ?_
    omega
  · exact iff_of_true rfl (.inl h2)
  · refine iff_of_false (by simp) ?_
    omega
  · exact iff_of_true rfl (.inr ⟨by omega, .inl (by omega)⟩)
  · rw [decide_eq_true_iff]
    constructor
    · intro h
      exact .inr ⟨by omega, .inr ⟨by omega, h⟩⟩
    · rintro (h | ⟨-, h | ⟨-, h⟩⟩)
      · omega
      · omega
      · exact h

omit [LinearOrder ι] in
theorem rank_injective (t : BlockTree ι) (s : CChainState ι) :
    Function.Injective (t.rank s) := by
  intro i j h
  exact congrArg (fun r => OrderDual.ofDual (ofLex (ofLex r).2).2) h

theorem not_worse_iff : t.worse s i j = false ↔ t.rank s j ≤ t.rank s i := by
  rw [← Bool.not_eq_true, worse_iff, not_lt]

theorem rank_le_of_height_lt (h : t.height i < t.height j) :
    t.rank s i < t.rank s j := Prod.Lex.toLex_lt_toLex.mpr (.inl h)

theorem height_le_of_rank_le (h : t.rank s i ≤ t.rank s j) :
    t.height i ≤ t.height j := by
  by_contra hlt
  exact absurd (rank_le_of_height_lt (s := s) (Nat.lt_of_not_le hlt)) (not_lt.mpr h)

theorem rbegin_eq_none {l : List ι} (h : t.rbegin s l = none) : l = [] := by
  cases l with
  | nil => rfl
  | cons i l =>
    unfold rbegin at h
    split at h
    · cases h
    · split at h <;> cases h

theorem rbegin_eq_some {l : List ι} {best : ι} (h : t.rbegin s l = some best) :
    best ∈ l ∧ ∀ i ∈ l, t.rank s i ≤ t.rank s best := by
  induction l generalizing best with
  | nil => cases h
  | cons i l ih =>
    unfold rbegin at h
    split at h
    case h_1 hnone =>
      cases h
      rw [rbegin_eq_none hnone]
      simp
    case h_2 j hj =>
      obtain ⟨hmem, hall⟩ := ih hj
      split at h
      case isTrue hworse =>
        cases h
        exact ⟨mem_cons_of_mem _ hmem, forall_mem_cons.mpr ⟨(worse_iff.mp hworse).le, hall⟩⟩
      case isFalse hbetter =>
        cases h
        have hle := not_worse_iff.mp (Bool.eq_false_of_not_eq_true hbetter)
        exact ⟨mem_cons_self,
          forall_mem_cons.mpr ⟨le_rfl, fun k hk => (hall k hk).trans hle⟩⟩

theorem mem_downTo {stop : ι} {n : Nat} (h : t.IsAncestor stop i)
    (hn : t.height i ≤ n + t.height stop) :
    j ∈ t.downTo stop n i ↔ t.IsAncestor j i ∧ t.IsAncestor stop j ∧ j ≠ stop := by
  induction n generalizing i with
  | zero =>
    obtain rfl : stop = i := h.eq_of_height (.refl i)
      (Nat.le_antisymm h.height_le (by omega))
    refine iff_of_false (by simp [downTo]) ?_
    rintro ⟨hji, hij, hne⟩
    exact hne (hji.antisymm hij)
  | succ n ih =>
    unfold downTo
    split
    case isTrue heq =>
      subst heq
      refine iff_of_false (by simp) ?_
      rintro ⟨hji, hij, hne⟩
      exact hne (hji.antisymm hij)
    case isFalse hne =>
      rcases isAncestor_iff.mp h with heq | ⟨p, hp, hstop⟩
      · exact absurd heq.symm hne
      · have hheight := t.height_parent hp
        rw [hp]
        dsimp only
        rw [mem_cons, ih hstop (by omega), isAncestor_iff (a := j) (i := i)]
        constructor
        · rintro (rfl | ⟨hj, hjstop, hjne⟩)
          · exact ⟨.inl rfl, h, hne⟩
          · exact ⟨.inr ⟨p, hp, hj⟩, hjstop, hjne⟩
        · rintro ⟨rfl | ⟨q, hq, hj⟩, hjstop, hjne⟩
          · exact .inl rfl
          · cases hp.symm.trans hq
            exact .inr ⟨hj, hjstop, hjne⟩

def Usable (s : CChainState ι) (i : ι) : Prop :=
  (s.entry i).failed = false ∧ (s.entry i).haveData = true

omit [LinearOrder ι] in
theorem not_usable_iff : ¬Usable s i ↔ ((s.entry i).failed || !(s.entry i).haveData) = true := by
  unfold Usable
  cases (s.entry i).failed <;> cases (s.entry i).haveData <;> simp

theorem findUnusable_eq_none {n : Nat} (hn : t.height i ≤ n) (h : t.findUnusable s n i = .ok none)
    (hj : t.IsAncestor j i) (hchain : ¬t.IsAncestor j s.tip) : Usable s j := by
  induction n generalizing i with
  | zero =>
    obtain rfl : i = t.root := eq_root_of_height (Nat.le_zero.mp hn)
    exact absurd (hj.trans (t.isAncestor_root s.tip)) hchain
  | succ n ih =>
    unfold findUnusable at h
    split at h
    case isTrue hi => exact absurd (hj.trans hi) hchain
    case isFalse hi =>
      split at h
      case isTrue => cases h
      case isFalse =>
        split at h
        case isTrue => cases h
        case isFalse husable =>
          rcases isAncestor_iff.mp hj with rfl | ⟨p, hp, hjp⟩
          · simpa [Usable] using husable
          · have hheight := t.height_parent hp
            rw [hp] at h
            exact ih (by omega) h hjp

theorem findUnusable_eq_some {n : Nat} {x : ι} (h : t.findUnusable s n i = .ok (some x)) :
    t.IsAncestor x i ∧ ¬t.IsAncestor x s.tip ∧ ¬Usable s x ∧
      ∀ j, t.IsAncestor j i → t.IsAncestor x j → j ≠ x → Usable s j := by
  induction n generalizing i with
  | zero =>
    unfold findUnusable at h
    split_ifs at h with hi hlinked hunusable
    · cases h
    · cases h
      exact ⟨.refl x, hi, not_usable_iff.mpr hunusable,
        fun j hj hx hne => absurd (hj.antisymm hx) hne⟩
    · cases h
  | succ n ih =>
    unfold findUnusable at h
    split_ifs at h with hi hlinked hunusable
    · cases h
    · cases h
      exact ⟨.refl x, hi, not_usable_iff.mpr hunusable,
        fun j hj hx hne => absurd (hj.antisymm hx) hne⟩
    · cases hp : t.parent i with
      | none =>
        rw [hp] at h
        cases h
      | some p =>
        rw [hp] at h
        obtain ⟨hx, hchain, hbad, habove⟩ := ih h
        refine ⟨hx.trans (.of_parent hp), hchain, hbad, fun j hj hxj hne => ?_⟩
        rcases isAncestor_iff.mp hj with rfl | ⟨q, hq, hjq⟩
        · exact not_not.mp (mt not_usable_iff.mp hunusable)
        · cases hp.symm.trans hq
          exact habove j hjq hxj hne

def HasFailedAncestor (t : BlockTree ι) (s : CChainState ι) (i : ι) : Prop :=
  ∃ x, t.IsAncestor x i ∧ x ≠ i ∧ ¬t.IsAncestor x s.tip ∧ (s.entry x).failed = true

def Blocked (t : BlockTree ι) (s : CChainState ι) (i : ι) : Prop :=
  ∃ x, t.IsAncestor x i ∧ ¬t.IsAncestor x s.tip ∧ ¬Usable s x

structure Searched (t : BlockTree ι) (s s' : CChainState ι) : Prop where
  rest : s' = { s with
    entry := s'.entry
    setBlockIndexCandidates := s'.setBlockIndexCandidates
    mapBlocksUnlinked := s'.mapBlocksUnlinked }
  entry : ∀ i, s'.entry i = s.entry i ∨
    s'.entry i = { s.entry i with failedChild := true } ∧ t.HasFailedAncestor s i
  kept : ∀ i ∈ s'.setBlockIndexCandidates, i ∈ s.setBlockIndexCandidates
  erased : ∀ i ∈ s.setBlockIndexCandidates, i ∉ s'.setBlockIndexCandidates →
    t.isAutomaticReorgAllowed s.tip i = false ∨ t.Blocked s i
  waiting : ∀ p ∈ s.mapBlocksUnlinked, p ∈ s'.mapBlocksUnlinked
  unlinked : ∀ p ∈ s'.mapBlocksUnlinked, p ∈ s.mapBlocksUnlinked ∨
    ∃ x, t.IsAncestor x p.2 ∧ (s.entry x).haveData = false

namespace Searched

variable {s' s'' : CChainState ι} (h : Searched t s s')

include h

theorem tip : s'.tip = s.tip := by
  rw [h.rest]

omit h in
theorem refl (t : BlockTree ι) (s : CChainState ι) : Searched t s s where
  rest := rfl
  entry _ := .inl rfl
  kept _ h := h
  erased _ h h' := absurd h h'
  waiting _ h := h
  unlinked _ h := .inl h

theorem haveData (i : ι) : (s'.entry i).haveData = (s.entry i).haveData := by
  rcases h.entry i with heq | ⟨heq, -⟩ <;> rw [heq]

theorem failed {i : ι} (hi : (s.entry i).failed = true) : (s'.entry i).failed = true := by
  rcases h.entry i with heq | ⟨heq, -⟩ <;> rw [heq]
  · exact hi
  · simp [CBlockIndex.failed]

theorem failed_before {i : ι} (hi : (s'.entry i).failed = true) :
    (s.entry i).failed = true ∨ t.HasFailedAncestor s i := by
  rcases h.entry i with heq | ⟨-, hanc⟩
  · exact .inl (heq ▸ hi)
  · exact .inr hanc

theorem hasFailedAncestor {i : ι} (hi : t.HasFailedAncestor s' i) :
    t.HasFailedAncestor s i := by
  obtain ⟨x, hx, hne, hchain, hfail⟩ := hi
  rw [h.tip] at hchain
  rcases h.failed_before hfail with hfail | ⟨y, hy, hyne, hychain, hyfail⟩
  · exact ⟨x, hx, hne, hchain, hfail⟩
  · refine ⟨y, hy.trans hx, ?_, hychain, hyfail⟩
    rintro rfl
    exact hne (hx.antisymm hy)

theorem blocked {i : ι} (hi : t.Blocked s' i) : t.Blocked s i := by
  obtain ⟨x, hx, hchain, hunusable⟩ := hi
  rw [h.tip] at hchain
  by_cases hfail : (s'.entry x).failed = true
  · rcases h.failed_before hfail with hfail | ⟨y, hy, -, hychain, hyfail⟩
    · exact ⟨x, hx, hchain, fun hu => by simp [hu.1] at hfail⟩
    · exact ⟨y, hy.trans hx, hychain, fun hu => by simp [hu.1] at hyfail⟩
  · refine ⟨x, hx, hchain, fun hu => hunusable ⟨by simpa using hfail, ?_⟩⟩
    rw [h.haveData]
    exact hu.2

theorem trans (h' : Searched t s' s'') : Searched t s s'' where
  rest := by
    rw [h'.rest, h.rest]
  entry i := by
    rcases h'.entry i with heq' | ⟨heq', hanc⟩
    · rw [heq']
      exact h.entry i
    · refine .inr ⟨?_, h.hasFailedAncestor hanc⟩
      rcases h.entry i with heq | ⟨heq, -⟩ <;> rw [heq', heq]
  kept i hi := h.kept i (h'.kept i hi)
  erased i hi hi'' := by
    by_cases hi' : i ∈ s'.setBlockIndexCandidates
    · rw [← h.tip]
      exact (h'.erased i hi' hi'').imp_right h.blocked
    · exact h.erased i hi hi'
  waiting p hp := h'.waiting p (h.waiting p hp)
  unlinked p hp := by
    rcases h'.unlinked p hp with hp | ⟨x, hx, hdata⟩
    · exact h.unlinked p hp
    · exact .inr ⟨x, hx, h.haveData x ▸ hdata⟩

end Searched

theorem searched_eraseCandidates (h : t.isAutomaticReorgAllowed s.tip i = false) :
    Searched t s (s.eraseCandidates [i]) where
  rest := rfl
  entry _ := .inl rfl
  kept j hj := (CChainState.mem_eraseCandidates.mp hj).1
  erased j hj hj' := by
    obtain rfl : j = i := by
      by_contra hne
      exact hj' (CChainState.mem_eraseCandidates.mpr ⟨hj, by simpa using hne⟩)
    exact .inl h
  waiting _ hp := hp
  unlinked _ hp := .inl hp

theorem searched_removeUnusable {x : ι} (hx : t.IsAncestor x i) (hchain : ¬t.IsAncestor x s.tip)
    (hunusable : ¬Usable s x) :
    Searched t s (t.removeUnusable s i x) := by
  have hmem : ∀ {j}, j ∈ t.downTo x (t.height i) i ↔
      t.IsAncestor j i ∧ t.IsAncestor x j ∧ j ≠ x :=
    mem_downTo hx (by omega)
  have herased : ∀ j ∈ x :: t.downTo x (t.height i) i, t.Blocked s j := by
    intro j hj
    rcases mem_cons.mp hj with rfl | hj
    · exact ⟨j, .refl j, hchain, hunusable⟩
    · exact ⟨x, (hmem.mp hj).2.1, hchain, hunusable⟩
  unfold removeUnusable
  split
  case isTrue hfail =>
    refine ⟨rfl, fun j => ?_, fun j hj => (CChainState.mem_eraseCandidates.mp hj).1,
      fun j hj hj' => ?_, fun _ hp => hp, fun _ hp => .inl hp⟩
    · by_cases hj : j ∈ t.downTo x (t.height i) i
      · obtain ⟨-, hxj, hne⟩ := hmem.mp hj
        exact .inr ⟨if_pos hj, x, hxj, hne.symm, hchain, hfail⟩
      · exact .inl (if_neg hj)
    · by_contra hcon
      exact hj' (CChainState.mem_eraseCandidates.mpr
        ⟨hj, fun hin => hcon (.inr (herased j hin))⟩)
  case isFalse hfail =>
    have hdata : (s.entry x).haveData = false := by
      by_contra hdata
      exact hunusable ⟨by simpa using hfail, by simpa using hdata⟩
    refine ⟨rfl, fun j => .inl rfl, fun j hj => (CChainState.mem_eraseCandidates.mp hj).1,
      fun j hj hj' => ?_, fun p hp => mem_append_left _ hp, fun p hp => ?_⟩
    · by_contra hcon
      exact hj' (CChainState.mem_eraseCandidates.mpr
        ⟨hj, fun hin => hcon (.inr (herased j hin))⟩)
    · rcases mem_append.mp hp with hp | hp
      · exact .inl hp
      · obtain ⟨j, hj, hjp⟩ := mem_filterMap.mp hp
        obtain ⟨q, -, rfl⟩ := Option.map_eq_some_iff.mp hjp
        exact .inr ⟨x, (hmem.mp hj).2.1, hdata⟩

theorem searched_findMostWorkLoop {n : Nat} {target : Option ι} {s' : CChainState ι}
    (h : t.findMostWorkLoop n s = .ok (target, s')) : Searched t s s' := by
  induction n generalizing s with
  | zero =>
    cases h
    exact .refl t _
  | succ n ih =>
    unfold findMostWorkLoop at h
    split at h
    case h_1 =>
      cases h
      exact .refl t _
    case h_2 i hi =>
      split at h
      case isTrue hforbidden =>
        exact (searched_eraseCandidates (by simpa using hforbidden)).trans (ih h)
      case isFalse =>
        split at h
        case h_1 => cases h
        case h_2 =>
          cases h
          exact .refl t _
        case h_3 x hx =>
          obtain ⟨hanc, hchain, hunusable, -⟩ := findUnusable_eq_some hx
          exact (searched_removeUnusable hanc hchain hunusable).trans (ih h)

structure IsTarget (t : BlockTree ι) (s : CChainState ι) (i : ι) : Prop where
  mem : i ∈ s.setBlockIndexCandidates
  best : ∀ j ∈ s.setBlockIndexCandidates, t.rank s j ≤ t.rank s i
  allowed : t.isAutomaticReorgAllowed s.tip i = true
  usable : ∀ j, t.IsAncestor j i → ¬t.IsAncestor j s.tip → Usable s j

theorem isTarget_of_findMostWorkLoop {n : Nat} {s' : CChainState ι}
    (h : t.findMostWorkLoop n s = .ok (some i, s')) : t.IsTarget s' i := by
  induction n generalizing s with
  | zero => cases h
  | succ n ih =>
    unfold findMostWorkLoop at h
    split at h
    case h_1 => cases h
    case h_2 j hj =>
      split at h
      case isTrue => exact ih h
      case isFalse hallowed =>
        split at h
        case h_1 => cases h
        case h_2 hnone =>
          cases h
          obtain ⟨hmem, hbest⟩ := rbegin_eq_some hj
          exact ⟨hmem, hbest, by simpa using hallowed,
            fun k hk hchain => findUnusable_eq_none le_rfl hnone hk hchain⟩
        case h_3 => exact ih h

end BlockTree

end Verge
