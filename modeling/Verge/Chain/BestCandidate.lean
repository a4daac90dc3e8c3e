import Verge.Chain.FindMostWork

/-!
# What `FindMostWorkChain` returns and erases

The search ends, its result is the greatest of the candidates that can be used, and it
erases no candidate that can be used.  A candidate that is erased because data is missing
below it waits in `mapBlocksUnlinked` afterwards; a candidate whose own data is missing
does not.
-/

namespace Verge

open Foundation List Ancestry
open scoped CChainState

variable {ι : Type} [LinearOrder ι]

namespace BlockTree

variable {t : BlockTree ι} {s s' : CChainState ι} {i j x : ι} {n : Nat}

/-- A candidate within the rollback limit with no failed block and no block without data
between it and the active chain. -/
def UsableCandidate (t : BlockTree ι) (s : CChainState ι) (i : ι) : Prop :=
  i ∈ s.setBlockIndexCandidates ∧ t.isAutomaticReorgAllowed s.tip i = true ∧ ¬t.Blocked s i

/-- All that is wrong with a block is that data is missing between it and the active
chain. -/
def LacksData (t : BlockTree ι) (s : CChainState ι) (i : ι) : Prop :=
  t.isAutomaticReorgAllowed s.tip i = true ∧
  (∀ x, t.IsAncestor x i → ¬t.IsAncestor x s.tip → (s.entry x).failed = false) ∧
  ∃ x, t.IsAncestor x i ∧ ¬t.IsAncestor x s.tip ∧ (s.entry x).haveData = false

def Recorded (t : BlockTree ι) (s : CChainState ι) (i : ι) : Prop :=
  ∃ pprev, t.parent i = some pprev ∧ (pprev, i) ∈ s.mapBlocksUnlinked

/-- The transactions of the candidates and of the blocks below them are counted: what the
search asserts on its way. -/
def CandidatesLinked (t : BlockTree ι) (s : CChainState ι) : Prop :=
  ∀ i ∈ s.setBlockIndexCandidates, ∀ j, t.IsAncestor j i →
    (s.entry j).nChainTx ≠ 0 ∨ t.height j = 0

theorem exists_findUnusable (hlinked : ∀ j, t.IsAncestor j i →
    (s.entry j).nChainTx ≠ 0 ∨ t.height j = 0) (n : Nat) :
    ∃ found, t.findUnusable s n i = .ok found := by
  have hassert : ∀ {k}, t.IsAncestor k i →
      ¬((s.entry k).nChainTx = 0 ∧ t.height k ≠ 0) := by
    intro k hk hbad
    rcases hlinked k hk with h | h
    · exact h hbad.1
    · exact hbad.2 h
  induction n generalizing i with
  | zero =>
    unfold findUnusable
    rw [if_neg (hassert (.refl i))]
    split_ifs
    · exact ⟨_, rfl⟩
    · exact ⟨_, rfl⟩
    · exact ⟨_, rfl⟩
  | succ n ih =>
    unfold findUnusable
    rw [if_neg (hassert (.refl i))]
    split_ifs
    · exact ⟨_, rfl⟩
    · exact ⟨_, rfl⟩
    · cases hp : t.parent i with
      | none => exact ⟨_, rfl⟩
      | some p =>
        have hbelow : ∀ {k}, t.IsAncestor k p → t.IsAncestor k i :=
          fun hk => hk.trans (.of_parent hp)
        exact ih (fun k hk => hlinked k (hbelow hk)) fun hk => hassert (hbelow hk)

section

variable (h : Searched t s s')

include h

theorem Searched.nSequenceId (i : ι) : (s'.entry i).nSequenceId = (s.entry i).nSequenceId := by
  rcases h.entry i with heq | ⟨heq, -⟩ <;> rw [heq]

theorem Searched.nChainTx (i : ι) : (s'.entry i).nChainTx = (s.entry i).nChainTx := by
  rcases h.entry i with heq | ⟨heq, -⟩ <;> rw [heq]

omit h in
omit [LinearOrder ι] in
theorem rank_congr (h : ∀ i, (s'.entry i).nSequenceId = (s.entry i).nSequenceId) :
    t.rank s' = t.rank s := by
  funext i
  rw [rank, rank, h]

theorem Searched.rank_eq : t.rank s' = t.rank s := rank_congr h.nSequenceId

omit h in
omit [LinearOrder ι] in
theorem unfailed_of_imp (h : (s.entry i).failed = true → (s'.entry i).failed = true)
    (hi : (s'.entry i).failed = false) : (s.entry i).failed = false := by
  rw [← Bool.not_eq_true] at hi ⊢
  exact fun hfail => hi (h hfail)

theorem Searched.unusable (hi : ¬Usable s i) : ¬Usable s' i := by
  intro hu
  exact hi ⟨unfailed_of_imp h.failed hu.1, h.haveData i ▸ hu.2⟩

theorem Searched.blocked_after (hi : t.Blocked s i) : t.Blocked s' i := by
  obtain ⟨x, hx, hchain, hunusable⟩ := hi
  exact ⟨x, hx, h.tip ▸ hchain, h.unusable hunusable⟩

theorem Searched.linked (hlinked : t.CandidatesLinked s) : t.CandidatesLinked s' := by
  intro i hi j hj
  rw [h.nChainTx]
  exact hlinked i (h.kept i hi) j hj

theorem Searched.lacksData (hi : t.LacksData s i) : t.LacksData s' i := by
  obtain ⟨hallowed, hunfailed, x, hx, hchain, hdata⟩ := hi
  refine ⟨h.tip ▸ hallowed, fun y hy hychain => ?_, x, hx, h.tip ▸ hchain, ?_⟩
  · rw [h.tip] at hychain
    rw [← Bool.not_eq_true]
    intro hfail
    rcases h.failed_before hfail with hfail | ⟨z, hz, -, hzchain, hzfail⟩
    · rw [hunfailed y hy hychain] at hfail
      cases hfail
    · rw [hunfailed z (hz.trans hy) hzchain] at hzfail
      cases hzfail
  · rw [h.haveData]
    exact hdata

end

theorem mem_eraseCandidates_removeUnusable :
    i ∈ (t.removeUnusable s j x).setBlockIndexCandidates ↔
      i ∈ s.setBlockIndexCandidates ∧ i ∉ x :: t.downTo x (t.height j) j := by
  unfold removeUnusable
  dsimp only
  rw [CChainState.mem_eraseCandidates]
  split <;> rfl

theorem length_eraseCandidates_lt {blocks : List ι} (hi : i ∈ s.setBlockIndexCandidates)
    (herased : i ∈ blocks) :
    (s.eraseCandidates blocks).setBlockIndexCandidates.length <
      s.setBlockIndexCandidates.length := by
  refine length_filter_lt_length_iff_exists.mpr ⟨i, hi, ?_⟩
  simpa using herased

theorem length_removeUnusable_lt (hj : j ∈ s.setBlockIndexCandidates) (hx : t.IsAncestor x j) :
    (t.removeUnusable s j x).setBlockIndexCandidates.length <
      s.setBlockIndexCandidates.length := by
  have herased : j ∈ x :: t.downTo x (t.height j) j := by
    by_cases hjx : j = x
    · rw [hjx]
      exact mem_cons_self
    · exact mem_cons_of_mem _ ((mem_downTo hx (by omega)).mpr ⟨.refl j, hx, hjx⟩)
  unfold removeUnusable
  dsimp only
  split
  · exact length_eraseCandidates_lt hj herased
  · exact length_eraseCandidates_lt hj herased

theorem haveData_of_removeUnusable {p : ι × ι} (hfound : t.findUnusable s n j = .ok (some x))
    (hp : p ∈ (t.removeUnusable s j x).mapBlocksUnlinked) :
    p ∈ s.mapBlocksUnlinked ∨ (s.entry p.2).haveData = true := by
  obtain ⟨hx, -, -, habove⟩ := findUnusable_eq_some hfound
  unfold removeUnusable at hp
  dsimp only at hp
  split at hp
  · exact .inl hp
  · rcases mem_append.mp hp with hp | hp
    · exact .inl hp
    · obtain ⟨k, hk, hkp⟩ := mem_filterMap.mp hp
      obtain ⟨q, -, rfl⟩ := Option.map_eq_some_iff.mp hkp
      obtain ⟨hkj, hxk, hne⟩ := (mem_downTo hx (by omega)).mp hk
      exact .inr (habove k hkj hxk hne).2

theorem recorded_of_removeUnusable (hfound : t.findUnusable s n j = .ok (some x))
    (hi : i ∈ s.setBlockIndexCandidates)
    (herased : i ∉ (t.removeUnusable s j x).setBlockIndexCandidates) (hlacks : t.LacksData s i)
    (hdata : (s.entry i).haveData = true) : t.Recorded (t.removeUnusable s j x) i := by
  obtain ⟨hx, hchain, hunusable, -⟩ := findUnusable_eq_some hfound
  have hmem : i ∈ x :: t.downTo x (t.height j) j := by
    by_contra hnot
    exact herased (mem_eraseCandidates_removeUnusable.mpr ⟨hi, hnot⟩)
  have hxi : t.IsAncestor x i := by
    rcases mem_cons.mp hmem with rfl | hmem
    · exact .refl i
    · exact ((mem_downTo hx (by omega)).mp hmem).2.1
  have hunfailed : (s.entry x).failed = false := hlacks.2.1 x hxi hchain
  have hne : i ≠ x := by
    rintro rfl
    exact hunusable ⟨hunfailed, hdata⟩
  have hdown : i ∈ t.downTo x (t.height j) j := (mem_cons.mp hmem).resolve_left hne
  obtain ⟨pprev, hparent⟩ : ∃ pprev, t.parent i = some pprev := by
    refine exists_parent ?_
    by_contra hroot
    rw [eq_root_of_height (Nat.le_zero.mp (Nat.not_lt.mp hroot))] at hxi
    exact hchain (hxi.trans (t.isAncestor_root s.tip))
  refine ⟨pprev, hparent, ?_⟩
  unfold removeUnusable
  dsimp only
  rw [if_neg (by rw [hunfailed]; exact Bool.false_ne_true)]
  refine mem_append_right _ (mem_filterMap.mpr ⟨i, hdown, ?_⟩)
  rw [hparent]
  rfl

omit [LinearOrder ι] in
theorem Recorded.mono (h : t.Recorded s i)
    (hle : ∀ p ∈ s.mapBlocksUnlinked, p ∈ s'.mapBlocksUnlinked) : t.Recorded s' i := by
  obtain ⟨pprev, hparent, hmem⟩ := h
  exact ⟨pprev, hparent, hle _ hmem⟩

theorem candidates_eq_nil_of_findMostWorkLoop (hn : s.setBlockIndexCandidates.length ≤ n)
    (h : t.findMostWorkLoop n s = .ok (none, s')) : s'.setBlockIndexCandidates = [] := by
  induction n generalizing s with
  | zero =>
    cases h
    exact eq_nil_of_length_eq_zero (Nat.le_zero.mp hn)
  | succ n ih =>
    unfold findMostWorkLoop at h
    split at h
    case h_1 hbest =>
      cases h
      exact rbegin_eq_none hbest
    case h_2 j hj =>
      obtain ⟨hmem, -⟩ := rbegin_eq_some hj
      split at h
      case isTrue =>
        have hlength := length_eraseCandidates_lt hmem (mem_singleton_self j)
        exact ih (by omega) h
      case isFalse =>
        split at h
        case h_1 => cases h
        case h_2 => cases h
        case h_3 x hx =>
          have hlength := length_removeUnusable_lt hmem (findUnusable_eq_some hx).1
          exact ih (by omega) h

structure Records (t : BlockTree ι) (s s' : CChainState ι) : Prop where
  recorded : ∀ i ∈ s.setBlockIndexCandidates, i ∉ s'.setBlockIndexCandidates →
    t.LacksData s i → (s.entry i).haveData = true → t.Recorded s' i
  haveData : ∀ p ∈ s'.mapBlocksUnlinked, p ∈ s.mapBlocksUnlinked ∨
    (s.entry p.2).haveData = true

theorem Records.refl (t : BlockTree ι) (s : CChainState ι) : Records t s s where
  recorded _ hi hi' := absurd hi hi'
  haveData _ hp := .inl hp

theorem Records.round {s₁ : CChainState ι} (hround : Searched t s s₁)
    (hrecorded : ∀ i ∈ s.setBlockIndexCandidates, i ∉ s₁.setBlockIndexCandidates →
      t.LacksData s i → (s.entry i).haveData = true → t.Recorded s₁ i)
    (hdata : ∀ p ∈ s₁.mapBlocksUnlinked, p ∈ s.mapBlocksUnlinked ∨
      (s.entry p.2).haveData = true)
    (hrest : Searched t s₁ s') (h : Records t s₁ s') : Records t s s' where
  recorded i hi hi' hlacks hhave := by
    by_cases hi₁ : i ∈ s₁.setBlockIndexCandidates
    · exact h.recorded i hi₁ hi' (hround.lacksData hlacks) (hround.haveData i ▸ hhave)
    · exact (hrecorded i hi hi₁ hlacks hhave).mono hrest.waiting
  haveData p hp := by
    rcases h.haveData p hp with hp | hhave
    · exact hdata p hp
    · exact .inr (hround.haveData p.2 ▸ hhave)

theorem exists_findMostWorkLoop (hn : s.setBlockIndexCandidates.length ≤ n)
    (hlinked : t.CandidatesLinked s) :
    ∃ target s', t.findMostWorkLoop n s = .ok (target, s') ∧ Records t s s' := by
  induction n generalizing s with
  | zero => exact ⟨none, s, rfl, .refl t s⟩
  | succ n ih =>
    unfold findMostWorkLoop
    cases hbest : t.rbegin s s.setBlockIndexCandidates with
    | none => exact ⟨none, s, rfl, .refl t s⟩
    | some pindexNew =>
      dsimp only
      obtain ⟨hmem, -⟩ := rbegin_eq_some hbest
      by_cases hallowed : t.isAutomaticReorgAllowed s.tip pindexNew = true
      · rw [hallowed, if_neg (by decide)]
        obtain ⟨found, hfound⟩ := exists_findUnusable (hlinked pindexNew hmem)
          (t.height pindexNew)
        rw [hfound]
        cases found with
        | none => exact ⟨some pindexNew, s, rfl, .refl t s⟩
        | some x =>
          obtain ⟨hx, hchain, hunusable, -⟩ := findUnusable_eq_some hfound
          have hround := searched_removeUnusable hx hchain hunusable
          have hlength := length_removeUnusable_lt hmem hx
          obtain ⟨target, s', hloop, hrecords⟩ := ih (by omega) (hround.linked hlinked)
          refine ⟨target, s', hloop, .round hround (fun i hi hi₁ => ?_) (fun p hp => ?_)
            (searched_findMostWorkLoop hloop) hrecords⟩
          · exact recorded_of_removeUnusable hfound hi hi₁
          · exact haveData_of_removeUnusable hfound hp
      · have hforbidden : t.isAutomaticReorgAllowed s.tip pindexNew = false :=
          Bool.eq_false_of_not_eq_true hallowed
        rw [hforbidden, if_pos (by decide)]
        have hround := searched_eraseCandidates hforbidden
        have hlength := length_eraseCandidates_lt hmem (mem_singleton_self pindexNew)
        obtain ⟨target, s', hloop, hrecords⟩ := ih (by omega) (hround.linked hlinked)
        refine ⟨target, s', hloop, .round hround (fun i hi hi₁ hlacks => ?_)
          (fun p hp => .inl hp) (searched_findMostWorkLoop hloop) hrecords⟩
        -- the erased candidate is beyond the limit
        have hi : i = pindexNew := by
          by_contra hne
          exact hi₁ (CChainState.mem_eraseCandidates.mpr ⟨hi, by simpa using hne⟩)
        rw [hi, LacksData, hforbidden] at hlacks
        cases hlacks.1

theorem Searched.not_usableCandidate (h : Searched t s s') (hi : i ∈ s.setBlockIndexCandidates)
    (herased : i ∉ s'.setBlockIndexCandidates) : ¬t.UsableCandidate s i := by
  rintro ⟨-, hallowed, hfree⟩
  rcases h.erased i hi herased with hforbidden | hblocked
  · rw [hallowed] at hforbidden
    cases hforbidden
  · exact hfree hblocked

theorem usableCandidate_of_findMostWorkChain (h : t.findMostWorkChain s = .ok (some i, s')) :
    t.UsableCandidate s i ∧ ∀ j, t.UsableCandidate s j → t.rank s j ≤ t.rank s i := by
  have hsearched := searched_findMostWorkLoop h
  have htarget := isTarget_of_findMostWorkLoop h
  refine ⟨⟨hsearched.kept i htarget.mem, hsearched.tip ▸ htarget.allowed, fun hblocked => ?_⟩,
    fun j hj => ?_⟩
  · obtain ⟨x, hx, hchain, hunusable⟩ := hsearched.blocked_after hblocked
    exact hunusable (htarget.usable x hx hchain)
  · rw [← hsearched.rank_eq]
    refine htarget.best j ?_
    by_contra hj'
    exact hsearched.not_usableCandidate hj.1 hj' hj

structure Selected (t : BlockTree ι) (s : CChainState ι) (target : Option ι)
    (s' : CChainState ι) : Prop where
  greatest : ∀ i, target = some i → t.UsableCandidate s i ∧
    ∀ j, t.UsableCandidate s j → j = i ∨ t.worse s j i = true
  none : target = none → ∀ j, ¬t.UsableCandidate s j
  erased : ∀ i ∈ s.setBlockIndexCandidates, i ∉ s'.setBlockIndexCandidates →
    ¬t.UsableCandidate s i
  recorded : ∀ i ∈ s.setBlockIndexCandidates, i ∉ s'.setBlockIndexCandidates →
    t.LacksData s i → (t.Recorded s' i ↔ (s.entry i).haveData = true ∨ t.Recorded s i)

theorem findMostWorkChain_spec (hlinked : t.CandidatesLinked s) :
    ∃ target s', t.findMostWorkChain s = .ok (target, s') ∧ t.Selected s target s' := by
  obtain ⟨target, s', hloop, hrecords⟩ := exists_findMostWorkLoop (le_refl _) hlinked
  have hsearched := searched_findMostWorkLoop hloop
  refine ⟨target, s', hloop, ?_, ?_, fun i => hsearched.not_usableCandidate, ?_⟩
  · rintro i rfl
    obtain ⟨husable, hbest⟩ := usableCandidate_of_findMostWorkChain hloop
    refine ⟨husable, fun j hj => ?_⟩
    rcases lt_or_eq_of_le (hbest j hj) with hlt | heq
    · exact .inr (worse_iff.mpr hlt)
    · exact .inl (rank_injective t s heq)
  · intro hnone j hj
    refine hsearched.not_usableCandidate hj.1 ?_ hj
    rw [hnone] at hloop
    rw [candidates_eq_nil_of_findMostWorkLoop (le_refl _) hloop]
    exact not_mem_nil
  · intro i hi hi' hlacks
    constructor
    · rintro ⟨pprev, hparent, hmem⟩
      rcases hrecords.haveData _ hmem with hmem | hdata
      · exact .inr ⟨pprev, hparent, hmem⟩
      · exact .inl hdata
    · rintro (hdata | hrecorded)
      · exact hrecords.recorded i hi hi' hlacks hdata
      · exact hrecorded.mono hsearched.waiting

end BlockTree

end Verge
