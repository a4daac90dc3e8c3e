import Verge.Chain.BestCandidate

/-!
# What a step of `ActivateBestChain` does

`ActivateBestChainStep` moves the tip along the way to its target.  It erases the
candidates that are worse than the new tip and the block that was found invalid, and marks
no other block.  It makes progress unless it finds an invalid block, and it meets no
assertion if the target is a candidate.
-/

namespace Verge

open Foundation List
open scoped CChainState

variable {ι : Type} [LinearOrder ι]

namespace BlockTree

variable {t : BlockTree ι} {s s' s₁ : CChainState ι} {verdict : ι → Verdict} {i : ι}

theorem rank_le_of_isAncestor {a b : ι} (h : t.IsAncestor a b) : t.rank s a ≤ t.rank s b := by
  rcases Nat.lt_or_eq_of_le h.height_le with hlt | heq
  · exact (rank_le_of_height_lt hlt).le
  · rw [h.eq_of_height (.refl b) heq]

omit [LinearOrder ι] in
theorem not_isAncestor_of_parent (h : t.parent i = some tip) : ¬t.IsAncestor i tip := by
  intro hi
  have hheight := t.height_parent h
  have hle := hi.height_le
  omega

def SameEntries (s s' : CChainState ι) : Prop :=
  ∀ i, (s'.entry i).nSequenceId = (s.entry i).nSequenceId ∧
    (s'.entry i).nChainTx = (s.entry i).nChainTx ∧
    (s'.entry i).haveData = (s.entry i).haveData

namespace SameEntries

omit [LinearOrder ι]

theorem refl (s : CChainState ι) : SameEntries s s := fun _ => ⟨rfl, rfl, rfl⟩

theorem trans (h : SameEntries s s₁) (h' : SameEntries s₁ s') : SameEntries s s' :=
  fun i => ⟨(h' i).1.trans (h i).1, (h' i).2.1.trans (h i).2.1, (h' i).2.2.trans (h i).2.2⟩

theorem rank_eq (h : SameEntries s s') : t.rank s' = t.rank s :=
  rank_congr fun i => (h i).1

end SameEntries

theorem Searched.sameEntries (h : Searched t s s') : SameEntries s s' :=
  fun i => ⟨h.nSequenceId i, h.nChainTx i, h.haveData i⟩

theorem connectTip_connected (h : t.connectTip verdict s i = .ok (true, s₁)) :
    s₁.tip = i ∧ s₁.setBlockIndexCandidates = s.setBlockIndexCandidates ∧ SameEntries s s₁ ∧
      ∀ j, (s₁.entry j).failed = (s.entry j).failed := by
  unfold connectTip at h
  split at h
  case isTrue => cases h
  case isFalse =>
    split at h
    case h_1 =>
      cases h
      have hraise : ∀ entry : CBlockIndex,
          (CBlockIndex.raiseValidity { entry with haveUndo := true } BLOCK_VALID_SCRIPTS) =
            { entry with haveUndo := true, validity :=
              (CBlockIndex.raiseValidity { entry with haveUndo := true }
                BLOCK_VALID_SCRIPTS).validity } := by
        intro entry
        unfold CBlockIndex.raiseValidity
        split_ifs <;> rfl
      refine ⟨rfl, rfl, fun j => ?_, fun j => ?_⟩
      · dsimp only [CChainState.modify]
        split
        · rw [hraise]
          exact ⟨rfl, rfl, rfl⟩
        · exact ⟨rfl, rfl, rfl⟩
      · dsimp only [CChainState.modify]
        split
        · rw [hraise]
          rfl
        · rfl
    case h_2 => cases h
    case h_3 => cases h

theorem connectTip_invalid (h : t.connectTip verdict s i = .ok (false, s₁)) :
    ∃ corruptionPossible, verdict i = .invalid corruptionPossible ∧
      s₁ = invalidBlockFound s i corruptionPossible := by
  unfold connectTip at h
  split at h
  case isTrue => cases h
  case isFalse =>
    split at h
    case h_1 => cases h
    case h_2 corruptionPossible hverdict =>
      cases h
      exact ⟨corruptionPossible, hverdict, rfl⟩
    case h_3 => cases h

theorem pruneBlockIndexCandidates_spec (h : t.pruneBlockIndexCandidates s = .ok s₁) :
    s₁.entry = s.entry ∧ s₁.tip = s.tip ∧
      ∀ j, j ∈ s₁.setBlockIndexCandidates ↔
        j ∈ s.setBlockIndexCandidates ∧ t.rank s s.tip ≤ t.rank s j := by
  simp only [pruneBlockIndexCandidates] at h
  split at h
  · cases h
  · cases h
    refine ⟨rfl, rfl, fun j => ?_⟩
    rw [mem_filter, Bool.not_eq_true', not_worse_iff]

theorem exists_pruneBlockIndexCandidates (hi : i ∈ s.setBlockIndexCandidates)
    (hrank : t.rank s s.tip ≤ t.rank s i) : ∃ s₁, t.pruneBlockIndexCandidates s = .ok s₁ := by
  have hleft : i ∈ s.setBlockIndexCandidates.filter fun pindex => !t.worse s pindex s.tip := by
    rw [mem_filter, Bool.not_eq_true', not_worse_iff]
    exact ⟨hi, hrank⟩
  unfold pruneBlockIndexCandidates
  dsimp only
  rw [if_neg]
  · exact ⟨_, rfl⟩
  · rw [List.isEmpty_iff]
    exact List.ne_nil_of_mem hleft

structure Connected (t : BlockTree ι) (verdict : ι → Verdict) (s : CChainState ι) (target : ι)
    (fInvalidFound : Bool) (s' : CChainState ι) : Prop where
  common : ∀ i, t.IsAncestor i s.tip → t.IsAncestor i target → t.IsAncestor i s'.tip
  below : t.IsAncestor s'.tip target
  same : SameEntries s s'
  failed : ∀ i, (s.entry i).failed = true → (s'.entry i).failed = true
  marked : ∀ i, (s'.entry i).failed = true → (s.entry i).failed = true ∨
    fInvalidFound = true ∧ t.parent i = some s'.tip ∧ verdict i = .invalid false
  kept : ∀ i ∈ s'.setBlockIndexCandidates, i ∈ s.setBlockIndexCandidates
  erased : ∀ i ∈ s.setBlockIndexCandidates, i ∉ s'.setBlockIndexCandidates →
    t.rank s i < t.rank s s'.tip ∨
      fInvalidFound = true ∧ t.parent i = some s'.tip ∧ verdict i = .invalid false ∧
        (s'.entry i).failed = true
  invalid : fInvalidFound = true → ∃ x corruptionPossible, t.parent x = some s'.tip ∧
    t.IsAncestor x target ∧ verdict x = .invalid corruptionPossible ∧
      (corruptionPossible = false → (s'.entry x).failed = true)
  progress : fInvalidFound = false → t.IsAncestor s.tip target →
    s'.tip = target ∨ t.height s.tip < t.height s'.tip

variable {target : ι} {fInvalidFound : Bool}

theorem connected_invalid {corruptionPossible : Bool} (hparent : t.parent i = some s.tip)
    (hbelow : t.IsAncestor i target) (hverdict : verdict i = .invalid corruptionPossible) :
    Connected t verdict s target true (invalidBlockFound s i corruptionPossible) := by
  have htip : t.IsAncestor s.tip target := (Ancestry.IsAncestor.of_parent hparent).trans hbelow
  cases corruptionPossible with
  | true =>
    exact
      { common := fun _ hi _ => hi
        below := htip
        same := .refl s
        failed := fun _ h => h
        marked := fun _ h => .inl h
        kept := fun _ h => h
        erased := fun _ h h' => absurd h h'
        invalid := fun _ => ⟨i, true, hparent, hbelow, hverdict, fun h => by cases h⟩
        progress := fun h => by cases h }
  | false =>
    have hentry : ∀ j, (invalidBlockFound s i false).entry j =
        if j ∈ [i] then { s.entry j with failedValid := true } else s.entry j := fun _ => rfl
    have hfailed : ((invalidBlockFound s i false).entry i).failed = true := by
      rw [hentry, if_pos (mem_singleton_self i)]
      rfl
    exact
      { common := fun _ hi _ => hi
        below := htip
        same := by
          intro j
          rw [hentry]
          split <;> exact ⟨rfl, rfl, rfl⟩
        failed := by
          intro j hj
          rw [hentry]
          split
          · rfl
          · exact hj
        marked := by
          intro j hj
          rw [hentry] at hj
          split at hj
          next hji =>
            rw [mem_singleton] at hji
            rw [hji]
            exact .inr ⟨rfl, hparent, hverdict⟩
          · exact .inl hj
        kept := fun j hj => (CChainState.mem_eraseCandidates.mp hj).1
        erased := by
          intro j hj hj'
          have hji : j = i := by
            by_contra hne
            exact hj' (CChainState.mem_eraseCandidates.mpr ⟨hj, by simpa using hne⟩)
          rw [hji]
          exact .inr ⟨rfl, hparent, hverdict, hfailed⟩
        invalid := fun _ => ⟨i, false, hparent, hbelow, hverdict, fun _ => hfailed⟩
        progress := fun h => by cases h }

theorem connected_block {s₂ : CChainState ι} (hparent : t.parent i = some s.tip)
    (hbelow : t.IsAncestor i target) (hconnect : t.connectTip verdict s i = .ok (true, s₁))
    (hprune : t.pruneBlockIndexCandidates s₁ = .ok s₂) :
    Connected t verdict s target false s₂ := by
  obtain ⟨htip₁, hcandidates, hsame₁, hfailed₁⟩ := connectTip_connected hconnect
  obtain ⟨hentry₂, htip₂, hmem⟩ := pruneBlockIndexCandidates_spec hprune
  have htip : s₂.tip = i := htip₂.trans htip₁
  have hsame : SameEntries s s₂ := by
    intro j
    rw [hentry₂]
    exact hsame₁ j
  have hfailed : ∀ j, (s₂.entry j).failed = (s.entry j).failed := by
    intro j
    rw [hentry₂, hfailed₁]
  rw [hsame₁.rank_eq, htip₁, hcandidates] at hmem
  have hheight := t.height_parent hparent
  exact
    { common := fun j hj _ => htip ▸ hj.trans (.of_parent hparent)
      below := htip ▸ hbelow
      same := hsame
      failed := fun j hj => (hfailed j).trans hj
      marked := fun j hj => .inl ((hfailed j).symm.trans hj)
      kept := fun j hj => ((hmem j).mp hj).1
      erased := by
        intro j hj hj'
        rw [htip]
        refine .inl (not_le.mp fun hle => hj' ((hmem j).mpr ⟨hj, hle⟩))
      invalid := fun h => by cases h
      progress := by
        intro _ _
        rw [htip]
        exact .inr (by omega) }

theorem Connected.trans (h : Connected t verdict s target false s₁)
    (h' : Connected t verdict s₁ target fInvalidFound s') (hstep : t.height s.tip < t.height s₁.tip)
    :
    Connected t verdict s target fInvalidFound s' where
  common i hi hi' := h'.common i (h.common i hi hi') hi'
  below := h'.below
  same := h.same.trans h'.same
  failed i hi := h'.failed i (h.failed i hi)
  marked i hi := by
    rcases h'.marked i hi with hi | hinvalid
    · rcases h.marked i hi with hi | ⟨hfalse, -⟩
      · exact .inl hi
      · cases hfalse
    · exact .inr hinvalid
  kept i hi := h.kept i (h'.kept i hi)
  erased i hi hi' := by
    by_cases hi₁ : i ∈ s₁.setBlockIndexCandidates
    · rw [← h.same.rank_eq]
      exact h'.erased i hi₁ hi'
    · rcases h.erased i hi hi₁ with hlt | ⟨hfalse, -⟩
      · have habove := h'.common s₁.tip (.refl _) h.below
        exact .inl (lt_of_lt_of_le hlt (rank_le_of_isAncestor habove))
      · cases hfalse
  invalid := h'.invalid
  progress _ _ := .inr (lt_of_lt_of_le hstep (h'.common s₁.tip (.refl _) h.below).height_le)

theorem connected_of_connectBlocksTo {pindexOldTip fork : ι} {path : List ι}
    (hpath : t.IsPath fork path target) (htip : s.tip = fork)
    (h : t.connectBlocksTo verdict pindexOldTip path s = .ok (fInvalidFound, s')) :
    Connected t verdict s target fInvalidFound s' := by
  induction path generalizing fork s with
  | nil =>
    obtain rfl : fork = target := hpath
    cases h
    exact
      { common := fun _ hi _ => hi
        below := htip ▸ .refl _
        same := .refl _
        failed := fun _ h => h
        marked := fun _ h => .inl h
        kept := fun _ h => h
        erased := fun _ h h' => absurd h h'
        invalid := fun h => by cases h
        progress := fun _ _ => .inl htip }
  | cons i path ih =>
    obtain ⟨hparent, hrest⟩ := hpath
    rw [← htip] at hparent
    unfold connectBlocksTo at h
    split at h
    case h_1 => cases h
    case h_2 s₁ hconnect =>
      cases h
      obtain ⟨corruptionPossible, hverdict, rfl⟩ := connectTip_invalid hconnect
      exact connected_invalid hparent hrest.isAncestor hverdict
    case h_3 s₁ hconnect =>
      split at h
      case h_1 => cases h
      case h_2 s₂ hprune =>
        have hblock := connected_block hparent hrest.isAncestor hconnect hprune
        have htip₂ : s₂.tip = i :=
          (pruneBlockIndexCandidates_spec hprune).2.1.trans (connectTip_connected hconnect).1
        have hheight := t.height_parent hparent
        split at h
        case isTrue =>
          cases h
          exact hblock
        case isFalse => exact hblock.trans (ih hrest htip₂ h) (by rw [htip₂]; omega)

theorem systemError_of_connectBlocksTo {pindexOldTip fork : ι} {path : List ι} {failure : Failure}
    (hpath : t.IsPath fork path target) (htip : s.tip = fork)
    (htarget : target ∈ s.setBlockIndexCandidates)
    (h : t.connectBlocksTo verdict pindexOldTip path s = .error failure) :
    ∃ x, verdict x = .systemError := by
  induction path generalizing fork s with
  | nil => cases h
  | cons i path ih =>
    obtain ⟨hparent, hrest⟩ := hpath
    rw [← htip] at hparent
    unfold connectBlocksTo at h
    split at h
    case h_1 failure' hconnect =>
      unfold connectTip at hconnect
      rw [if_neg (not_not.mpr hparent)] at hconnect
      split at hconnect
      case h_1 => cases hconnect
      case h_2 => cases hconnect
      case h_3 hverdict => exact ⟨i, hverdict⟩
    case h_2 => cases h
    case h_3 s₁ hconnect =>
      obtain ⟨htip₁, hcandidates, hsame₁, -⟩ := connectTip_connected hconnect
      have htarget₁ : target ∈ s₁.setBlockIndexCandidates := hcandidates ▸ htarget
      have hrank : t.rank s₁ s₁.tip ≤ t.rank s₁ target :=
        rank_le_of_isAncestor (htip₁ ▸ hrest.isAncestor)
      obtain ⟨s₂, hprune⟩ := exists_pruneBlockIndexCandidates htarget₁ hrank
      obtain ⟨-, htip₂, hmem⟩ := pruneBlockIndexCandidates_spec hprune
      rw [hprune] at h
      dsimp only at h
      split at h
      case isTrue => cases h
      case isFalse => exact ih hrest (htip₂.trans htip₁) ((hmem target).mpr ⟨htarget₁, hrank⟩) h

omit [LinearOrder ι] in
theorem isPath_blocksToConnect {fork : ι} (h : t.IsAncestor fork target) :
    t.IsPath fork (t.blocksToConnect fork target) target := by
  obtain ⟨path, hpath⟩ := h.exists_path
  have hlength := hpath.length_eq
  have heq : t.blocksToConnect fork target = path := by
    have hmap := congrArg (List.filterMap id) hpath.map_ancestor
    rw [blocksToConnect, show t.height target - t.height fork = path.length by omega]
    simpa [filterMap_map] using hmap
  rw [heq]
  exact hpath

theorem connected_of_activateBestChainStep
    (h : t.activateBestChainStep verdict s target = .ok (fInvalidFound, s')) :
    Connected t verdict s target fInvalidFound s' := by
  obtain ⟨fork, hfork, hlast⟩ := t.exists_lastCommonAncestor s.tip target
  unfold activateBestChainStep at h
  rw [hfork] at h
  split at h
  case isTrue => cases h
  case isFalse =>
    have hconnected := connected_of_connectBlocksTo (isPath_blocksToConnect hlast.right) rfl h
    exact
      { hconnected with
        common := fun i hi hi' => hconnected.common i (hlast.last hi hi') hi'
        progress := by
          intro hvalid htip
          have hle := (hlast.last (.refl s.tip) htip).height_le
          rcases hconnected.progress hvalid hlast.right with htarget | hlt
          · exact .inl htarget
          · exact .inr (lt_of_le_of_lt hle hlt) }

theorem systemError_of_activateBestChainStep {failure : Failure}
    (hallowed : t.isAutomaticReorgAllowed s.tip target = true)
    (htarget : target ∈ s.setBlockIndexCandidates)
    (h : t.activateBestChainStep verdict s target = .error failure) :
    ∃ x, verdict x = .systemError := by
  obtain ⟨fork, hfork, hlast⟩ := t.exists_lastCommonAncestor s.tip target
  unfold activateBestChainStep at h
  rw [hfork, hallowed, if_neg (by decide)] at h
  exact systemError_of_connectBlocksTo (s := { s with tip := fork })
    (isPath_blocksToConnect hlast.right) rfl htarget h

end BlockTree

end Verge
