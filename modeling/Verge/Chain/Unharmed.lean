import Mathlib.Order.MinMax
import Verge.Chain.Interleaving
import Verge.Chain.Linking

/-!
# Blocks that nothing stands against

A block is out of the way of `BLOCK_FAILED_VALID` and `BLOCK_FAILED_CHILD` as long
as neither it nor a block below it is found invalid, whatever happens to the other
blocks.  The state changes of `AcceptBlock` and `ActivateBestChain` are followed
under that assumption.
-/

namespace Verge

open Foundation List BlockTree
open scoped CChainState

variable {ι : Type} [LinearOrder ι] {t : BlockTree ι} {s s' s'' : CChainState ι} {i j : ι}

/-! ## The blocks below a block -/

namespace BlockTree

/-- Nothing stands against a block: no block up to it is marked or listed as
failed, and blocks wait for their parents only. -/
structure Unharmed (t : BlockTree ι) (s : CChainState ι) (i : ι) : Prop where
  unfailed : t.Unfailed s i
  unlisted : ∀ j, t.IsAncestor j i → j ∉ s.m_failed_blocks
  linked : ∀ p ∈ s.mapBlocksUnlinked, t.parent p.2 = some p.1

/-- A change of the state that marks and lists no block up to `i` and gives no
data to `i`. -/
structure Spares (t : BlockTree ι) (i : ι) (s s' : CChainState ι) : Prop where
  failed : ∀ j, t.IsAncestor j i → (s.entry j).failed = false → (s'.entry j).failed = false
  listed : ∀ j, t.IsAncestor j i → j ∈ s'.m_failed_blocks → j ∈ s.m_failed_blocks
  linked : ∀ p ∈ s'.mapBlocksUnlinked, p ∈ s.mapBlocksUnlinked ∨ t.parent p.2 = some p.1
  haveData : (s'.entry i).haveData = true → (s.entry i).haveData = true

namespace Spares

omit [LinearOrder ι]

theorem of_eq (hentry : s'.entry = s.entry) (hlisted : s'.m_failed_blocks = s.m_failed_blocks)
    (hlinked : s'.mapBlocksUnlinked = s.mapBlocksUnlinked) : Spares t i s s' where
  failed _ _ h := hentry ▸ h
  listed _ _ h := hlisted ▸ h
  linked _ h := .inl (hlinked ▸ h)
  haveData h := hentry ▸ h

theorem refl (t : BlockTree ι) (i : ι) (s : CChainState ι) : Spares t i s s :=
  of_eq rfl rfl rfl

theorem trans (h : Spares t i s s') (h' : Spares t i s' s'') : Spares t i s s'' where
  failed j hj hs := h'.failed j hj (h.failed j hj hs)
  listed j hj hs := h.listed j hj (h'.listed j hj hs)
  linked p hp := (h'.linked p hp).elim (h.linked p) .inr
  haveData hs := h.haveData (h'.haveData hs)

end Spares

omit [LinearOrder ι] in
theorem Unharmed.spares (hs : Unharmed t s i) (h : Spares t i s s') : Unharmed t s' i where
  unfailed j hj := h.failed j hj (hs.unfailed j hj)
  unlisted j hj hlisted := hs.unlisted j hj (h.listed j hj hlisted)
  linked p hp := (h.linked p hp).elim (hs.linked p) id

theorem unharmed_genesisState (t : BlockTree ι) (i : ι) : Unharmed t t.genesisState i where
  unfailed j _ := by
    unfold genesisState
    dsimp only
    split <;> rfl
  unlisted _ _ := not_mem_nil
  linked _ h := absurd h not_mem_nil

/-! ### `ActivateBestChain` -/

theorem linked_findMostWorkLoop {n : Nat} {target : Option ι}
    (h : t.findMostWorkLoop n s = .ok (target, s')) :
    ∀ p ∈ s'.mapBlocksUnlinked, p ∈ s.mapBlocksUnlinked ∨ t.parent p.2 = some p.1 := by
  induction n generalizing s with
  | zero =>
    cases h
    exact fun p hp => .inl hp
  | succ n ih =>
    unfold findMostWorkLoop at h
    split at h
    case h_1 =>
      cases h
      exact fun p hp => .inl hp
    case h_2 j hj =>
      split at h
      case isTrue => exact fun p hp => ih h p hp
      case isFalse =>
        split at h
        case h_1 => cases h
        case h_2 =>
          cases h
          exact fun p hp => .inl hp
        case h_3 x hx =>
          intro p hp
          refine (ih h p hp).elim (fun hp => ?_) .inr
          simp only [removeUnusable] at hp
          split at hp
          · exact .inl hp
          · rcases mem_append.mp hp with hp | hp
            · exact .inl hp
            · obtain ⟨k, -, hk⟩ := mem_filterMap.mp hp
              obtain ⟨q, hq, rfl⟩ := Option.map_eq_some_iff.mp hk
              exact .inr hq

theorem spares_findMostWorkLoop {n : Nat} {target : Option ι} (hs : Unharmed t s i)
    (h : t.findMostWorkLoop n s = .ok (target, s')) : Spares t i s s' := by
  have hsearched := searched_findMostWorkLoop h
  refine ⟨fun j hj hfailed => ?_, fun j _ => ?_, linked_findMostWorkLoop h, ?_⟩
  · rcases hsearched.entry j with heq | ⟨-, x, hx, -, -, hxfailed⟩
    · rw [heq, hfailed]
    · simp [hs.unfailed x (hx.trans hj)] at hxfailed
  · rw [hsearched.rest]
    exact id
  · rw [hsearched.haveData]
    exact id

theorem spares_pruneBlockIndexCandidates (h : t.pruneBlockIndexCandidates s = .ok s') :
    Spares t i s s' := by
  simp only [pruneBlockIndexCandidates] at h
  split at h
  · cases h
  · cases h
    exact .of_eq rfl rfl rfl

def NoneInvalid (t : BlockTree ι) (i : ι) (verdict : ι → Verdict) : Prop :=
  ∀ j, t.IsAncestor j i → verdict j ≠ .invalid false

variable {verdict : ι → Verdict} (hverdict : t.NoneInvalid i verdict)

include hverdict

theorem spares_connectTip {connected : Bool} (h : t.connectTip verdict s j = .ok (connected, s')) :
    Spares t i s s' := by
  unfold connectTip at h
  split at h
  case isTrue => cases h
  case isFalse =>
    split at h
    case h_1 =>
      cases h
      refine ⟨fun k _ hk => ?_, fun _ _ hk => hk, fun p hp => .inl hp, ?_⟩
      · simp only [CChainState.entry_modify]
        split
        · rw [raiseValidity_fields]
          exact hk
        · exact hk
      · simp only [CChainState.entry_modify]
        split
        · rw [raiseValidity_fields]
          exact id
        · exact id
    case h_2 corruptionPossible hj =>
      cases h
      unfold invalidBlockFound
      split
      case isTrue => exact .refl t i s
      case isFalse hcorrupt =>
        have hnot : ∀ k, t.IsAncestor k i → k ≠ j := by
          rintro k hk rfl
          exact hverdict k hk (by simpa [hcorrupt] using hj)
        refine ⟨fun k hk hfailed => ?_, fun k hk hlisted => ?_, fun p hp => .inl hp, ?_⟩
        · exact (congrArg CBlockIndex.failed (if_neg (by simpa using hnot k hk))).trans hfailed
        · rcases mem_cons.mp hlisted with rfl | hlisted
          · exact absurd rfl (hnot k hk)
          · exact (mem_filter.mp hlisted).1
        · exact (congrArg CBlockIndex.haveData
            (if_neg (by simpa using hnot i (.refl i)))).symm.trans
    case h_3 => cases h

theorem spares_connectBlocksTo {pindexOldTip : ι} {path : List ι} {fInvalidFound : Bool}
    (h : t.connectBlocksTo verdict pindexOldTip path s = .ok (fInvalidFound, s')) :
    Spares t i s s' := by
  induction path generalizing s with
  | nil =>
    cases h
    exact .refl t i _
  | cons j path ih =>
    unfold connectBlocksTo at h
    split at h
    case h_1 => cases h
    case h_2 hconnect =>
      cases h
      exact spares_connectTip hverdict hconnect
    case h_3 s₁ hconnect =>
      split at h
      case h_1 => cases h
      case h_2 s₂ hprune =>
        have hspares := (spares_connectTip hverdict hconnect).trans
          (spares_pruneBlockIndexCandidates hprune)
        split at h
        case isTrue =>
          cases h
          exact hspares
        case isFalse => exact hspares.trans (ih h)

theorem spares_activateBestChainStep {target : ι} {fInvalidFound : Bool}
    (h : t.activateBestChainStep verdict s target = .ok (fInvalidFound, s')) : Spares t i s s' := by
  unfold activateBestChainStep at h
  split at h
  case isTrue => cases h
  case isFalse =>
    split at h
    case h_1 => cases h
    case h_2 fork hfork =>
      have hspares : Spares t i s { s with tip := fork } := .of_eq rfl rfl rfl
      exact hspares.trans (spares_connectBlocksTo hverdict h)

end BlockTree

inductive Activates (t : BlockTree ι) (allowed : (ι → Verdict) → Prop) (a : Activation ι) :
    Activation ι → Prop
  | start : Activates t allowed a a
  | move {b c : Activation ι} {made : Option (Round ι)} {verdict : ι → Verdict} {shutdown : Bool}
      (before : Activates t allowed a b) (answers : allowed verdict)
      (next : b.next t verdict shutdown = .ok (made, c)) : Activates t allowed a c

theorem Activation.spares_next {verdict : ι → Verdict} {shutdown : Bool} {a b : Activation ι}
    {made : Option (Round ι)} (hverdict : t.NoneInvalid i verdict) (hs : t.Unharmed a.state i)
    (h : a.next t verdict shutdown = .ok (made, b)) : t.Spares i a.state b.state := by
  have hchoose : ∀ {found s}, a.chooseTarget t = .ok (found, s) → t.Spares i a.state s := by
    intro found s hchoose
    unfold chooseTarget at hchoose
    split at hchoose
    · cases hchoose
      exact .refl t i _
    · exact spares_findMostWorkLoop hs hchoose
  cases move_of_next h with
  | idle => exact .refl t i a.state
  | stop => exact .refl t i a.state
  | lock => exact .refl t i a.state
  | settle _ hsettled => simpa using hchoose hsettled
  | again _ htarget _ hstep =>
    exact (hchoose htarget).trans (spares_activateBestChainStep hverdict hstep)
  | leave _ htarget _ hstep =>
    rw [leaveInnerLoop_state]
    exact (hchoose htarget).trans (spares_activateBestChainStep hverdict hstep)

theorem Activates.spares {allowed : (ι → Verdict) → Prop} {a b : Activation ι}
    (hallowed : ∀ verdict, allowed verdict → t.NoneInvalid i verdict) (hs : t.Unharmed a.state i)
    (h : Activates t allowed a b) : t.Spares i a.state b.state := by
  induction h with
  | start => exact .refl t i _
  | move _ hanswers hnext ih =>
    exact ih.trans (Activation.spares_next (hallowed _ hanswers) (hs.spares ih) hnext)

/-! ### `AcceptBlock` -/

namespace BlockTree

theorem spares_modify {blocks : List ι} {f : CBlockIndex → CBlockIndex}
    (h : ∀ k, t.IsAncestor k i → k ∉ blocks) : Spares t i s (s.modify blocks f) where
  failed k hk hfailed := by rwa [CChainState.entry_modify_of_notMem (h k hk)]
  listed _ _ hk := hk
  linked _ hp := .inl hp
  haveData := by
    rw [CChainState.entry_modify_of_notMem (h i (.refl i))]
    exact id

theorem spares_acceptBlockHeader {headerValid accepted : Bool} (hs : Unharmed t s i)
    (h : t.acceptBlockHeader s j headerValid = .ok (accepted, s')) : Spares t i s s' := by
  unfold acceptBlockHeader at h
  split at h
  case isTrue =>
    cases h
    exact .refl t i _
  case isFalse =>
    split at h
    case h_1 =>
      cases h
      exact .refl t i _
    case h_2 pprev hparent =>
      split at h
      case isTrue =>
        cases h
        exact .refl t i _
      case isFalse =>
        split at h
        case h_1 failedit hmin =>
          split at h
          case isTrue => cases h
          case isFalse =>
            cases h
            have hchoice : Std.MinEqOr ι := ⟨fun a b => min_choice a b⟩
            have hmem := mem_filter.mp (List.min?_mem hmin)
            have hbelow : t.IsAncestor failedit pprev := by
              simpa using (Bool.and_eq_true_iff.mp hmem.2).2
            -- a block that is marked lies above one that is listed
            have hnot : ∀ k, t.IsAncestor k i →
                k ∉ t.downTo failedit (t.height pprev) pprev := by
              intro k hk hdown
              have habove := ((mem_downTo hbelow (by omega)).mp hdown).2.1
              exact hs.unlisted failedit (habove.trans hk) hmem.1
            exact spares_modify hnot
        case h_2 =>
          cases h
          refine ⟨fun k _ hfailed => ?_, fun _ _ hk => hk, fun p hp => .inl hp, ?_⟩
          · simp only [CChainState.entry_modify]
            split
            · rfl
            · exact hfailed
          · simp only [CChainState.entry_modify]
            split
            · intro hdata
              cases hdata
            · exact id

theorem linkOne_entry (k : ι) : ((t.linkOne s j).entry k).failed = (s.entry k).failed ∧
    ((t.linkOne s j).entry k).haveData = (s.entry k).haveData := by
  rw [entry_linkOne]
  by_cases hk : k = j
  · rw [hk, entry_numbered_self]
    exact ⟨rfl, rfl⟩
  · rw [entry_numbered_of_ne hk]
    exact ⟨rfl, rfl⟩

theorem spares_linkOne : Spares t i s (t.linkOne s j) := by
  have hlisted : (t.linkOne s j).m_failed_blocks = s.m_failed_blocks := by rw [linkOne_rest]
  exact ⟨fun k _ hk => (linkOne_entry k).1.trans hk, fun k _ hk => hlisted ▸ hk,
    fun p hp => .inl (mem_filter.mp hp).1, fun hdata => (linkOne_entry i).2.symm.trans hdata⟩

theorem spares_linkQueue (n : Nat) (queue : List ι) (s : CChainState ι) :
    Spares t i s (t.linkQueue n queue s) := by
  induction n generalizing queue s with
  | zero => exact .refl t i s
  | succ n ih =>
    cases queue with
    | nil => exact .refl t i s
    | cons j queue =>
      rw [linkQueue_cons]
      exact spares_linkOne.trans (ih _ _)

theorem linkQueue_haveData (n : Nat) (queue : List ι) (s : CChainState ι) (k : ι) :
    ((t.linkQueue n queue s).entry k).haveData = (s.entry k).haveData := by
  induction n generalizing queue s with
  | zero => rfl
  | succ n ih =>
    cases queue with
    | nil => rfl
    | cons j queue =>
      rw [linkQueue_cons, ih]
      exact (linkOne_entry k).2

theorem receivedBlockTransactions_eq : t.receivedBlockTransactions s j =
    match t.parent j with
    | none => t.linkQueue (s.mapBlocksUnlinked.length + 1) [j] (t.received s j)
    | some pprev =>
      if ((t.received s j).entry pprev).nChainTx ≠ 0 then
        t.linkQueue (s.mapBlocksUnlinked.length + 1) [j] (t.received s j)
      else if ((t.received s j).entry pprev).isValid BLOCK_VALID_TREE then
        { t.received s j with
          mapBlocksUnlinked := (t.received s j).mapBlocksUnlinked ++ [(pprev, j)] }
      else t.received s j := rfl

theorem receivedBlockTransactions_haveData :
    ((t.receivedBlockTransactions s j).entry j).haveData = true := by
  have hreceived : ((t.received s j).entry j).haveData = true := by
    rw [entry_received_self, raiseValidity_fields]
  rw [receivedBlockTransactions_eq]
  split
  case h_1 => rw [linkQueue_haveData, hreceived]
  case h_2 =>
    split_ifs
    · rw [linkQueue_haveData, hreceived]
    · exact hreceived
    · exact hreceived

theorem spares_receivedBlockTransactions :
    Spares t i (t.received s j) (t.receivedBlockTransactions s j) := by
  rw [receivedBlockTransactions_eq]
  split
  case h_1 => exact spares_linkQueue _ _ _
  case h_2 pprev hparent =>
    split_ifs
    · exact spares_linkQueue _ _ _
    · refine ⟨fun _ _ hk => hk, fun _ _ hk => hk, fun p hp => ?_, id⟩
      rcases mem_append.mp hp with hp | hp
      · exact .inl hp
      · rw [mem_singleton.mp hp]
        exact .inr hparent
    · exact .refl t i _

theorem received_failed (k : ι) : ((t.received s j).entry k).failed = (s.entry k).failed := by
  by_cases hk : k = j
  · rw [hk, entry_received_self, raiseValidity_fields]
    rfl
  · rw [entry_received_of_ne hk]

theorem Unharmed.received (hs : Unharmed t s i) : Unharmed t (t.received s j) i where
  unfailed k hk := (received_failed k).trans (hs.unfailed k hk)
  unlisted := hs.unlisted
  linked := hs.linked

section

variable {fRequested : Bool} {nMinimumChainWork : Nat} {verdict : Verdict} (hne : j ≠ i)
  (hverdict : t.IsAncestor j i → verdict ≠ .invalid false)

include hne hverdict

theorem spares_acceptBlockData
    (h : t.acceptBlockData s j fRequested nMinimumChainWork verdict = .ok s') :
    Spares t i s s' := by
  unfold acceptBlockData at h
  split at h
  case isTrue =>
    cases h
    exact .refl t i _
  case isFalse =>
    split at h
    case h_1 =>
      cases h
      have hreceived : Spares t i s (t.received s j) :=
        ⟨fun k _ hk => (received_failed k).trans hk, fun _ _ hk => hk, fun p hp => .inl hp,
          by rw [entry_received_of_ne hne.symm]; exact id⟩
      exact hreceived.trans spares_receivedBlockTransactions
    case h_2 =>
      cases h
      have hnot : ∀ k, t.IsAncestor k i → k ∉ [j] := by
        rintro k hk hkj
        rw [mem_singleton.mp hkj] at hk
        exact hverdict hk rfl
      exact spares_modify hnot
    case h_3 =>
      cases h
      exact .refl t i _
    case h_4 => cases h

theorem spares_acceptBlock {headerValid : Bool} (hs : Unharmed t s i)
    (h : t.acceptBlock s j headerValid fRequested nMinimumChainWork verdict = .ok s') :
    Spares t i s s' := by
  unfold acceptBlock at h
  split at h
  case h_1 => cases h
  case h_2 hheader =>
    cases h
    exact spares_acceptBlockHeader hs hheader
  case h_3 s₁ hheader =>
    exact (spares_acceptBlockHeader hs hheader).trans (spares_acceptBlockData hne hverdict h)

end

/-! ## How such a block gets on -/

theorem acceptBlockHeader_unharmed {p : ι} (hs : Unharmed t s i) (hparent : t.parent i = some p)
    (hknown : p ∈ s.mapBlockIndex) :
    ∃ s', t.acceptBlockHeader s i true = .ok (true, s') ∧ s'.tip = s.tip ∧
      (∀ k, k ≠ i → s'.entry k = s.entry k) ∧
      ((s.entry i).haveData = false → (s'.entry i).haveData = false) := by
  unfold acceptBlockHeader
  by_cases hmem : i ∈ s.mapBlockIndex
  · refine ⟨s, ?_, rfl, fun _ _ => rfl, id⟩
    rw [if_pos hmem, hs.unfailed i (.refl i)]
    rfl
  · have hfailed : (s.entry p).failed = false := hs.unfailed p (.of_parent hparent)
    have hnone : (s.m_failed_blocks.filter fun k =>
        !(s.entry p).isValid BLOCK_VALID_SCRIPTS && t.IsAncestor k p) = [] := by
      rw [List.filter_eq_nil_iff]
      intro k hk hcond
      have hanc : t.IsAncestor k p := by simpa using (Bool.and_eq_true_iff.mp hcond).2
      exact hs.unlisted k (hanc.trans (.of_parent hparent)) hk
    refine ⟨{ s.modify [i] (fun _ => CBlockIndex.ofHeader) with
        mapBlockIndex := i :: s.mapBlockIndex }, ?_, rfl, fun k hk => ?_, fun _ => ?_⟩
    · rw [if_neg hmem, hparent]
      dsimp only
      rw [if_neg (by simp [hknown, hfailed]), hnone]
      rfl
    · exact if_neg (by simpa using hk)
    · simp [CChainState.entry_modify, CBlockIndex.ofHeader]

theorem linkQueue_above {n h : Nat} {queue : List ι}
    (hlinked : ∀ p ∈ s.mapBlocksUnlinked, t.parent p.2 = some p.1)
    (hqueue : ∀ k ∈ queue, h < t.height k) :
    (t.linkQueue n queue s).tip = s.tip ∧
      (∀ k, t.height k ≤ h → (t.linkQueue n queue s).entry k = s.entry k) ∧
      ∀ k ∈ s.setBlockIndexCandidates, k ∈ (t.linkQueue n queue s).setBlockIndexCandidates := by
  induction n generalizing queue s with
  | zero => exact ⟨rfl, fun _ _ => rfl, fun _ hk => hk⟩
  | succ n ih =>
    cases queue with
    | nil => exact ⟨rfl, fun _ _ => rfl, fun _ hk => hk⟩
    | cons j queue =>
      rw [forall_mem_cons] at hqueue
      have hwaiting : ∀ k ∈ queue ++ waitingFor s j, h < t.height k := by
        intro k hk
        rcases mem_append.mp hk with hk | hk
        · exact hqueue.2 k hk
        · have hheight : t.height k = t.height j + 1 :=
            t.height_parent (hlinked (j, k) (mem_waitingFor.mp hk))
          omega
      have htip : (t.linkOne s j).tip = s.tip := by rw [linkOne_rest]
      rw [linkQueue_cons]
      obtain ⟨htip', hentry, hkept⟩ := ih (s := t.linkOne s j)
        (fun p hp => hlinked p (mem_filter.mp hp).1) hwaiting
      refine ⟨htip'.trans htip, fun k hk => ?_,
        fun k hk => hkept k (mem_candidates_linkOne.mpr (.inl hk))⟩
      rw [hentry k hk, entry_linkOne, entry_numbered_of_ne]
      rintro rfl
      exact absurd hqueue.1 (by omega)

theorem isAutomaticReorgAllowed_onTip {tip : ι} (hparent : t.parent i = some tip) :
    t.isAutomaticReorgAllowed tip i = true := by
  obtain ⟨p, hp, hprotected⟩ := exists_protected t tip
  exact (isAutomaticReorgAllowed_iff hp hprotected).mpr (hp.trans (.of_parent hparent))

variable (hs : Unharmed t s i) (hparent : t.parent i = some s.tip)
  (hcandidate : i ∈ s.setBlockIndexCandidates)

include hparent hcandidate

theorem activateBestChainStep_onTip {verdict : ι → Verdict} (hverdict : verdict i = .valid) :
    ∃ s', t.activateBestChainStep verdict s i = .ok (false, s') ∧ s'.tip = i := by
  have hheight := t.height_parent hparent
  have hfork : t.lastCommonAncestor s.tip i = some s.tip := by
    obtain ⟨fork, hfork, hlast⟩ := t.exists_lastCommonAncestor s.tip i
    rw [hfork, hlast.left.antisymm (hlast.last (.refl _) (.of_parent hparent))]
  have hpath : t.blocksToConnect s.tip i = [i] := by
    have hself : t.ancestor i (t.height s.tip + 1) = some i :=
      Ancestry.ancestor_eq_some.mpr ⟨.refl i, hheight⟩
    rw [blocksToConnect, show t.height i - t.height s.tip = 1 by omega, List.range'_one,
      filterMap_cons_some hself, filterMap_nil]
  -- the candidates that are left contain the new tip itself
  obtain ⟨s', hprune⟩ : ∃ s', t.pruneBlockIndexCandidates
      { s.modify [i] (fun entry => CBlockIndex.raiseValidity { entry with haveUndo := true }
        BLOCK_VALID_SCRIPTS) with tip := i } = .ok s' := by
    simp only [pruneBlockIndexCandidates]
    rw [if_neg ?_]
    · exact ⟨_, rfl⟩
    · rw [List.isEmpty_iff, List.filter_eq_nil_iff]
      intro hall
      exact hall i hcandidate (by simp [worse])
  refine ⟨s', ?_, (pruneBlockIndexCandidates_spec hprune).2.1⟩
  unfold activateBestChainStep
  rw [isAutomaticReorgAllowed_onTip hparent, hfork]
  simp only [Bool.not_true, Bool.false_eq_true, if_false, hpath, connectBlocksTo, connectTip,
    hparent, hverdict, ne_eq, not_true_eq_false]
  erw [hprune]
  simp only [ite_self]

include hs

omit hcandidate in
theorem receivedBlockTransactions_onTip (hchainTx : (s.entry s.tip).nChainTx ≠ 0)
    (hcount : ((s.entry s.tip).nChainTx + t.nTx i) % 2 ^ 32 ≠ 0) :
    (t.receivedBlockTransactions s i).tip = s.tip ∧
      ((t.receivedBlockTransactions s i).entry i).nChainTx ≠ 0 ∧
      i ∈ (t.receivedBlockTransactions s i).setBlockIndexCandidates := by
  have hheight := t.height_parent hparent
  have hne : s.tip ≠ i := by
    intro heq
    rw [heq] at hheight
    omega
  have htip : (t.received s i).entry s.tip = s.entry s.tip := entry_received_of_ne hne
  have hunfold : t.receivedBlockTransactions s i =
      t.linkQueue s.mapBlocksUnlinked.length (waitingFor (t.received s i) i)
        (t.linkOne (t.received s i) i) := by
    have hlink : t.receivedBlockTransactions s i =
        t.linkQueue (s.mapBlocksUnlinked.length + 1) [i] (t.received s i) := by
      rw [receivedBlockTransactions_eq, hparent]
      exact if_pos (by rw [htip]; exact hchainTx)
    rw [hlink, linkQueue_cons, nil_append]
  have hlinked : ∀ p ∈ (t.linkOne (t.received s i) i).mapBlocksUnlinked,
      t.parent p.2 = some p.1 := fun p hp => hs.linked p (mem_filter.mp hp).1
  have hwaiting : ∀ k ∈ waitingFor (t.received s i) i, t.height i < t.height k := by
    intro k hk
    have hheight : t.height k = t.height i + 1 :=
      t.height_parent (hs.linked (i, k) (mem_waitingFor.mp hk))
    omega
  obtain ⟨htip', hentry, hkept⟩ :=
    linkQueue_above (n := s.mapBlocksUnlinked.length) hlinked hwaiting
  rw [hunfold, htip', hentry i le_rfl, entry_linkOne, entry_numbered_self, hparent,
    entry_received_self, raiseValidity_fields]
  refine ⟨?_, ?_, hkept i ?_⟩
  · rw [linkOne_rest]
    rfl
  · simpa [htip] using hcount
  · have hbetter : t.worse (t.numbered (t.received s i) i) i (t.received s i).tip = false :=
      not_worse_iff.mpr (rank_le_of_height_lt (show t.height s.tip < t.height i by omega)).le
    exact mem_candidates_linkOne.mpr (.inr ⟨rfl, hbetter⟩)

variable (hdata : (s.entry i).haveData = true) (hchainTx : (s.entry i).nChainTx ≠ 0)
  (hbest : ∀ j ∈ s.setBlockIndexCandidates, t.worse s i j = false)

include hdata hchainTx hbest

theorem findMostWorkChain_onTip : t.findMostWorkChain s = .ok (some i, s) := by
  have hheight := t.height_parent hparent
  have hrbegin : t.rbegin s s.setBlockIndexCandidates = some i := by
    cases hfirst : t.rbegin s s.setBlockIndexCandidates with
    | none =>
      rw [rbegin_eq_none hfirst] at hcandidate
      cases hcandidate
    | some best =>
      obtain ⟨hmem, hle⟩ := rbegin_eq_some hfirst
      have heq := le_antisymm (not_worse_iff.mp (hbest best hmem)) (hle i hcandidate)
      rw [t.rank_injective s heq]
  have hwalk : t.findUnusable s (t.height i) i = .ok none := by
    have hnot : ¬t.IsAncestor i s.tip := by
      intro hanc
      have := hanc.height_le
      omega
    rw [hheight]
    unfold findUnusable
    rw [if_neg hnot, if_neg (by simp [hchainTx]), if_neg (by simp [hs.unfailed i (.refl i), hdata]),
      hparent]
    unfold findUnusable
    exact if_pos (.refl s.tip)
  obtain ⟨n, hn⟩ : ∃ n, s.setBlockIndexCandidates.length = n + 1 :=
    Nat.exists_eq_succ_of_ne_zero (length_pos_of_mem hcandidate).ne'
  unfold findMostWorkChain
  rw [hn, findMostWorkLoop]
  simp only [hrbegin, isAutomaticReorgAllowed_onTip hparent, hwalk, Bool.not_true,
    Bool.false_eq_true, if_false]

theorem exists_activates_onTip {allowed : (ι → Verdict) → Prop} {verdict : ι → Verdict}
    (hallowed : allowed verdict) (hverdict : verdict i = .valid) :
    ∃ a, Activates t allowed (.start s) a ∧ a.phase = .returned ∧ a.state.tip = i := by
  have hne : i ≠ s.tip := by
    intro heq
    have hheight := t.height_parent hparent
    rw [← heq] at hheight
    omega
  obtain ⟨s', hstep, htip⟩ := activateBestChainStep_onTip hparent hcandidate hverdict
  have hworse : t.worse s' i s.tip = false :=
    not_worse_iff.mpr (rank_le_of_height_lt
      (by have := t.height_parent hparent; omega)).le
  let locked : Activation ι := { Activation.start s with phase := .locked }
  have hlock : (Activation.start s).next t verdict false = .ok (none, locked) := rfl
  have hround : locked.next t verdict false = .ok (some ⟨i, i⟩,
      ⟨s', some i, some i, s.tip, true, .returned⟩) := by
    have hchoose : locked.chooseTarget t = .ok (some i, s) :=
      findMostWorkChain_onTip hs hparent hcandidate hdata hchainTx hbest
    change locked.round t verdict = _
    unfold Activation.round
    simp only [hchoose, if_neg hne, hstep, htip, Bool.false_eq_true, if_false]
    rw [if_neg (by rw [show locked.startingTip = s.tip from rfl, hworse]; simp)]
    simp [Activation.leaveInnerLoop, locked, Activation.start]
  exact ⟨_, (Activates.start.move hallowed hlock).move hallowed hround, rfl, htip⟩

end BlockTree

end Verge
