import Verge.Chain.BlockIndex
import Verge.Chain.Linking

/-!
# What the live block index holds

While headers and blocks arrive and nothing is connected, a block fails only
before it is stored, and every entry has the height, work, time and skip pointer
that its chain gives it.
-/

namespace Verge

open Foundation List BlockTree Ancestry Option CBlockIndex
open scoped CChainState

/-! ## The chain state while headers and blocks arrive -/

section Stored

variable {ι : Type} [LinearOrder ι] {t : BlockTree ι} {s s' : CChainState ι} {i : ι}

def CChainState.Refused (s : CChainState ι) (i : ι) : Prop :=
  i ∈ s.mapBlockIndex ∧ (s.entry i).failedValid = true ∧ (s.entry i).haveData = false

/-- No block is ever connected, so blocks fail before they are stored only. -/
structure CBlockIndex.Unconnected (entry : CBlockIndex) : Prop where
  failedChild : entry.failedChild = false
  haveUndo : entry.haveUndo = false
  failedValid : entry.failedValid = true → entry.haveData = false
  validity_ge : BLOCK_VALID_TREE ≤ entry.validity
  validity_le : entry.validity ≤ BLOCK_VALID_TRANSACTIONS

structure CChainState.Stored (t : BlockTree ι) (s : CChainState ι) : Prop where
  linking : t.Linking s.Refused [] s
  nodup : s.mapBlockIndex.Nodup
  tip : s.tip = t.root
  root_mem : t.root ∈ s.mapBlockIndex
  root_linked : (s.entry t.root).nChainTx ≠ 0
  failedBlocks : s.m_failed_blocks = []
  entry : ∀ i ∈ s.mapBlockIndex, (s.entry i).Unconnected

namespace CChainState.Stored

theorem genesisState (hcounts : t.SmallCounts) : Stored t t.genesisState := by
  have hroot : t.genesisState.entry t.root =
      ⟨BLOCK_VALID_TRANSACTIONS, true, false, false, false, t.nTx t.root,
        t.nTx t.root % 2 ^ 32, 1⟩ := if_pos rfl
  have hlt := hcounts.lt t.root
  rw [chainTx_root] at hlt
  have hpos := hcounts.pos t.root
  have hmod : t.nTx t.root % 2 ^ 32 = t.nTx t.root := Nat.mod_eq_of_lt hlt
  have hmem : ∀ {i}, i ∈ t.genesisState.mapBlockIndex → i = t.root := by
    intro i hi
    exact mem_singleton.mp hi
  have hparent : ∀ p, t.parent t.root ≠ some p := by
    intro p hp
    rw [parent_root] at hp
    cases hp
  refine ⟨⟨?_, ?_, ?_, ?_, fun p i h => absurd h (by simp [BlockTree.genesisState]), .nil, ?_,
    fun i h => absurd h (by simp), .nil, fun i h => h.2.2⟩, nodup_singleton _, rfl,
    mem_singleton_self _, ?_, rfl, ?_⟩
  · intro i hi
    rw [hmem hi, hroot]
    rfl
  · intro i hi _
    rw [hmem hi, hroot, chainTx_root]
    exact ⟨rfl, hmod, fun p hp => absurd hp (hparent p)⟩
  · intro i hi _ _
    rw [hmem hi, hroot]
    exact .inl (hmod.trans_ne hpos.ne')
  · intro i hi _ p hp
    rw [hmem hi] at hp
    exact absurd hp (hparent p)
  · intro i hi p hp
    rw [hmem hi] at hp
    exact absurd hp (hparent p)
  · rw [hroot]
    exact hmod.trans_ne hpos.ne'
  · intro i hi
    rw [hmem hi, hroot]
    exact ⟨rfl, rfl, fun h => absurd h (by simp),
      (by decide : BLOCK_VALID_TREE ≤ BLOCK_VALID_TRANSACTIONS), le_refl BLOCK_VALID_TRANSACTIONS⟩

section

variable (h : Stored t s)

include h

omit [LinearOrder ι] in
theorem failed_eq (hi : i ∈ s.mapBlockIndex) : (s.entry i).failed = (s.entry i).failedValid := by
  rw [failed, (h.entry i hi).failedChild, Bool.or_false]

omit [LinearOrder ι] in
theorem root_data : (s.entry t.root).haveData = true :=
  (h.linking.chainTx t.root h.root_mem h.root_linked).1

omit [LinearOrder ι] in
theorem mem_of_isAncestor {a : ι} (hi : i ∈ s.mapBlockIndex) (ha : t.IsAncestor a i) :
    a ∈ s.mapBlockIndex := by
  obtain ⟨n, hn⟩ := ha
  induction n generalizing i with
  | zero =>
    cases hn
    exact hi
  | succ n ih =>
    obtain ⟨j, hj, hup⟩ := bind_eq_some_iff.mp hn
    exact ih (h.linking.parent_mem i hi j hj) hup

theorem acceptBlockHeader {headerValid accepted : Bool}
    (heq : t.acceptBlockHeader s i headerValid = .ok (accepted, s')) :
    (s' = s ∧ (accepted = true → i ∈ s.mapBlockIndex ∧ (s.entry i).failedValid = false)) ∨
      (accepted = true ∧ headerValid = true ∧ i ∉ s.mapBlockIndex ∧
        (∃ p, t.parent i = some p ∧ p ∈ s.mapBlockIndex) ∧
        s' = { s.modify [i] (fun _ => ofHeader) with
          mapBlockIndex := i :: s.mapBlockIndex }) := by
  unfold BlockTree.acceptBlockHeader at heq
  split at heq
  case isTrue hi =>
    cases heq
    refine .inl ⟨rfl, fun haccepted => ⟨hi, ?_⟩⟩
    rw [h.failed_eq hi, Bool.or_eq_true_iff, Bool.not_eq_true', beq_iff_eq] at haccepted
    rcases haccepted with hok | rfl
    · exact hok
    · by_contra hfailed
      have hnone := (h.entry _ hi).failedValid (by simpa using hfailed)
      rw [h.root_data] at hnone
      cases hnone
  case isFalse hi =>
    split at heq
    case h_1 =>
      cases heq
      exact .inl ⟨rfl, fun haccepted => absurd haccepted (by simp)⟩
    case h_2 p hp =>
      split at heq
      case isTrue =>
        cases heq
        exact .inl ⟨rfl, fun haccepted => absurd haccepted (by simp)⟩
      case isFalse hchecks =>
        rw [h.failedBlocks] at heq
        cases heq
        simp only [Bool.or_eq_true, Bool.not_eq_true', decide_eq_true_eq, not_or,
          Bool.not_eq_false, not_not] at hchecks
        exact .inr ⟨rfl, hchecks.1.1, hi, ⟨p, hp, hchecks.1.2⟩, rfl⟩

theorem addHeader {p : ι} (hi : i ∉ s.mapBlockIndex) (hp : t.parent i = some p)
    (hpmem : p ∈ s.mapBlockIndex) :
    Stored t { s.modify [i] (fun _ => ofHeader) with
      mapBlockIndex := i :: s.mapBlockIndex } := by
  have hself : (s.modify [i] fun _ => ofHeader).entry i = ofHeader :=
    if_pos (by simp)
  have hentry : ∀ {j}, j ≠ i →
      (s.modify [i] fun _ => ofHeader).entry j = s.entry j :=
    fun hj => entry_modify_of_notMem (by simpa using hj)
  have hroot : t.root ≠ i := by
    rintro rfl
    exact hi h.root_mem
  refine ⟨?_, nodup_cons.mpr ⟨hi, h.nodup⟩, h.tip, mem_cons_of_mem i h.root_mem, ?_,
    h.failedBlocks, ?_⟩
  · refine (h.linking.addHeader hi hp hpmem).congr rfl rfl (fun _ => rfl) (fun _ => rfl)
      (fun _ => rfl) (fun j hj => ?_) (fun j hj => hj.2.2)
    have hji : j ≠ i := by
      rintro rfl
      exact hi hj.1
    refine ⟨mem_cons_of_mem i hj.1, ?_⟩
    show ((s.modify [i] fun _ => ofHeader).entry j).failedValid = true ∧
      ((s.modify [i] fun _ => ofHeader).entry j).haveData = false
    rw [hentry hji]
    exact hj.2
  · show ((s.modify [i] fun _ => ofHeader).entry t.root).nChainTx ≠ 0
    rw [hentry hroot]
    exact h.root_linked
  · intro j hj
    show ((s.modify [i] fun _ => ofHeader).entry j).Unconnected
    by_cases hji : j = i
    · rw [hji, hself]
      exact ⟨rfl, rfl, fun hfailed => absurd hfailed (by simp [ofHeader]), le_refl _,
        (by decide : BLOCK_VALID_TREE ≤ BLOCK_VALID_TRANSACTIONS)⟩
    · rw [hentry hji]
      exact h.entry j ((mem_cons.mp hj).resolve_left hji)

theorem refuse (hi : i ∈ s.mapBlockIndex) (hdata : (s.entry i).haveData = false) :
    Stored t (s.modify [i] fun entry => { entry with failedValid := true }) := by
  have hentry : ∀ {j}, j ≠ i →
      (s.modify [i] fun entry => { entry with failedValid := true }).entry j = s.entry j :=
    fun hj => entry_modify_of_notMem (by simpa using hj)
  have hself : (s.modify [i] fun entry => { entry with failedValid := true }).entry i =
      { s.entry i with failedValid := true } := if_pos (by simp)
  have hfields : ∀ j,
      (s.modify [i] fun entry => { entry with failedValid := true }).entry j =
        { s.entry j with failedValid :=
          ((s.modify [i] fun entry => { entry with failedValid := true }).entry j).failedValid } := by
    intro j
    by_cases hji : j = i
    · rw [hji, hself]
    · rw [hentry hji]
  refine ⟨?_, h.nodup, h.tip, h.root_mem, ?_, h.failedBlocks, ?_⟩
  · refine h.linking.congr rfl rfl (fun j => by rw [hfields j]) (fun j => by rw [hfields j])
      (fun j => by rw [hfields j]) (fun j hj => ?_) (fun j hj => ?_)
    · refine ⟨hj.1, ?_⟩
      by_cases hji : j = i
      · rw [hji, hself]
        exact ⟨rfl, hdata⟩
      · rw [hentry hji]
        exact hj.2
    · have hnone := hj.2.2
      rw [hfields j] at hnone
      exact hnone
  · rw [hfields]
    exact h.root_linked
  · intro j hj
    obtain ⟨hchild, hundo, hfailed, hge, hle⟩ := h.entry j hj
    by_cases hji : j = i
    · subst hji
      rw [hself]
      exact ⟨hchild, hundo, fun _ => hdata, hge, hle⟩
    · rw [hentry hji]
      exact ⟨hchild, hundo, hfailed, hge, hle⟩

end

variable (hcounts : t.SmallCounts) (h : Stored t s) (hi : i ∈ s.mapBlockIndex)
  (hok : (s.entry i).failedValid = false)

include hcounts h hi hok

theorem receivedBlockTransactions (hdata : (s.entry i).haveData = false) :
    Stored t (t.receivedBlockTransactions s i) ∧
      (t.receivedBlockTransactions s i).mapBlockIndex = s.mapBlockIndex ∧
      ∀ j, ((t.receivedBlockTransactions s i).entry j).haveData =
        if j = i then true else (s.entry j).haveData := by
  have hroot : t.root ≠ i := by
    rintro rfl
    rw [h.root_data] at hdata
    cases hdata
  have hunconnected := h.entry i hi
  have hnotfailed : (s.entry i).failed = false := (h.failed_eq hi).trans hok
  have hself : (t.received s i).entry i = { s.entry i with
      nTx := t.nTx i, nChainTx := 0, haveData := true, validity := BLOCK_VALID_TRANSACTIONS } := by
    rw [entry_received_self]
    exact raiseValidity_of_le hnotfailed hunconnected.validity_le
  have htip : (s.entry s.tip).nChainTx ≠ 0 := by
    rw [h.tip]
    exact h.root_linked
  obtain ⟨hlinking, heffect⟩ := receivedBlockTransactions_spec h.linking hi hdata
    (fun hrefused => absurd (hok.symm.trans hrefused.2.1) (by simp)) hcounts htip (by
      intro p hp hzero hvalid
      have hpmem := h.linking.parent_mem i hi p hp
      have hge := (h.entry p hpmem).validity_ge
      have hfailed : (s.entry p).failedValid = true := by
        rw [← h.failed_eq hpmem]
        simpa [isValid, hge] using hvalid
      exact ⟨hpmem, hfailed, (h.entry p hpmem).failedValid hfailed⟩)
  have hmap : (t.receivedBlockTransactions s i).mapBlockIndex = s.mapBlockIndex := by
    rw [heffect.rest]
    rfl
  have hfields : ∀ j, ∃ n q, (t.receivedBlockTransactions s i).entry j =
      { (t.received s i).entry j with nChainTx := n, nSequenceId := q } := by
    intro j
    rcases heffect.entry j with heq | ⟨-, -, heq⟩
    · exact ⟨_, _, heq⟩
    · exact ⟨_, _, heq⟩
  have hhave : ∀ j, ((t.receivedBlockTransactions s i).entry j).haveData =
      if j = i then true else (s.entry j).haveData := by
    intro j
    obtain ⟨n, q, heq⟩ := hfields j
    rw [heq]
    by_cases hji : j = i
    · rw [if_pos hji, hji, hself]
    · rw [if_neg hji, entry_received_of_ne hji]
  have hunconnected' : ∀ j ∈ s.mapBlockIndex,
      ((t.receivedBlockTransactions s i).entry j).Unconnected := by
    intro j hj
    obtain ⟨n, q, heq⟩ := hfields j
    rw [heq]
    by_cases hji : j = i
    · rw [hji, hself]
      exact ⟨hunconnected.failedChild, hunconnected.haveUndo,
        fun hfailed => absurd (hok.symm.trans hfailed) (by simp),
        (by decide : BLOCK_VALID_TREE ≤ BLOCK_VALID_TRANSACTIONS), le_refl _⟩
    · rw [entry_received_of_ne hji]
      obtain ⟨hchild, hundo, hfailed, hge, hle⟩ := h.entry j hj
      exact ⟨hchild, hundo, hfailed, hge, hle⟩
  refine ⟨⟨?_, ?_, ?_, ?_, ?_, ?_, ?_⟩, hmap, hhave⟩
  · refine hlinking.congr rfl rfl (fun _ => rfl) (fun _ => rfl) (fun _ => rfl) (fun j hj => ?_)
      (fun j hj => hj.2.2)
    have hji : j ≠ i := by
      rintro rfl
      exact absurd (hok.symm.trans hj.2.1) (by simp)
    obtain ⟨n, q, heq⟩ := hfields j
    rw [entry_received_of_ne hji] at heq
    refine ⟨by rw [hmap]; exact hj.1, ?_⟩
    rw [heq]
    exact hj.2
  · rw [hmap]
    exact h.nodup
  · rw [heffect.tip]
    exact h.tip
  · rw [hmap]
    exact h.root_mem
  · rw [heffect.entry_of_linked, entry_received_of_ne hroot]
    · exact h.root_linked
    · rw [entry_received_of_ne hroot]
      exact h.root_linked
  · rw [heffect.rest]
    exact h.failedBlocks
  · rw [hmap]
    exact hunconnected'

theorem acceptBlockData {fRequested : Bool} {nMinimumChainWork : Nat} {verdict : Verdict}
    (heq : t.acceptBlockData s i fRequested nMinimumChainWork verdict = .ok s') :
    Stored t s' ∧ s'.mapBlockIndex = s.mapBlockIndex ∧
      ∀ j, (s'.entry j).haveData = if j = i ∧ t.processes s i fRequested nMinimumChainWork = true ∧
        verdict = .valid then true else (s.entry j).haveData := by
  unfold BlockTree.acceptBlockData at heq
  split at heq
  case isTrue hnot =>
    cases heq
    refine ⟨h, rfl, fun j => ?_⟩
    rw [if_neg (by rintro ⟨-, hyes, -⟩; rw [hyes] at hnot; cases hnot)]
  case isFalse hyes =>
    have hprocesses : t.processes s i fRequested nMinimumChainWork = true := by simpa using hyes
    have hdata : (s.entry i).haveData = false := by
      have hand := hprocesses
      unfold BlockTree.processes at hand
      simpa using (Bool.and_eq_true_iff.mp hand).1
    split at heq
    case h_1 =>
      cases heq
      obtain ⟨hstored, hmap, hhave⟩ := h.receivedBlockTransactions hcounts hi hok hdata
      refine ⟨hstored, hmap, fun j => ?_⟩
      rw [hhave j]
      simp [hprocesses]
    case h_2 =>
      cases heq
      refine ⟨h.refuse hi hdata, rfl, fun j => ?_⟩
      rw [if_neg (by simp), entry_modify]
      split <;> rfl
    case h_3 =>
      cases heq
      exact ⟨h, rfl, fun j => by rw [if_neg (by simp)]⟩
    case h_4 => cases heq

end CChainState.Stored

end Stored

/-! ## The derived fields -/

namespace HeaderTree

variable {ι : Type} {powHash : Algo → List UInt8 → uint256} (t : HeaderTree ι powHash) {i p : ι}

theorem nChainWork_root : t.nChainWork t.root =
    getBlockProof (t.header t.root).nVersion (t.header t.root).nBits % 2 ^ 256 := by
  rw [t.nChainWork_eq, accumulate_root]
  simp

theorem nChainWork_parent (h : t.parent i = some p) : t.nChainWork i =
    (t.nChainWork p + getBlockProof (t.header i).nVersion (t.header i).nBits) % 2 ^ 256 := by
  rw [t.nChainWork_eq, t.nChainWork_eq, accumulate_parent _ h]
  rfl

theorem nTimeMax_root : t.nTimeMax t.root = (t.header t.root).nTime :=
  accumulate_root _

theorem nTimeMax_parent (h : t.parent i = some p) :
    t.nTimeMax i = max (t.nTimeMax p) (t.header i).nTime :=
  accumulate_parent _ h

theorem skip_root : t.skip t.root = none := by
  rw [skip, parent_root]
  rfl

theorem skip_parent (h : t.parent i = some p) :
    t.skip i = t.ancestor i (getSkipHeight (t.height i)) := by
  rw [skip, h]
  rfl

end HeaderTree

namespace BlockIndex

variable {ι : Type} [LinearOrder ι] {powHash : Algo → List UInt8 → uint256}
  {t : HeaderTree ι powHash} {x x' : BlockIndex ι} {i : ι}

structure Live (t : HeaderTree ι powHash) (x : BlockIndex ι) : Prop where
  stored : x.chain.Stored t.toBlockTree
  links : ∀ i ∈ x.chain.mapBlockIndex, x.links i =
    { t.links i with nFile := (x.links i).nFile, nDataPos := (x.links i).nDataPos }
  disk : ∀ i ∈ x.chain.mapBlockIndex, (x.links i).nFile < 2 ^ 31 ∧ (x.links i).nDataPos < 2 ^ 64 ∧
    ((x.chain.entry i).haveData = false → (x.links i).nFile = 0 ∧ (x.links i).nDataPos = 0)
  check : ∀ i ∈ x.chain.mapBlockIndex, (t.header i).check powHash = true
  best : ∃ b ∈ x.chain.mapBlockIndex, x.pindexBestHeader = some b ∧
    ∀ j ∈ x.chain.mapBlockIndex, t.nChainWork j ≤ t.nChainWork b

namespace Live

theorem genesis (hcounts : t.SmallCounts) : Live t (genesis t) := by
  have hmem : ∀ {i}, i ∈ (BlockIndex.genesis t).chain.mapBlockIndex → i = t.root :=
    fun hi => mem_singleton.mp hi
  refine ⟨.genesisState hcounts, ?_, ?_, ?_,
    t.root, mem_singleton_self _, rfl, ?_⟩
  · intro i hi
    rw [hmem hi, HeaderTree.links, parent_root, t.skip_root, t.height_root,
      t.nChainWork_root, t.nTimeMax_root]
    rfl
  · intro i hi
    refine ⟨(by decide : 0 < 2 ^ 31), (by decide : 8 < 2 ^ 64), fun hdata => ?_⟩
    rw [hmem hi] at hdata
    have hroot := (CChainState.Stored.genesisState (t := t.toBlockTree) hcounts).root_data
    exact absurd (hdata.symm.trans hroot) (by simp)
  · intro i hi
    rw [hmem hi]
    exact t.root_check
  · intro i hi
    rw [hmem hi]

variable (h : Live t x)

include h

omit [LinearOrder ι] in
theorem linked (hi : i ∈ x.chain.mapBlockIndex) : x.pointers.Linked t.toAncestry id i := by
  have hlinks : ∀ a, t.IsAncestor a i → x.links a =
      { t.links a with nFile := (x.links a).nFile, nDataPos := (x.links a).nDataPos } :=
    fun a ha => h.links a (h.stored.mem_of_isAncestor hi ha)
  refine ⟨fun a ha => ?_, fun a ha => ?_, fun a ha k hk => ?_⟩
  · show (x.links a).nHeight = t.height a
    rw [hlinks a ha]
    rfl
  · show (x.links a).pprev = (t.parent a).map id
    rw [hlinks a ha, map_id_apply]
    rfl
  · change (x.links a).pskip = some k at hk
    rw [hlinks a ha] at hk
    obtain ⟨p, -, hskip⟩ := bind_eq_some_iff.mp hk
    exact ⟨k, hskip, rfl⟩

section

variable (chain : CChainState ι) {p : ι} (hmap : chain.mapBlockIndex = i :: x.chain.mapBlockIndex)
  (hp : t.parent i = some p) (hpmem : p ∈ x.chain.mapBlockIndex)

include hmap hp hpmem

omit [LinearOrder ι] in
theorem newLinks_eq : newLinks t { x with chain } i = { t.links i with pskip := none } := by
  have hfind : chain.mapBlockIndex.find? (fun j => t.hash j == (t.header i).hashPrevBlock) =
      some p := by
    rw [t.hashPrevBlock_parent hp]
    cases hfound : chain.mapBlockIndex.find? fun j => t.hash j == (t.header p).hash with
    | none =>
      have hnone := List.find?_eq_none.mp hfound p
        (by rw [hmap]; exact mem_cons_of_mem i hpmem)
      exact absurd (beq_self_eq_true (t.hash p)) hnone
    | some j =>
      have hhash := List.find?_some hfound
      rw [t.hash_injective (beq_iff_eq.mp hhash)]
  unfold newLinks
  dsimp only
  rw [hfind, map_some, h.links p hpmem]
  simp only [HeaderTree.links, map_some, getD_some, hp, t.height_parent hp,
    t.nChainWork_parent hp, t.nTimeMax_parent hp]

theorem addToBlockIndex (hi : i ∉ x.chain.mapBlockIndex) :
    ∃ best, BlockIndex.addToBlockIndex t { x with chain } i = .ok
        { x with chain, links := Function.update x.links i (t.links i),
                 pindexBestHeader := some best } ∧
      best ∈ chain.mapBlockIndex ∧ ∀ j ∈ chain.mapBlockIndex, t.nChainWork j ≤ t.nChainWork best := by
  obtain ⟨b, hb, hbest, hmax⟩ := h.best
  have hlinks := h.newLinks_eq chain hmap hp hpmem
  have hwork : (x.links b).nChainWork = t.nChainWork b := by
    rw [h.links b hb]
    rfl
  have hother : ∀ a, t.IsAncestor a p → ∀ links : IndexLinks ι,
      Function.update x.links i links a = x.links a := by
    intro a ha links
    have hai : a ≠ i := by
      rintro rfl
      exact hi (h.stored.mem_of_isAncestor hpmem ha)
    exact Function.update_of_ne hai links x.links
  have hlinked : (setLinks { x with chain } i { t.links i with pskip := none }).pointers.Linked
      t.toAncestry id p := by
    have hold := h.linked hpmem
    refine ⟨fun a ha => ?_, fun a ha => ?_, fun a ha => ?_⟩
    · exact (congrArg IndexLinks.nHeight (hother a ha _)).trans (hold.nHeight a ha)
    · exact (congrArg IndexLinks.pprev (hother a ha _)).trans (hold.pprev a ha)
    · intro k hk
      exact hold.pskip a ha k ((congrArg IndexLinks.pskip (hother a ha _)).symm.trans hk)
  have hself : (setLinks { x with chain } i { t.links i with pskip := none }).links i =
      { t.links i with pskip := none } := Function.update_self i _ x.links
  have hskip : (setLinks { x with chain } i { t.links i with pskip := none }).pointers.buildSkip i =
      .ok (t.skip i) := by
    rw [t.skip_parent hp, ← map_id_apply (x := t.ancestor i _)]
    refine hlinked.buildSkip hp ?_ ?_
    · exact (congrArg IndexLinks.pprev hself).trans hp
    · exact congrArg IndexLinks.nHeight hself
  refine ⟨if t.nChainWork b < t.nChainWork i then i else b, ?_, ?_, ?_⟩
  · unfold BlockIndex.addToBlockIndex
    rw [hlinks]
    show Except.bind _ _ = _
    rw [hskip]
    show Except.ok _ = _
    simp only [hbest, hwork]
    rfl
  · rw [hmap]
    split
    · exact mem_cons_self
    · exact mem_cons_of_mem i hb
  · intro j hj
    rw [hmap] at hj
    rcases mem_cons.mp hj with rfl | hj
    · split <;> omega
    · have := hmax j hj
      split <;> omega

end

theorem acceptBlockHeader {contextual accepted : Bool}
    (heq : BlockIndex.acceptBlockHeader t x i contextual = .ok (accepted, x')) :
    Live t x' ∧ (accepted = true →
      i ∈ x'.chain.mapBlockIndex ∧ (x'.chain.entry i).failedValid = false) := by
  unfold BlockIndex.acceptBlockHeader at heq
  split at heq
  case h_1 => cases heq
  case h_2 accepted' chain hchain =>
    rcases h.stored.acceptBlockHeader hchain with
      ⟨rfl, hknown⟩ | ⟨rfl, hvalid, hi, ⟨p, hp, hpmem⟩, rfl⟩
    · rw [if_neg (by
        simp only [Bool.and_eq_true, decide_eq_true_eq, not_and, not_not]
        exact fun haccepted => (hknown haccepted).1)] at heq
      cases heq
      exact ⟨h, hknown⟩
    · rw [if_pos (by simpa using hi)] at heq
      obtain ⟨best, hadd, hbest, hmax⟩ := h.addToBlockIndex { x.chain.modify [i]
        (fun _ => ofHeader) with mapBlockIndex := i :: x.chain.mapBlockIndex }
        rfl hp hpmem hi
      rw [hadd] at heq
      cases heq
      have hentry : (x.chain.modify [i] fun _ => ofHeader).entry i =
          ofHeader := if_pos (by simp)
      refine ⟨⟨h.stored.addHeader hi hp hpmem, ?_, ?_, ?_, best, hbest, rfl, hmax⟩, fun _ =>
        ⟨mem_cons_self, by
          show ((x.chain.modify [i] fun _ => ofHeader).entry i).failedValid = false
          rw [hentry]
          rfl⟩⟩
      · intro j hj
        dsimp only
        by_cases hji : j = i
        · rw [hji, Function.update_self]
        · rw [Function.update_of_ne hji]
          exact h.links j ((mem_cons.mp hj).resolve_left hji)
      · intro j hj
        dsimp only
        by_cases hji : j = i
        · rw [hji, Function.update_self]
          exact ⟨(by decide : 0 < 2 ^ 31), (by decide : 0 < 2 ^ 64), fun _ => ⟨rfl, rfl⟩⟩
        · rw [Function.update_of_ne hji, CChainState.entry_modify_of_notMem (by simpa using hji)]
          exact h.disk j ((mem_cons.mp hj).resolve_left hji)
      · intro j hj
        by_cases hji : j = i
        · rw [hji]
          exact (Bool.and_eq_true_iff.mp hvalid).1
        · exact h.check j ((mem_cons.mp hj).resolve_left hji)

theorem acceptBlock {contextual fRequested : Bool} {nMinimumChainWork : Nat} {verdict : Verdict}
    {nFile nDataPos : Nat} (hcounts : t.SmallCounts) (hfile : nFile < 2 ^ 31)
    (hpos : nDataPos < 2 ^ 64)
    (heq : BlockIndex.acceptBlock t x i contextual fRequested nMinimumChainWork verdict nFile
      nDataPos = .ok x') : Live t x' := by
  unfold BlockIndex.acceptBlock at heq
  split at heq
  case h_1 => cases heq
  case h_2 x₁ hheader =>
    cases heq
    exact (h.acceptBlockHeader hheader).1
  case h_3 x₁ hheader =>
    obtain ⟨h₁, haccepted⟩ := h.acceptBlockHeader hheader
    obtain ⟨hi, hok⟩ := haccepted rfl
    split at heq
    case h_1 => cases heq
    case h_2 chain hchain =>
      obtain ⟨hstored, hmap, hhave⟩ := h₁.stored.acceptBlockData hcounts hi hok hchain
      split at heq
      case isTrue hvalid =>
        cases heq
        rw [Bool.and_eq_true_iff, beq_iff_eq] at hvalid
        refine ⟨hstored, ?_, ?_, ?_, ?_⟩ <;> dsimp only [setLinks] <;> rw [hmap]
        · intro j hj
          by_cases hji : j = i
          · subst hji
            rw [Function.update_self, h₁.links j hj]
            rfl
          · rw [Function.update_of_ne hji]
            exact h₁.links j hj
        · intro j hj
          by_cases hji : j = i
          · subst hji
            rw [Function.update_self, hhave, if_pos ⟨rfl, hvalid⟩]
            exact ⟨hfile, hpos, fun hdata => absurd hdata (by simp)⟩
          · rw [Function.update_of_ne hji, hhave, if_neg (by simp [hji])]
            exact h₁.disk j hj
        · exact h₁.check
        · exact h₁.best
      case isFalse hnot =>
        cases heq
        have hsame : ∀ j, (chain.entry j).haveData = (x₁.chain.entry j).haveData := by
          intro j
          rw [hhave, if_neg]
          rintro ⟨-, hprocesses, rfl⟩
          exact hnot (by rw [hprocesses]; rfl)
        refine ⟨hstored, ?_, ?_, ?_, ?_⟩ <;> dsimp only <;> rw [hmap]
        · exact h₁.links
        · simp only [hsame]
          exact h₁.disk
        · exact h₁.check
        · exact h₁.best

theorem apply {op : Operation ι} (hcounts : t.SmallCounts) (hrange : op.InRange)
    (heq : x.apply t op = .ok x') : Live t x' := by
  cases op with
  | header pindex contextual =>
    change (BlockIndex.acceptBlockHeader t x pindex contextual).map Prod.snd = .ok x' at heq
    cases hr : BlockIndex.acceptBlockHeader t x pindex contextual with
    | error failure =>
      rw [hr] at heq
      cases heq
    | ok r =>
      rw [hr] at heq
      cases heq
      exact (h.acceptBlockHeader hr).1
  | block => exact h.acceptBlock hcounts hrange.1 hrange.2 heq

end Live

theorem Reachable.live (hcounts : t.SmallCounts) (h : Reachable t x) : Live t x := by
  induction h with
  | genesis => exact .genesis hcounts
  | step _ hrange heq ih => exact ih.apply hcounts hrange heq

end BlockIndex

end Verge
