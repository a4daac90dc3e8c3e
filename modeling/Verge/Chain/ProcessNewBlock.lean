import Verge.Chain.Unharmed
import Verge.Validation.BlockChecks

/-!
# Copies of a block and `ProcessNewBlock`

The way of a block from a message to the active chain, for one block of the tree
whose body may be altered on the way.  Deliveries of copies of the block and of
other blocks interleave.  What is said about the block itself is computed, from
the copy that arrived or from the one on disk; what is said about other blocks may
be anything, except that the blocks below it are not found invalid.
-/

namespace Verge

open Foundation List BlockTree
open scoped CChainState

/-! ## What is said about a copy -/

/-- Everything a copy of the block is judged by, apart from the copy. -/
structure BlockVerifier where
  doubleSha256 : List UInt8 → uint256
  rules : BlockRules
  consensusParams : ConsensusParams
  context : BlockContext
  view : CoinsView

namespace BlockVerifier

variable (v : BlockVerifier)

def checkBlock (block : CBlock) : Except Failure Unit :=
  Verge.checkBlock (v.rules.withMerkleRoot v.doubleSha256) block

/-- The faults of `CheckBlock` that an altered body explains. -/
def mayBeCorrupt (reason : String) : Bool :=
  reason == "bad-txnmrklroot" || reason == "bad-txns-duplicate"

def acceptVerdict (block : CBlock) : Verdict :=
  match v.checkBlock block with
  | .error (.invalid _ reason) => .invalid (mayBeCorrupt reason)
  | .error _ => .systemError
  | .ok () =>
    match contextualCheckBlock v.doubleSha256 v.context block with
    | .error fault => .invalid fault.corruptionPossible
    | .ok () => .valid

/-- `ConnectBlock` on the coins of the parent.  A fault that an altered body
explains aborts the node. -/
def connectVerdict (block : CBlock) : Verdict :=
  match (connectBlock v.consensusParams (v.rules.withMerkleRoot v.doubleSha256) block
      v.context.nHeight).run v.view with
  | .ok _ => .valid
  | .error (.invalid _ reason) =>
    if mayBeCorrupt reason then .systemError else .invalid false
  | .error _ => .systemError

def connectVerdictOf : Option CBlock → Verdict
  | none => .systemError
  | some block => v.connectVerdict block

/-- A block from a message: `FillBlock` has called `CheckBlock` on one that was
reconstructed, and nobody on one that was sent as a whole. -/
def arriving (compact : Bool) (block : CBlock) : CBlock :=
  let unchecked : CBlock := { block with fChecked := false }
  { unchecked with fChecked := compact && (v.checkBlock unchecked).isOk }

end BlockVerifier

def CBlock.readBack (block : CBlock) : CBlock :=
  { block with vtx := block.vtx.map CTransaction.stripWitness, fChecked := false }

/-! ## Deliveries -/

variable {ι : Type} [LinearOrder ι]

structure CopyNode (ι : Type) where
  chain : CChainState ι
  stored : Option CBlock

namespace CopyNode

variable (t : BlockTree ι) (pindex : ι) (v : BlockVerifier)

def acceptBlock (n : CopyNode ι) (block : CBlock) (headerValid fRequested : Bool)
    (nMinimumChainWork : Nat) : Except Failure (Bool × CopyNode ι) :=
  match t.acceptBlockHeader n.chain pindex headerValid with
  | .error failure => .error failure
  | .ok (false, s) => .ok (false, { n with chain := s })
  | .ok (true, s) =>
    let verdict := v.acceptVerdict block
    match t.acceptBlockData s pindex fRequested nMinimumChainWork verdict with
    | .error failure => .error failure
    | .ok s' =>
      if !t.processes s pindex fRequested nMinimumChainWork then .ok (true, { n with chain := s' })
      else if verdict = .valid then .ok (true, ⟨s', some block.readBack⟩)
      else .ok (false, { n with chain := s' })

/-- `ProcessNewBlock` up to its call of `ActivateBestChain`; whether it is called. -/
def processNewBlock (n : CopyNode ι) (block : CBlock) (headerValid fForceProcessing : Bool)
    (nMinimumChainWork : Nat) : Except Failure (Bool × CopyNode ι) :=
  match v.checkBlock block with
  | .error _ => .ok (false, n)
  | .ok () =>
    n.acceptBlock t pindex v { block with fChecked := true } headerValid fForceProcessing
      nMinimumChainWork

/-- The answers of `ConnectBlock` while `ActivateBestChain` runs.  The block is
taken from the caller if it is the target, and from disk otherwise. -/
structure Answers (copies : List (Option CBlock)) (verdict : ι → Verdict) : Prop where
  block : ∃ copy ∈ copies, verdict pindex = v.connectVerdictOf copy
  below : ∀ j, t.IsAncestor j pindex → j ≠ pindex → verdict j ≠ .invalid false

/-- A run of deliveries, with the copies of the block that were delivered.  A call
of `ActivateBestChain` may end at any point. -/
inductive Delivers (n : CopyNode ι) : List CBlock → CopyNode ι → Prop
  | start : Delivers n [] n
  | rejected {copies : List CBlock} {m m' : CopyNode ι} {copy : CBlock}
      {compact headerValid fForceProcessing : Bool} {nMinimumChainWork : Nat}
      (before : Delivers n copies m)
      (process : m.processNewBlock t pindex v (v.arriving compact copy) headerValid
        fForceProcessing nMinimumChainWork = .ok (false, m')) : Delivers n (copy :: copies) m'
  | accepted {copies : List CBlock} {m m' : CopyNode ι} {copy : CBlock}
      {compact headerValid fForceProcessing : Bool} {nMinimumChainWork : Nat} {a : Activation ι}
      (before : Delivers n copies m)
      (process : m.processNewBlock t pindex v (v.arriving compact copy) headerValid
        fForceProcessing nMinimumChainWork = .ok (true, m'))
      (activate : Activates t (Answers t pindex v [some { copy with fChecked := true }, m'.stored])
        (.start m'.chain) a) : Delivers n (copy :: copies) { m' with chain := a.state }
  | other {copies : List CBlock} {m : CopyNode ι} {j : ι} {headerValid fRequested : Bool}
      {nMinimumChainWork : Nat} {verdict : Verdict} {s : CChainState ι} {a : Activation ι}
      (before : Delivers n copies m) (another : j ≠ pindex)
      (below : t.IsAncestor j pindex → verdict ≠ .invalid false)
      (accept : t.acceptBlock m.chain j headerValid fRequested nMinimumChainWork verdict = .ok s)
      (activate : Activates t (Answers t pindex v [m.stored]) (.start s) a) :
      Delivers n copies { m with chain := a.state }

end CopyNode

/-! ## Copies that pass -/

structure BlockVerifier.ValidOnParent (v : BlockVerifier) (block : CBlock) : Prop where
  unchecked : block.fChecked = false
  check : v.checkBlock block = .ok ()
  context : contextualCheckBlock v.doubleSha256 v.context block = .ok ()
  connect : v.connectVerdict block = .valid

structure BlockVerifier.GoodCopy (v : BlockVerifier) (block copy : CBlock) : Prop where
  header : IsCopyOf copy block
  vtx : copy.vtx = block.vtx
  check : v.checkBlock copy = .ok ()

namespace BlockVerifier

variable {v : BlockVerifier} {block copy : CBlock}

theorem checkBlock_of_fChecked (h : block.fChecked = true) : v.checkBlock block = .ok () := by
  unfold checkBlock Verge.checkBlock
  exact if_pos h

theorem checkBlock_arriving {compact : Bool} (h : v.checkBlock (v.arriving compact copy) = .ok ()) :
    v.checkBlock { copy with fChecked := false } = .ok () := by
  simp only [arriving] at h
  cases hcheck : v.checkBlock { copy with fChecked := false } with
  | ok u => rfl
  | error failure =>
    rw [hcheck] at h
    simp only [Except.isOk, Except.toBool, Bool.and_false] at h
    rw [hcheck] at h
    cases h

theorem GoodCopy.checked (h : v.GoodCopy block copy) :
    v.GoodCopy block { copy with fChecked := true } :=
  ⟨h.header, h.vtx, checkBlock_of_fChecked rfl⟩

theorem GoodCopy.connectVerdict (hvalid : v.ValidOnParent block) (h : v.GoodCopy block copy) :
    v.connectVerdict copy = .valid := by
  have heq := connectBlock_congr v.consensusParams v.context.nHeight (congrArg (·.hash) h.header)
    h.vtx hvalid.check h.check
  rw [← hvalid.connect]
  unfold BlockVerifier.connectVerdict
  rw [heq]

theorem ValidOnParent.committedBlock (hvalid : v.ValidOnParent block) :
    CommittedBlock v.doubleSha256 block :=
  committedBlock_of_checkBlock hvalid.unchecked hvalid.check

section Passing

variable (h : v.checkBlock { copy with fChecked := false } = .ok ())

include h

theorem committedBlock_of_unchecked : CommittedBlock v.doubleSha256 copy := by
  have hcommitted : CommittedBlock v.doubleSha256 { copy with fChecked := false } :=
    committedBlock_of_checkBlock rfl h
  exact ⟨hcommitted.root, hcommitted.size, hcommitted.coinBase, hcommitted.noWitness⟩

theorem goodCopy_of_checkBlock {blocks : List CBlock} (hvalid : v.ValidOnParent block)
    (hfree : CollisionFree v.doubleSha256 blocks) (hblock : block ∈ blocks) (hcopy : copy ∈ blocks)
    (hheader : IsCopyOf copy block) : v.GoodCopy block { copy with fChecked := false } := by
  have hvtx : copy.vtx = block.vtx :=
    hvalid.committedBlock.vtx_eq hfree hblock hcopy hheader (committedBlock_of_unchecked h)
  exact ⟨hheader, hvtx, h⟩

theorem readBack_checked :
    CBlock.readBack { copy with fChecked := true } = { copy with fChecked := false } := by
  have hvtx : copy.vtx.map CTransaction.stripWitness = copy.vtx :=
    (map_congr_left fun tx htx => CTransaction.stripWitness_of_hasWitness
      ((committedBlock_of_unchecked h).noWitness tx htx)).trans (map_id copy.vtx)
  simp only [CBlock.readBack, hvtx]

end Passing

theorem acceptVerdict_checked (hvalid : v.ValidOnParent block)
    (hgood : v.GoodCopy block { copy with fChecked := false }) :
    v.acceptVerdict { copy with fChecked := true } = .valid := by
  have hcontext : contextualCheckBlock v.doubleSha256 v.context { copy with fChecked := true } =
      .ok () :=
    (contextualCheckBlock_congr (congrArg (·.nTime) hgood.header) hgood.vtx
      hvalid.committedBlock.size (committedBlock_of_unchecked hgood.check).size).trans
      hvalid.context
  unfold acceptVerdict
  rw [checkBlock_of_fChecked rfl]
  simp only [hcontext]

end BlockVerifier

/-! ## Runs -/

namespace CopyNode

open BlockVerifier

variable {t : BlockTree ι} {pindex : ι} {v : BlockVerifier} {block : CBlock}

/-- The state keeps nothing against the block, and what is on disk for it is as
good as the block. -/
structure Sound (t : BlockTree ι) (pindex : ι) (v : BlockVerifier) (block : CBlock)
    (n : CopyNode ι) : Prop where
  unharmed : t.Unharmed n.chain pindex
  stored : ∀ copy, n.stored = some copy → v.GoodCopy block copy
  data : (n.chain.entry pindex).haveData = true → ∃ copy, n.stored = some copy

section

variable {n m : CopyNode ι} (h : Sound t pindex v block n) (hvalid : v.ValidOnParent block)

include h

omit [LinearOrder ι] in
theorem Sound.spares {s : CChainState ι} (hspares : t.Spares pindex n.chain s) :
    Sound t pindex v block { n with chain := s } where
  unharmed := h.unharmed.spares hspares
  stored := h.stored
  data hdata := h.data (hspares.haveData hdata)

include hvalid

theorem Sound.activates {copies : List (Option CBlock)} {a : Activation ι}
    (hcopies : ∀ copy, some copy ∈ copies → v.GoodCopy block copy)
    (hactivate : Activates t (Answers t pindex v copies) (.start n.chain) a) :
    Sound t pindex v block { n with chain := a.state } := by
  refine h.spares (hactivate.spares (fun verdict hanswers j hj => ?_) h.unharmed)
  by_cases hji : j = pindex
  · obtain ⟨copy, hmem, hverdict⟩ := hanswers.block
    rw [hji, hverdict]
    cases copy with
    | none => simp [connectVerdictOf]
    | some copy =>
      rw [connectVerdictOf, (hcopies copy hmem).connectVerdict hvalid]
      simp
  · exact hanswers.below j hj hji

theorem Sound.acceptBlock {copy : CBlock} {headerValid fRequested result : Bool}
    {nMinimumChainWork : Nat} (hgood : v.GoodCopy block { copy with fChecked := false })
    (haccept : n.acceptBlock t pindex v { copy with fChecked := true } headerValid fRequested
      nMinimumChainWork = .ok (result, m)) :
    Sound t pindex v block m := by
  unfold CopyNode.acceptBlock at haccept
  split at haccept
  case h_1 => cases haccept
  case h_2 s hheader =>
    cases haccept
    exact h.spares (spares_acceptBlockHeader h.unharmed hheader)
  case h_3 s hheader =>
    have hs := h.spares (spares_acceptBlockHeader h.unharmed hheader)
    rw [acceptVerdict_checked hvalid hgood] at haccept
    unfold BlockTree.acceptBlockData at haccept
    by_cases hprocesses : t.processes s pindex fRequested nMinimumChainWork
    · simp only [hprocesses, Bool.not_true, Bool.false_eq_true, if_false, if_true] at haccept
      cases haccept
      refine ⟨hs.unharmed.received.spares spares_receivedBlockTransactions,
        fun stored hstored => ?_, fun _ => ⟨_, rfl⟩⟩
      cases hstored
      rw [readBack_checked hgood.check]
      exact hgood
    · simp only [hprocesses, Bool.not_false, if_true] at haccept
      cases haccept
      exact hs

theorem Sound.processNewBlock {blocks : List CBlock} {copy : CBlock}
    {compact headerValid fForceProcessing result : Bool} {nMinimumChainWork : Nat}
    (hfree : CollisionFree v.doubleSha256 blocks) (hblock : block ∈ blocks) (hcopy : copy ∈ blocks)
    (hheader : IsCopyOf copy block)
    (hprocess : n.processNewBlock t pindex v (v.arriving compact copy) headerValid
      fForceProcessing nMinimumChainWork = .ok (result, m)) :
    Sound t pindex v block m ∧
      (result = true → v.GoodCopy block { copy with fChecked := true }) := by
  unfold CopyNode.processNewBlock at hprocess
  split at hprocess
  case h_1 =>
    cases hprocess
    exact ⟨h, by simp⟩
  case h_2 hcheck =>
    have hgood := goodCopy_of_checkBlock
      (checkBlock_arriving hcheck) hvalid hfree hblock hcopy hheader
    exact ⟨h.acceptBlock hvalid hgood hprocess, fun _ => hgood.checked⟩

theorem Delivers.sound {copies blocks : List CBlock} (hfree : CollisionFree v.doubleSha256 blocks)
    (hblock : block ∈ blocks) (hcopies : ∀ copy ∈ copies, copy ∈ blocks ∧ IsCopyOf copy block)
    (hdelivers : Delivers t pindex v n copies m) : Sound t pindex v block m := by
  induction hdelivers with
  | start => exact h
  | rejected _ hprocess ih =>
    rw [forall_mem_cons] at hcopies
    exact ((ih hcopies.2).processNewBlock hvalid hfree hblock hcopies.1.1 hcopies.1.2 hprocess).1
  | accepted _ hprocess hactivate ih =>
    rw [forall_mem_cons] at hcopies
    obtain ⟨hsound, hgood⟩ := (ih hcopies.2).processNewBlock hvalid hfree hblock hcopies.1.1
      hcopies.1.2 hprocess
    refine hsound.activates hvalid (fun copy hcopy => ?_) hactivate
    rcases mem_cons.mp hcopy with heq | hcopy
    · rw [Option.some.inj heq]
      exact hgood rfl
    · exact hsound.stored copy (mem_singleton.mp hcopy).symm
  | other _ hne hbelow haccept hactivate ih =>
    have hsound := ih hcopies
    have hs := hsound.spares (spares_acceptBlock hne hbelow hsound.unharmed haccept)
    have hend := hs.activates hvalid
      (fun copy hcopy => hsound.stored copy (mem_singleton.mp hcopy).symm) hactivate
    exact hend

/-! ## A later delivery of the block -/

omit h in
theorem checkBlock_arriving_valid {compact : Bool} :
    v.checkBlock (v.arriving compact block) = .ok () := by
  have hcheck : v.checkBlock { block with fChecked := false } = .ok () := by
    rw [← hvalid.check, ← hvalid.unchecked]
  simp only [arriving, hcheck]
  cases compact with
  | false => exact hcheck
  | true => exact checkBlock_of_fChecked rfl

theorem Sound.requested {p : ι} (hparent : t.parent pindex = some p)
    (hknown : p ∈ n.chain.mapBlockIndex) (compact : Bool) (nMinimumChainWork : Nat) :
    ∃ m s, n.processNewBlock t pindex v (v.arriving compact block) true true nMinimumChainWork =
        .ok (true, m) ∧ t.Unharmed s pindex ∧ s.tip = n.chain.tip ∧
      (∀ k, k ≠ pindex → s.entry k = n.chain.entry k) ∧
      ((n.chain.entry pindex).haveData = true ∧ m = { n with chain := s } ∧
          (m.chain.entry pindex).haveData = true ∨
        m = ⟨t.receivedBlockTransactions s pindex, some block⟩) := by
  obtain ⟨s, hheader, htip, hentry, hdata⟩ :=
    acceptBlockHeader_unharmed h.unharmed hparent hknown
  have hs : t.Unharmed s pindex :=
    h.unharmed.spares (spares_acceptBlockHeader h.unharmed hheader)
  have hsame : { block with fChecked := false } = block := by rw [← hvalid.unchecked]
  have hgood : v.GoodCopy block { block with fChecked := false } := by
    rw [hsame]
    exact ⟨rfl, rfl, hvalid.check⟩
  have hverdict := acceptVerdict_checked hvalid hgood
  have hstored := readBack_checked hgood.check
  rw [hsame] at hstored
  have hprocess : n.processNewBlock t pindex v (v.arriving compact block) true true
      nMinimumChainWork = n.acceptBlock t pindex v { block with fChecked := true } true true
        nMinimumChainWork := by
    unfold CopyNode.processNewBlock
    rw [checkBlock_arriving_valid hvalid]
    rfl
  rw [hprocess]
  unfold CopyNode.acceptBlock
  simp only [hheader, hverdict, BlockTree.acceptBlockData]
  cases hhave : (s.entry pindex).haveData with
  | true =>
    have hskip : t.processes s pindex true nMinimumChainWork = false := by
      simp [BlockTree.processes, hhave]
    rw [hskip]
    refine ⟨{ n with chain := s }, s, rfl, hs, htip, hentry, .inl ⟨?_, rfl, hhave⟩⟩
    by_contra hbefore
    simp [hdata (Bool.eq_false_of_not_eq_true hbefore)] at hhave
  | false =>
    have hlook : t.processes s pindex true nMinimumChainWork = true := by
      simp [BlockTree.processes, hhave]
    rw [hlook, hstored]
    exact ⟨⟨_, some block⟩, s, rfl, hs, htip, hentry, .inr rfl⟩

end

omit [LinearOrder ι] in
theorem exists_answers (t : BlockTree ι) (pindex : ι) (copies : List (Option CBlock))
    (hvalid : v.ValidOnParent block) :
    ∃ verdict, Answers t pindex v (some { block with fChecked := true } :: copies) verdict ∧
      verdict pindex = .valid := by
  have hgood : v.GoodCopy block block := ⟨rfl, rfl, hvalid.check⟩
  have hverdict : v.connectVerdict { block with fChecked := true } = .valid :=
    hgood.checked.connectVerdict hvalid
  exact ⟨fun _ => .valid, ⟨⟨_, mem_cons_self, hverdict.symm⟩, by simp⟩, rfl⟩

end CopyNode

/-- Whatever copies of a valid block are delivered, the block stays acceptable: it is
accepted when it was asked for, and becomes the tip if it is the best candidate. -/
theorem copies_leave_block_acceptable {t : BlockTree ι} {pindex p : ι} {v : BlockVerifier}
    {block : CBlock} {n m : CopyNode ι} {copies : List CBlock} (hvalid : v.ValidOnParent block)
    (hparent : t.parent pindex = some p) (hn : t.Unharmed n.chain pindex)
    (hdata : (n.chain.entry pindex).haveData = false) (hstored : n.stored = none)
    (hcopies : ∀ copy ∈ copies, IsCopyOf copy block)
    (hfree : CollisionFree v.doubleSha256 (block :: copies))
    (hrun : CopyNode.Delivers t pindex v n copies m) :
    (m.chain.entry pindex).failedValid = false ∧
      (p ∈ m.chain.mapBlockIndex → ∀ compact nMinimumChainWork, ∃ m',
        m.processNewBlock t pindex v (v.arriving compact block) true true nMinimumChainWork =
          .ok (true, m') ∧
        (m'.chain.entry pindex).haveData = true ∧
        (∃ copy, m'.stored = some copy ∧ IsCopyOf copy block ∧ copy.vtx = block.vtx) ∧
        ((m.chain.entry pindex).haveData = false →
          m'.stored = some block ∧
          (p = m.chain.tip → (m.chain.entry p).nChainTx ≠ 0 →
            ((m.chain.entry p).nChainTx + t.nTx pindex) % 2 ^ 32 ≠ 0 →
            (∀ j ∈ m'.chain.setBlockIndexCandidates, t.worse m'.chain pindex j = false) →
            ∃ a, Activates t (CopyNode.Answers t pindex v
                [some { block with fChecked := true }, m'.stored]) (.start m'.chain) a ∧
              a.phase = .returned ∧ a.state.tip = pindex))) := by
  have hinit : CopyNode.Sound t pindex v block n :=
    ⟨hn, by simp [hstored], by simp [hdata]⟩
  have hsound := hrun.sound hinit hvalid hfree mem_cons_self
    (fun copy hcopy => ⟨mem_cons_of_mem _ hcopy, hcopies copy hcopy⟩)
  refine ⟨?_, fun hknown compact nMinimumChainWork => ?_⟩
  · exact (Bool.or_eq_false_iff.mp (hsound.unharmed.unfailed pindex (.refl pindex))).1
  obtain ⟨m', s, hprocess, hs, htip, hentry, hcase⟩ :=
    hsound.requested hvalid hparent hknown compact nMinimumChainWork
  refine ⟨m', hprocess, ?_⟩
  rcases hcase with ⟨hbefore, rfl, hafter⟩ | rfl
  · obtain ⟨copy, hcopy⟩ := hsound.data hbefore
    have hgood := hsound.stored copy hcopy
    refine ⟨hafter, ⟨copy, hcopy, hgood.header, hgood.vtx⟩, ?_⟩
    simp [hbefore]
  · refine ⟨receivedBlockTransactions_haveData, ⟨block, rfl, rfl, rfl⟩,
      fun _ => ⟨rfl, fun hp hlinked hcount hbest => ?_⟩⟩
    subst hp
    have hne : m.chain.tip ≠ pindex := by
      intro heq
      have hheight := t.height_parent hparent
      rw [heq] at hheight
      omega
    rw [← hentry _ hne, ← htip] at hlinked hcount
    rw [← htip] at hparent
    obtain ⟨htip', hchainTx, hcandidate⟩ :=
      receivedBlockTransactions_onTip hs hparent hlinked hcount
    obtain ⟨verdict, hanswers, hverdict⟩ :=
      CopyNode.exists_answers t pindex [some block] hvalid
    exact exists_activates_onTip
      (hs.received.spares spares_receivedBlockTransactions) (htip' ▸ hparent)
      hcandidate receivedBlockTransactions_haveData hchainTx hbest hanswers hverdict

/-! ### A repeated coinbase -/

def rowOfBlocks : BlockTree Nat where
  root := 0
  parent i := if i = 0 then none else some (i - 1)
  height i := i
  nChainWork i := i
  nTx _ := 1
  parent_eq_none := by
    intro i h
    split_ifs at h with h0
    exact h0
  height_root := rfl
  height_parent := by
    intro i j h
    split_ifs at h with h0
    cases h
    omega

def lenientVerifier : BlockVerifier where
  doubleSha256 bytes := BitVec.ofNat 256 bytes.length
  rules := ⟨fun _ => none, 0, fun _ => 0, fun _ => true, fun _ _ => true, fun _ _ => 0,
    fun _ _ => none, true⟩
  consensusParams := ⟨0, 1, 0⟩
  context := ⟨1, false, false, 0, 0⟩
  view := ∅

def coinbaseAtOne : CTransaction :=
  ⟨[⟨⟨0, 4294967295⟩, [0x51, 0x51], SEQUENCE_FINAL, []⟩], [⟨0, [0x51]⟩], 1, 100, 0, 67⟩

def blockAtOne : CBlock :=
  { nVersion := 1, hashPrevBlock := 0, hashMerkleRoot := 67, nTime := 100, nBits := 1, nNonce := 0
    hash := 1, vtx := [coinbaseAtOne], vchBlockSig := [], fChecked := false }

def repeatedCoinbase : CBlock := { blockAtOne with vtx := [coinbaseAtOne, coinbaseAtOne] }

theorem validOnParent_blockAtOne : lenientVerifier.ValidOnParent blockAtOne where
  unchecked := rfl
  check := by decide +kernel
  context := by decide +kernel
  connect := by decide +kernel

theorem hashedPair_repeated {hashes : List uint256} {q : uint256 × uint256}
    (h : HashedPair (pairHash lenientVerifier.doubleSha256) hashes q)
    (hhashes : hashes = [67] ∨ hashes = [67, 67]) : q = (67, 67) := by
  obtain ⟨level, hlevel, hmany, hq⟩ := h
  cases hlevel with
  | refl =>
    rcases hhashes with rfl | rfl
    · simp at hmany
    · simpa [levelPairs] using hq
  | up many above =>
    rcases hhashes with rfl | rfl
    · simp at many
    · cases above with
      | refl => simp [pairUp, levelPairs] at hmany
      | up many' _ => simp [pairUp, levelPairs] at many'

theorem collisionFree_repeatedCoinbase :
    CollisionFree lenientVerifier.doubleSha256 [blockAtOne, repeatedCoinbase] := by
  have htx : ∀ blk ∈ [blockAtOne, repeatedCoinbase], ∀ tx ∈ blk.vtx, tx = coinbaseAtOne := by
    simp [blockAtOne, repeatedCoinbase]
  have hhashed : ∀ bytes, (∃ blk ∈ [blockAtOne, repeatedCoinbase],
      HashedString lenientVerifier.doubleSha256 blk bytes) →
      bytes = coinbaseAtOne.serialize ∨ bytes = hashBytes 67 ++ hashBytes 67 := by
    rintro bytes ⟨blk, hblk, ⟨tx, hmem, rfl⟩ | ⟨q, hq, rfl⟩⟩
    · rw [htx blk hblk tx hmem]
      exact .inl rfl
    · refine .inr ?_
      rw [hashedPair_repeated hq (by
        rcases mem_pair.mp hblk with rfl | rfl
        · exact .inl rfl
        · exact .inr rfl)]
  refine ⟨fun blk hblk tx hmem => ?_, fun x hx y hy heq => ?_, fun blk hblk blk' hblk' tx hmem
    tx' hmem' _ => ?_⟩
  · rw [htx blk hblk tx hmem]
    decide +kernel
  · have hne : lenientVerifier.doubleSha256 coinbaseAtOne.serialize ≠
        lenientVerifier.doubleSha256 (hashBytes 67 ++ hashBytes 67) := by decide +kernel
    rcases hhashed x hx with rfl | rfl <;> rcases hhashed y hy with rfl | rfl
    · rfl
    · exact absurd heq hne
    · exact absurd heq.symm hne
    · rfl
  · rw [htx blk hblk tx hmem, htx blk' hblk' tx' hmem']

theorem copies_leave_block_acceptable_repeatedCoinbase :
    ∃ m', CopyNode.processNewBlock rowOfBlocks 1 lenientVerifier
        ⟨rowOfBlocks.genesisState, none⟩ (lenientVerifier.arriving false blockAtOne) true true 0 =
          .ok (true, m') ∧ m'.stored = some blockAtOne := by
  have hrejected : CopyNode.processNewBlock rowOfBlocks 1 lenientVerifier
      ⟨rowOfBlocks.genesisState, none⟩ (lenientVerifier.arriving false repeatedCoinbase) true true
        0 = .ok (false, ⟨rowOfBlocks.genesisState, none⟩) := by
    have hcheck : lenientVerifier.checkBlock (lenientVerifier.arriving false repeatedCoinbase) =
        .error (.invalid 100 "bad-txnmrklroot") := by decide +kernel
    unfold CopyNode.processNewBlock
    rw [hcheck]
  have hcopies : ∀ copy ∈ [repeatedCoinbase], IsCopyOf copy blockAtOne :=
    forall_mem_singleton.mpr rfl
  obtain ⟨-, haccept⟩ := copies_leave_block_acceptable validOnParent_blockAtOne
    (show rowOfBlocks.parent 1 = some 0 from rfl) (rowOfBlocks.unharmed_genesisState 1) rfl rfl
    hcopies collisionFree_repeatedCoinbase (CopyNode.Delivers.start.rejected hrejected)
  obtain ⟨m', hprocess, -, -, hfresh⟩ := haccept mem_cons_self false 0
  exact ⟨m', hprocess, (hfresh rfl).1⟩

end Verge
