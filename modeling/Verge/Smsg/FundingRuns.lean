import Mathlib.Data.List.Chain
import Mathlib.Data.List.TakeWhile
import Verge.Smsg.FundingRebuild
import Verge.Validation.TestBlockValidity

/-!
# The funding index over restarts

A node follows the active chain by notifications, stops at any time, and starts again
with an active chain that may have changed and the records that are in the database.
The index then is that of the recent blocks if

* no message that a disconnected block carries was paid for by a recent block below it,
* the clock does not run backwards,
* a rebuild from the marker is one of a new process, no block was disconnected since the
  marker was written, and nothing it needs was pruned before,
* no recent block that pays for a message is below a block that is too old,
* every recent transaction is the last one to pay for one of its messages, and
* pruning does not separate records of one block or transaction.
-/

namespace Verge

open Foundation List CSMSG Option

def FundedRecent (chain : List CBlock) (cutoffTime : Int) (msgId : MsgId) (txid : uint256) : Prop :=
  ∃ block ∈ chain, cutoffTime ≤ block.nTime ∧ block.FundsMsgId msgId txid

/-- The index of the messages that recent blocks pay for, or of as many as it can hold. -/
structure CSMSG.Indexes (s : CSMSG) (chain : List CBlock) (cutoffTime : Int) : Prop where
  funded : ∀ msgId record, s.mapPaidFundingByMsgId.lookup msgId = some record →
    FundedRecent chain cutoffTime msgId record.txid
  length_le : s.mapPaidFundingByMsgId.entries.length ≤ SMSG_MAX_PAID_FUNDING_RECORDS
  complete : s.mapPaidFundingByMsgId.entries.length = SMSG_MAX_PAID_FUNDING_RECORDS ∨
    ∀ msgId txid, FundedRecent chain cutoffTime msgId txid →
      (s.mapPaidFundingByMsgId.lookup msgId).isSome = true
  txids : s.IndexesTxids

def recentBlocks (chain : List CBlock) (cutoffTime : Int) : List (Nat × CBlock) :=
  (withHeights chain).filter (isRecent cutoffTime)

/-! ## Runs -/

/-- A notification, or a start of secure messaging, in a new process or not, with the active
chain of that time. -/
inductive IndexEvent where
  | notified (e : ChainNotification)
  | started (fNewProcess : Bool) (chain : List CBlock) (now : Int)

/-- The node with the cutoff of its last rebuild and the messages that were pruned since
the last full one. -/
structure IndexNode extends FundingNode where
  cutoffTime : Option Int
  pruned : List MsgId

def CSMSG.inProcess (s : CSMSG) (fNewProcess : Bool) : CSMSG :=
  if fNewProcess then
    { s with mapPaidFundingByMsgId := ∅, mapPaidFundingByTxid := ∅, mapPaidFundingMisses := ∅ }
  else s

namespace IndexNode

variable (records : RecordSort)

def init : IndexNode := ⟨FundingNode.init, none, []⟩

def step (n : IndexNode) : IndexEvent → IndexNode
  | .notified e => { n with toFundingNode := n.toFundingNode.notify e }
  | .started fNewProcess chain now =>
    let s := n.smsg.inProcess fNewProcess
    let rebuilt := s.rebuildPaidFundingIndex records chain now
    { chain := chain
      smsg := rebuilt
      cutoffTime := some (now - SMSG_RETENTION)
      pruned := (if (s.markerHeight chain).isSome then n.pruned else []) ++
        (s.scanPaidFunding chain (now - SMSG_RETENTION)).mapPaidFundingByMsgId.keys.filter
          fun msgId => (rebuilt.mapPaidFundingByMsgId.lookup msgId).isNone }

def Linked (chain : List CBlock) : Prop :=
  chain.IsChain fun block block' => block.hashPrevBlock = block'.hash

/-- The notifications follow the active chain, and the active chain of a start is linked.
The blocks are among the known ones. -/
def Valid (known : CBlock → Prop) (n : IndexNode) : IndexEvent → Prop
  | .notified (.connected block) => known block ∧ Linked (block :: n.chain)
  | .notified (.disconnected block) => n.chain.head? = some block
  | .started _ chain _ => (∀ block ∈ chain, known block) ∧ Linked chain

def IsRecentIn (n : IndexNode) (blockTime : Nat) : Prop :=
  ∀ cutoffTime ∈ n.cutoffTime, cutoffTime ≤ blockTime

structure StartsCleanly (n : IndexNode) (fNewProcess : Bool) (chain : List CBlock)
    (cutoffTime : Int) : Prop where
  clock : ∀ last ∈ n.cutoffTime, last ≤ cutoffTime
  marker : (n.smsg.markerHeight chain).isSome = true →
    fNewProcess = true ∧ (n.smsg.markerHeight n.chain).isSome = true ∧
      ∀ msgId ∈ n.pruned, ∀ txid, ¬ FundedRecent chain cutoffTime msgId txid
  onTop : ∀ p ∈ (withHeights chain).dropWhile (isRecent cutoffTime),
    isRecent cutoffTime p = true → ∀ msgId txid, ¬ p.2.FundsMsgId msgId txid
  named : ∀ msgId txid, FundedRecent chain cutoffTime msgId txid →
    ∃ msgId' record, newestFunding (recentBlocks chain cutoffTime) msgId' = some record ∧
      record.txid = txid
  cut : CSMSG.CleanCut (newestFunding (recentBlocks chain cutoffTime))

def Clean (n : IndexNode) : IndexEvent → Prop
  | .notified (.connected _) => True
  | .notified (.disconnected block) => ∀ msgId, block.CarriesMsgId msgId →
      ∀ below ∈ n.chain.tail, n.IsRecentIn below.nTime → ∀ txid, ¬ below.FundsMsgId msgId txid
  | .started fNewProcess chain now => n.StartsCleanly fNewProcess chain (now - SMSG_RETENTION)

/-- A start leaves the index of the active chain, and the one that a full rebuild leaves. -/
def Rebuilds (n : IndexNode) : IndexEvent → Prop
  | .notified _ => True
  | .started fNewProcess chain now =>
    ((n.smsg.inProcess fNewProcess).rebuildPaidFundingIndex records chain now).Indexes chain
        (now - SMSG_RETENTION) ∧
      ∀ msgId,
        ((n.smsg.inProcess fNewProcess).rebuildPaidFundingIndex records chain
            now).mapPaidFundingByMsgId.lookup msgId =
          ({ n.smsg.inProcess fNewProcess with dbMarker := none }.rebuildPaidFundingIndex records
            chain now).mapPaidFundingByMsgId.lookup msgId

/-! ## One chain under the marker -/

section Binding

variable {known : CBlock → Prop}
  (hbind : ∀ block block', known block → known block' → block.hash = block'.hash → block = block')
  {chain chain' : List CBlock} (h : Linked chain) (h' : Linked chain')
  (hknown : ∀ block ∈ chain, known block) (hknown' : ∀ block ∈ chain', known block)

include hbind h h' hknown hknown'

theorem Linked.eq (hlength : chain.length = chain'.length)
    (hhead : chain.head?.map (fun block => block.hash) =
      chain'.head?.map (fun block => block.hash)) :
    chain = chain' := by
  induction chain generalizing chain' with
  | nil => exact (length_eq_zero_iff.mp hlength.symm).symm
  | cons block chain ih =>
    obtain _ | ⟨block', chain'⟩ := chain'
    · cases hlength
    have hblock : block = block' :=
      hbind block block' (hknown _ mem_cons_self) (hknown' _ mem_cons_self)
        (Option.some.inj hhead)
    subst hblock
    have hrest : chain = chain' := by
      apply ih h.tail h'.tail (fun b hb => hknown b (mem_cons_of_mem _ hb))
        (fun b hb => hknown' b (mem_cons_of_mem _ hb)) (Nat.succ.inj hlength)
      cases chain with
      | nil =>
        obtain rfl := length_eq_zero_iff.mp (Nat.succ.inj hlength).symm
        rfl
      | cons c chain =>
        cases chain' with
        | nil => cases hlength
        | cons c' chain' =>
          have hc := (isChain_cons_cons.mp h).1
          have hc' := (isChain_cons_cons.mp h').1
          exact congrArg some (hc.symm.trans hc')
    rw [hrest]

theorem drop_eq_of_onActiveChain {height : Nat} {blockHash : uint256}
    (hon : onActiveChain chain height blockHash = true)
    (hon' : onActiveChain chain' height blockHash = true) (htip : chain.length = height + 1) :
    chain'.drop (chain'.length - (height + 1)) = chain := by
  obtain ⟨hlt, block, hblock, hhash⟩ := exists_of_onActiveChain hon
  obtain ⟨hlt', block', hblock', hhash'⟩ := exists_of_onActiveChain hon'
  rw [List.getElem?_reverse hlt] at hblock
  rw [List.getElem?_reverse hlt'] at hblock'
  refine Linked.eq hbind (h'.drop _) h (fun b hb => hknown' b (mem_of_mem_drop hb)) hknown
    (by rw [length_drop]; omega) ?_
  have hfirst : chain.length - 1 - height = 0 := by omega
  have hsub : chain'.length - (height + 1) = chain'.length - 1 - height := by omega
  rw [hfirst, ← List.head?_eq_getElem?] at hblock
  rw [List.head?_drop, hsub, hblock', hblock]
  exact congrArg some (hhash'.trans hhash.symm)

end Binding

/-! ## A rebuild -/

variable {chain : List CBlock} {cutoffTime : Int} {msgId : MsgId} {record : PaidFundingRecord}

theorem mem_recentBlocks {p : Nat × CBlock} (h : p ∈ recentBlocks chain cutoffTime) :
    p.2 ∈ chain ∧ cutoffTime ≤ p.2.nTime := by
  obtain ⟨hmem, hrecent⟩ := mem_filter.mp h
  exact ⟨mem_withHeights hmem, of_decide_eq_true hrecent⟩

theorem newestFunding_recentBlocks_isSome {txid : uint256}
    (h : FundedRecent chain cutoffTime msgId txid) :
    (newestFunding (recentBlocks chain cutoffTime) msgId).isSome = true := by
  obtain ⟨block, hblock, hrecent, hfunds⟩ := h
  obtain ⟨height, hmem⟩ := exists_mem_withHeights hblock
  rw [isSome_iff_ne_none]
  intro hnone
  have hmem' : (height, block) ∈ recentBlocks chain cutoffTime :=
    mem_filter.mpr ⟨hmem, decide_eq_true hrecent⟩
  exact blockFunding_eq_none_iff.mp (newestFunding_eq_none.mp hnone _ hmem') txid hfunds

theorem fundedRecent_of_newestFunding
    (h : newestFunding (recentBlocks chain cutoffTime) msgId = some record) :
    FundedRecent chain cutoffTime msgId record.txid := by
  obtain ⟨p, hp, hfunding⟩ := exists_of_newestFunding h
  obtain ⟨hmem, hrecent⟩ := mem_recentBlocks hp
  exact ⟨p.2, hmem, hrecent, (isFundingOf_of_blockFunding hfunding).1.funds⟩

theorem newestFunding_takeWhile {indexes : List (Nat × CBlock)}
    (h : ∀ p ∈ indexes.dropWhile (isRecent cutoffTime), isRecent cutoffTime p = true →
      ∀ msgId txid, ¬ p.2.FundsMsgId msgId txid) (msgId : MsgId) :
    newestFunding (indexes.takeWhile (isRecent cutoffTime)) msgId =
      newestFunding (indexes.filter (isRecent cutoffTime)) msgId := by
  have hbehind : newestFunding ((indexes.dropWhile (isRecent cutoffTime)).filter
      (isRecent cutoffTime)) msgId = none := by
    rw [newestFunding_eq_none]
    intro p hp
    obtain ⟨hmem, hrecent⟩ := mem_filter.mp hp
    exact blockFunding_eq_none_iff.mpr (h p hmem hrecent msgId)
  have htake : (indexes.takeWhile (isRecent cutoffTime)).filter (isRecent cutoffTime) =
      indexes.takeWhile (isRecent cutoffTime) :=
    filter_eq_self.mpr fun p hp => mem_takeWhile_imp hp
  conv_rhs => rw [← takeWhile_append_dropWhile (p := isRecent cutoffTime) (l := indexes)]
  rw [filter_append, newestFunding_append, hbehind, htake, or_none]

theorem newestFunding_filter {indexes : List (Nat × CBlock)}
    (h : newestFunding indexes msgId = some record) (hrecent : cutoffTime ≤ record.blockTime) :
    newestFunding (indexes.filter (isRecent cutoffTime)) msgId = some record := by
  induction indexes with
  | nil => cases h
  | cons p indexes ih =>
    rw [newestFunding_cons] at h
    obtain hfunding | ⟨hnone, hrest⟩ := or_eq_some_iff.mp h
    · obtain ⟨hof, -⟩ := isFundingOf_of_blockFunding hfunding
      have hp : isRecent cutoffTime p = true := decide_eq_true (hof.blockTime_eq ▸ hrecent)
      simp [hp, hfunding]
    · cases hp : isRecent cutoffTime p <;> simp [hp, hnone, ih hrest]

/-! ## The invariant -/

/-- The map and the database agree and have the last funding of a message in the chain if it
is recent, unless it was pruned.  The marker is the tip or above it. -/
structure Inv (known : CBlock → Prop) (n : IndexNode) : Prop where
  blocks_known : ∀ block ∈ n.chain, known block
  linked : Linked n.chain
  stored : n.smsg.Stored
  sound : ∀ msgId record, n.smsg.mapPaidFundingByMsgId.lookup msgId = some record →
    ∃ block, known block ∧ IsFundingOf record block msgId
  complete : ∀ msgId record, newestFunding (withHeights n.chain) msgId = some record →
    n.IsRecentIn record.blockTime →
      n.smsg.mapPaidFundingByMsgId.lookup msgId = some record ∨ msgId ∈ n.pruned
  marker : ∀ height blockHash, n.smsg.dbMarker = some (height, blockHash) →
    n.chain.length ≤ height + 1

variable {known : CBlock → Prop} {n : IndexNode}

theorem inv_init : Inv known init where
  blocks_known := fun _ h => nomatch h
  linked := .nil
  stored := stored_empty
  sound := fun _ _ h => nomatch h
  complete := fun _ _ h => nomatch h
  marker := fun _ _ h => nomatch h

theorem Inv.connected (h : Inv known n) {block : CBlock} (hblock : known block)
    (hlinked : Linked (block :: n.chain)) :
    Inv known (n.step records (.notified (.connected block))) := by
  have hlookup : ∀ msgId, (n.smsg.blockConnected block
      n.chain.length).mapPaidFundingByMsgId.lookup msgId =
        (blockFunding (n.chain.length, block) msgId).or
          (n.smsg.mapPaidFundingByMsgId.lookup msgId) :=
    fun msgId => n.smsg.lookup_indexBlock (n.chain.length, block) msgId
  constructor
  case blocks_known =>
    intro block' hmem
    obtain rfl | hmem := mem_cons.mp hmem
    · exact hblock
    · exact h.blocks_known block' hmem
  case linked => exact hlinked
  case stored => exact h.stored.indexBlock (n.chain.length, block)
  case sound =>
    intro msgId record hrecord
    obtain hnew | ⟨-, hold⟩ := or_eq_some_iff.mp ((hlookup msgId).symm.trans hrecord)
    · exact ⟨block, hblock, (isFundingOf_of_blockFunding hnew).1⟩
    · exact h.sound msgId record hold
  case complete =>
    intro msgId record hnewest hrecent
    have hnewest := (newestFunding_cons (n.chain.length, block) (withHeights n.chain)
      msgId).symm.trans hnewest
    refine Or.imp_left (hlookup msgId).trans ?_
    obtain hnew | ⟨hnone, hold⟩ := or_eq_some_iff.mp hnewest
    · exact .inl (or_eq_some_iff.mpr (.inl hnew))
    · rw [hnone, none_or]
      exact h.complete msgId record hold hrecent
  case marker =>
    intro height blockHash hmarker
    obtain ⟨rfl, -⟩ := Prod.mk.inj (Option.some.inj hmarker)
    exact Nat.le_refl _

theorem Inv.disconnected (h : Inv known n) {block : CBlock} (htip : n.chain.head? = some block)
    (hclean : n.Clean (.notified (.disconnected block))) :
    Inv known (n.step records (.notified (.disconnected block))) := by
  have hchain : n.chain = block :: n.chain.tail := (cons_head?_tail htip).symm
  constructor
  case blocks_known =>
    exact fun block' hmem => h.blocks_known block' (mem_of_mem_tail hmem)
  case linked => exact h.linked.tail
  case stored => exact h.stored.blockDisconnected block
  case sound =>
    intro msgId record hrecord
    apply h.sound msgId record
    by_cases hcarries : block.CarriesMsgId msgId
    · have hnone := lookup_blockDisconnected_of_carries (s := n.smsg) hcarries
      cases hnone.symm.trans hrecord
    · exact (lookup_blockDisconnected_of_not_carries hcarries).symm.trans hrecord
  case complete =>
    intro msgId record hnewest hrecent
    obtain ⟨p, hp, hfunding⟩ := exists_of_newestFunding hnewest
    obtain ⟨hof, -⟩ := isFundingOf_of_blockFunding hfunding
    by_cases hcarries : block.CarriesMsgId msgId
    · refine absurd hof.funds (hclean msgId hcarries p.2 (mem_withHeights hp) ?_ record.txid)
      rw [← hof.blockTime_eq]
      exact hrecent
    · have hblock : blockFunding (n.chain.tail.length, block) msgId = none :=
        blockFunding_eq_none_iff.mpr fun txid hfunds => hcarries hfunds.carries
      have hwhole : newestFunding (withHeights n.chain) msgId = some record := by
        rw [hchain, withHeights, newestFunding_cons, hblock, none_or]
        exact hnewest
      refine Or.imp_left (fun hlookup => ?_) (h.complete msgId record hwhole hrecent)
      exact (lookup_blockDisconnected_of_not_carries hcarries).trans hlookup
  case marker =>
    intro height blockHash hmarker
    have hlength := h.marker height blockHash
      ((n.smsg.dbMarker_blockDisconnected block).symm.trans hmarker)
    show n.chain.tail.length ≤ height + 1
    rw [length_tail]
    omega

/-! ## A start -/

section Start

theorem exists_marker {s : CSMSG} {height : Nat} (h : s.markerHeight chain = some height) :
    ∃ blockHash, s.dbMarker = some (height, blockHash) ∧
      onActiveChain chain height blockHash = true := by
  unfold markerHeight at h
  split at h
  · cases h
  case h_2 height' blockHash hmarker =>
    split at h
    case isTrue hon =>
      obtain rfl := Option.some.inj h
      exact ⟨blockHash, hmarker, hon⟩
    case isFalse => cases h

theorem lookup_scan_full {s : CSMSG} (hmarker : s.markerHeight chain = none)
    (h : ∀ p ∈ (withHeights chain).dropWhile (isRecent cutoffTime), isRecent cutoffTime p = true →
      ∀ msgId txid, ¬ p.2.FundsMsgId msgId txid) (msgId : MsgId) :
    (s.scanPaidFunding chain cutoffTime).mapPaidFundingByMsgId.lookup msgId =
      newestFunding (recentBlocks chain cutoffTime) msgId := by
  rw [scanPaidFunding, hmarker]
  simp only
  rw [lookup_indexBlocks, fullScan, newestFunding_takeWhile h]
  exact or_none

theorem Stored.scan_full {s : CSMSG} (hmarker : s.markerHeight chain = none) :
    (s.scanPaidFunding chain cutoffTime).Stored := by
  rw [scanPaidFunding, hmarker]
  exact stored_empty.indexBlocks _

theorem isStale_of_mem {p : Nat × CBlock} (hp : p ∈ withHeights chain)
    (hrecent : isRecent cutoffTime p = true) (h : blockFunding p msgId = some record) :
    isStale chain cutoffTime record = false := by
  obtain ⟨hof, hheight⟩ := isFundingOf_of_blockFunding h
  have hon : onActiveChain chain record.height record.blockHash = true := by
    rw [onActiveChain, hheight, getElem?_of_mem_withHeights hp, hof.blockHash_eq]
    simp
  have hle : cutoffTime ≤ record.blockTime := hof.blockTime_eq ▸ of_decide_eq_true hrecent
  simp [isStale, hon, hle]

@[simp] theorem markerHeight_inProcess (s : CSMSG) (fNewProcess : Bool) :
    (s.inProcess fNewProcess).markerHeight chain = s.markerHeight chain := by
  cases fNewProcess <;> rfl

theorem scan_of_marker {height : Nat} (hmarker : n.smsg.markerHeight chain = some height) :
    (n.smsg.inProcess true).scanPaidFunding chain cutoffTime =
      { (n.smsg.inProcess true).loadPaidFundingIndex chain cutoffTime with
        mapPaidFundingMisses := ∅ }.indexBlocks (scanFrom chain cutoffTime (height + 1)) := by
  rw [scanPaidFunding, markerHeight_inProcess, hmarker]

variable {fNewProcess : Bool}

theorem Inv.stored_scan (hclean : n.StartsCleanly fNewProcess chain cutoffTime) :
    ((n.smsg.inProcess fNewProcess).scanPaidFunding chain cutoffTime).Stored := by
  cases hmarker : n.smsg.markerHeight chain with
  | none => exact Stored.scan_full ((markerHeight_inProcess _ _).trans hmarker)
  | some height =>
    obtain ⟨rfl, -⟩ := hclean.marker (isSome_of_eq_some hmarker)
    rw [scan_of_marker hmarker]
    apply CSMSG.Stored.indexBlocks
    intro msgId
    exact (dbRecords_load chain cutoffTime (n.smsg.inProcess true) msgId).trans
      (lookup_load chain cutoffTime rfl msgId).symm

theorem fundedRecent_of_mem {p : Nat × CBlock} (hp : p ∈ withHeights chain)
    (hrecent : isRecent cutoffTime p = true) {txid : uint256} (h : p.2.FundsMsgId msgId txid) :
    FundedRecent chain cutoffTime msgId txid :=
  ⟨p.2, mem_withHeights hp, of_decide_eq_true hrecent, h⟩

variable (hbind : ∀ block block', known block → known block' → block.hash = block'.hash →
    block = block') (h : Inv known n) (hknown : ∀ block ∈ chain, known block)
  (hlinked : Linked chain)

include hbind h hknown

theorem Inv.fundedRecent_of_fresh (hrecord : n.smsg.dbRecords.lookup msgId = some record)
    (hfresh : isStale chain cutoffTime record = false) :
    FundedRecent chain cutoffTime msgId record.txid := by
  simp only [isStale, Bool.or_eq_false_iff, Bool.not_eq_false', decide_eq_false_iff_not,
    Int.not_lt] at hfresh
  obtain ⟨hon, hrecent⟩ := hfresh
  obtain ⟨block, hblock, hof⟩ := h.sound msgId record ((h.stored msgId).symm.trans hrecord)
  obtain ⟨-, block', hblock', hhash⟩ := exists_of_onActiveChain hon
  have hmem : block' ∈ chain := mem_reverse.mp (mem_of_getElem? hblock')
  have hsame : block' = block := hbind block' block (hknown block' hmem) hblock
    (hhash.trans hof.blockHash_eq)
  subst hsame
  exact ⟨block', hmem, hof.blockTime_eq ▸ hrecent, hof.funds⟩

include hlinked in
theorem Inv.split_at_marker {height : Nat} (hmarker : n.smsg.markerHeight chain = some height)
    (hsame : (n.smsg.markerHeight n.chain).isSome = true) :
    withHeights chain = (withHeights chain).take (chain.length - (height + 1)) ++
      withHeights n.chain := by
  obtain ⟨blockHash, hdb, hon⟩ := exists_marker hmarker
  obtain ⟨height', hmarker'⟩ := isSome_iff_exists.mp hsame
  obtain ⟨blockHash', hdb', hon'⟩ := exists_marker hmarker'
  obtain ⟨rfl, rfl⟩ := Prod.mk.inj (Option.some.inj (hdb.symm.trans hdb'))
  have htip : n.chain.length = height + 1 :=
    Nat.le_antisymm (h.marker height blockHash hdb) (exists_of_onActiveChain hon').1
  have hdrop := drop_eq_of_onActiveChain hbind h.linked hlinked h.blocks_known hknown hon' hon htip
  conv_lhs => rw [← take_append_drop (chain.length - (height + 1)) (withHeights chain)]
  rw [drop_withHeights, hdrop]

section

variable (hclean : n.StartsCleanly fNewProcess chain cutoffTime)

include hclean

theorem Inv.kept_eq (hmarker : (n.smsg.markerHeight chain).isSome = true)
    {above : List (Nat × CBlock)} (hsplit : withHeights chain = above ++ withHeights n.chain)
    (hnone : newestFunding (above.filter (isRecent cutoffTime)) msgId = none) :
    ((n.smsg.dbRecords.lookup msgId).filter fun record =>
        !isStale chain cutoffTime record) =
      newestFunding ((withHeights n.chain).filter (isRecent cutoffTime)) msgId := by
  cases hnewest : newestFunding ((withHeights n.chain).filter (isRecent cutoffTime)) msgId with
  | none =>
    rw [filter_eq_none_iff]
    intro record hrecord hfresh
    rw [Bool.not_eq_true'] at hfresh
    have hfunded := newestFunding_recentBlocks_isSome
      (h.fundedRecent_of_fresh hbind hknown hrecord hfresh)
    rw [recentBlocks, hsplit, filter_append, newestFunding_append, hnone, hnewest] at hfunded
    cases hfunded
  | some record =>
    obtain ⟨p, hp, hfunding⟩ := exists_of_newestFunding hnewest
    obtain ⟨hmem, hrecent⟩ := mem_filter.mp hp
    obtain ⟨hof, -⟩ := isFundingOf_of_blockFunding hfunding
    have hmem' : p ∈ withHeights chain := hsplit ▸ mem_append_right _ hmem
    have honTop := hclean.onTop
    rw [hsplit, dropWhile_append] at honTop
    -- a block above the marker that is too old would leave the funding behind
    have habove : (above.dropWhile (isRecent cutoffTime)).isEmpty = true := by
      by_contra hold
      rw [if_neg hold] at honTop
      exact honTop p (mem_append_right _ hmem) hrecent msgId record.txid hof.funds
    rw [if_pos habove] at honTop
    have hwhole : newestFunding (withHeights n.chain) msgId = some record := by
      rw [← takeWhile_append_dropWhile (p := isRecent cutoffTime) (l := withHeights n.chain),
        newestFunding_append, newestFunding_takeWhile honTop, hnewest]
      rfl
    have hle : cutoffTime ≤ record.blockTime := hof.blockTime_eq ▸ of_decide_eq_true hrecent
    have hfunded : FundedRecent chain cutoffTime msgId record.txid :=
      ⟨p.2, mem_withHeights hmem', of_decide_eq_true hrecent, hof.funds⟩
    obtain hlookup | hpruned := h.complete msgId record hwhole
      (fun last hlast => (hclean.clock last hlast).trans hle)
    · rw [h.stored msgId, hlookup, filter_some,
        if_pos (by simp [isStale_of_mem hmem' hrecent hfunding])]
    · exact absurd hfunded ((hclean.marker hmarker).2.2 msgId hpruned record.txid)

include hlinked

theorem Inv.lookup_scan (msgId : MsgId) :
    ((n.smsg.inProcess fNewProcess).scanPaidFunding chain
        cutoffTime).mapPaidFundingByMsgId.lookup msgId =
      newestFunding (recentBlocks chain cutoffTime) msgId := by
  cases hmarker : n.smsg.markerHeight chain with
  | none => exact lookup_scan_full ((markerHeight_inProcess _ _).trans hmarker) hclean.onTop msgId
  | some height =>
    have hsome := isSome_of_eq_some hmarker
    obtain ⟨rfl, hsame, -⟩ := hclean.marker hsome
    have hsplit := h.split_at_marker hbind hknown hlinked hmarker hsame
    rw [scan_of_marker hmarker, lookup_indexBlocks, scanFrom, recentBlocks]
    conv_rhs => rw [hsplit, filter_append, newestFunding_append]
    cases hnone : newestFunding (((withHeights chain).take
        (chain.length - (height + 1))).filter (isRecent cutoffTime)) msgId with
    | some record => rfl
    | none =>
      rw [none_or, none_or, ← h.kept_eq hbind hknown hclean hsome hsplit hnone]
      exact lookup_load chain cutoffTime rfl msgId

theorem Inv.indexesTxids_scan :
    ((n.smsg.inProcess fNewProcess).scanPaidFunding chain cutoffTime).IndexesTxids := by
  have hlookup := h.lookup_scan hbind hknown hlinked hclean
  have hnamed : ∀ msgId txid, FundedRecent chain cutoffTime msgId txid →
      ∃ msgId' record, ((n.smsg.inProcess fNewProcess).scanPaidFunding chain
        cutoffTime).mapPaidFundingByMsgId.lookup msgId' = some record ∧ record.txid = txid := by
    intro msgId txid hfunded
    obtain ⟨msgId', record, hrecord, htxid⟩ := hclean.named msgId txid hfunded
    exact ⟨msgId', record, (hlookup msgId').trans hrecord, htxid⟩
  cases hmarker : n.smsg.markerHeight chain with
  | none =>
    have hscan : (n.smsg.inProcess fNewProcess).scanPaidFunding chain cutoffTime =
        empty.indexBlocks (fullScan chain cutoffTime) := by
      rw [scanPaidFunding, markerHeight_inProcess, hmarker]
    rw [hscan] at hnamed ⊢
    apply indexesTxids_empty.indexBlocks
    rintro txid (hempty | ⟨p, hp, msgId, hfunds⟩)
    · cases hempty
    · exact hnamed msgId txid (fundedRecent_of_mem
        ((List.takeWhile_prefix _).subset hp) (mem_takeWhile_imp hp) hfunds)
  | some height =>
    obtain ⟨rfl, -⟩ := hclean.marker (isSome_of_eq_some hmarker)
    rw [scan_of_marker hmarker] at hnamed ⊢
    apply CSMSG.IndexesTxids.indexBlocks
    · exact indexesTxids_load (s := n.smsg.inProcess true) chain cutoffTime rfl rfl
    rintro txid (hloaded | ⟨p, hp, msgId, hfunds⟩)
    · obtain ⟨msgId, record, hrecord, hfresh, rfl⟩ :=
        (isSome_load (s := n.smsg.inProcess true) chain cutoffTime rfl txid).mp hloaded
      exact hnamed msgId _ (h.fundedRecent_of_fresh hbind hknown hrecord hfresh)
    · obtain ⟨hmem, hrecent⟩ := mem_filter.mp hp
      exact hnamed msgId txid (fundedRecent_of_mem (mem_of_mem_take hmem) hrecent hfunds)

end

variable {now : Int} (hclean : n.StartsCleanly fNewProcess chain (now - SMSG_RETENTION))

include hlinked hclean

theorem Inv.rebuilds : n.Rebuilds records (.started fNewProcess chain now) := by
  have hlookup := h.lookup_scan hbind hknown hlinked hclean
  have hcut : CSMSG.CleanCut fun msgId => ((n.smsg.inProcess fNewProcess).scanPaidFunding chain
      (now - SMSG_RETENTION)).mapPaidFundingByMsgId.lookup msgId := by
    rw [funext hlookup]
    exact hclean.cut
  refine ⟨⟨?_, ?_, ?_, ?_⟩, ?_⟩
  case refine_1 =>
    intro msgId record hrecord
    exact fundedRecent_of_newestFunding
      ((hlookup msgId).symm.trans (lookup_of_prune records hrecord))
  case refine_2 =>
    exact (length_prune records _).trans_le (min_le_right _ _)
  case refine_3 =>
    obtain hlt | hle := Nat.lt_or_ge ((n.smsg.inProcess fNewProcess).scanPaidFunding chain
      (now - SMSG_RETENTION)).mapPaidFundingByMsgId.entries.length SMSG_MAX_PAID_FUNDING_RECORDS
    · refine .inr fun msgId txid hfunded => ?_
      simp only [rebuildPaidFundingIndex, prune_of_le records hlt.le]
      rw [hlookup]
      exact newestFunding_recentBlocks_isSome hfunded
    · exact .inl ((length_prune records _).trans (min_eq_right hle))
  case refine_4 => exact (h.indexesTxids_scan hbind hknown hlinked hclean).prune records hcut
  case refine_5 =>
    intro msgId
    apply prune_congr records hcut
    intro msgId
    exact (hlookup msgId).trans (lookup_scan_full rfl hclean.onTop msgId).symm

theorem Inv.started : Inv known (n.step records (.started fNewProcess chain now)) := by
  have hlookup := h.lookup_scan hbind hknown hlinked hclean
  constructor
  case blocks_known => exact hknown
  case linked => exact hlinked
  case stored => exact (Inv.stored_scan hclean).prune records
  case sound =>
    intro msgId record hrecord
    obtain ⟨p, hp, hfunding⟩ := exists_of_newestFunding
      ((hlookup msgId).symm.trans (lookup_of_prune records hrecord))
    exact ⟨p.2, hknown p.2 (mem_recentBlocks hp).1, (isFundingOf_of_blockFunding hfunding).1⟩
  case complete =>
    intro msgId record hnewest hrecent
    have hscan := (hlookup msgId).trans (newestFunding_filter hnewest (hrecent _ rfl))
    cases hrebuilt : ((n.smsg.inProcess fNewProcess).rebuildPaidFundingIndex records chain
        now).mapPaidFundingByMsgId.lookup msgId with
    | some record' =>
      have hsame := lookup_of_prune records hrebuilt
      rw [hscan] at hsame
      rw [Option.some.inj hsame]
      exact .inl hrebuilt
    | none =>
      refine .inr (mem_append_right _ (mem_filter.mpr ⟨?_, by simp [hrebuilt]⟩))
      exact AList.mem_keys.mp (AList.lookup_isSome.mp (isSome_of_eq_some hscan))
  case marker =>
    intro height blockHash hmarker
    obtain ⟨tip, -, heq⟩ := map_eq_some_iff.mp hmarker
    obtain ⟨rfl, -⟩ := Prod.mk.inj heq
    show chain.length ≤ chain.length - 1 + 1
    omega

end Start

/-- In every run of clean steps, every start leaves the index of the recent blocks of the
active chain, from the marker or not. -/
theorem rebuilds_along (known : CBlock → Prop)
    (hbind : ∀ block block', known block → known block' → block.hash = block'.hash →
      block = block') (events : List IndexEvent)
    (hvalid : Along (step records) (Valid known) init events)
    (hclean : Along (step records) Clean init events) :
    Along (step records) (Rebuilds records) init events := by
  have hboth := (Along.and init events).mpr ⟨hvalid, hclean⟩
  refine Along.of_invariant (I := Inv known) ?_ ?_ inv_init hboth
  case refine_1 =>
    intro n e hn ⟨hv, hc⟩
    cases e with
    | notified e => trivial
    | started fNewProcess chain now => exact hn.rebuilds records hbind hv.1 hv.2 hc
  case refine_2 =>
    intro n e hn ⟨hv, hc⟩
    cases e with
    | started fNewProcess chain now => exact hn.started records hbind hv.1 hv.2 hc
    | notified e =>
      cases e with
      | connected block => exact hn.connected records hv.1 hv.2
      | disconnected block => exact hn.disconnected records hv hc

/-! ## A recent block below an old one -/

def stableSort : RecordSort where
  sort := fun l => l.mergeSort fun a b => !b.2.older a.2
  perm := fun l => List.mergeSort_perm l _
  sorted := fun l => by
    have hsorted : (l.mergeSort fun a b => !b.2.older a.2).Pairwise _ :=
      List.pairwise_mergeSort ?_ ?_ l
    · exact hsorted.imp fun h => by simpa using h
    · intro a b c
      simp only [PaidFundingRecord.older, Bool.not_eq_true']
      split_ifs <;> simp only [decide_eq_false_iff_not] <;> omega
    · intro a b
      simp only [PaidFundingRecord.older, Bool.or_eq_true, Bool.not_eq_true']
      split_ifs <;> simp only [decide_eq_false_iff_not] <;> omega

def paidBlock (hash hashPrevBlock : uint256) (nTime : Nat) : CBlock :=
  { FundingNode.carrierBlock hash hashPrevBlock 1 with nTime := nTime }

def plainBlock (hash hashPrevBlock : uint256) (nTime : Nat) : CBlock :=
  { FundingNode.carrierBlock hash hashPrevBlock 0 with nTime := nTime, vtx := [] }

def AfterMedianTimePast : List CBlock → Prop
  | [] => True
  | block :: chain =>
    (chain ≠ [] → getMedianTimePast (chain.map CBlock.toCBlockHeader) < block.nTime) ∧
      AfterMedianTimePast chain

/-- The third block pays for the message; the tip is earlier than it by an hour. -/
def skewedChain : List CBlock :=
  [plainBlock 4 3 1002, paidBlock 3 2 5000, plainBlock 2 1 1001, plainBlock 1 0 1000]

def skewedNow : Int := 2000 + SMSG_RETENTION

def notifiedNode : IndexNode :=
  (skewedChain.reverse.map fun block => IndexEvent.notified (.connected block)).foldl
    (step stableSort) init

/-- The walk back from the tip ends at once and misses the block that pays; from the marker
the record in the database is kept. -/
theorem recent_funding_below_old_tip :
    Linked skewedChain ∧ AfterMedianTimePast skewedChain ∧
      FundedRecent skewedChain (skewedNow - SMSG_RETENTION) FundingNode.contestedMsgId 3 ∧
      ((CSMSG.empty.rebuildPaidFundingIndex stableSort skewedChain
        skewedNow).mapPaidFundingByMsgId.lookup FundingNode.contestedMsgId) = none ∧
      (((notifiedNode.smsg.inProcess true).rebuildPaidFundingIndex stableSort skewedChain
        skewedNow).mapPaidFundingByMsgId.lookup FundingNode.contestedMsgId) =
          some ⟨3, 3, 2, 5000⟩ := by
  refine ⟨by unfold Linked; decide +kernel, ?_, ?_, by decide +kernel, by decide +kernel⟩
  · simp only [AfterMedianTimePast, skewedChain]
    decide +kernel
  · exact ⟨paidBlock 3 2 5000, by decide +kernel, by decide +kernel,
      FundingNode.carrierTx 3 1, by decide +kernel, rfl, by decide +kernel⟩

def soundChain : List CBlock := [paidBlock 1 0 5000]

def soundRun : List IndexEvent :=
  [.notified (.connected (paidBlock 1 0 5000)), .started true soundChain skewedNow]

theorem clean_soundRun : Along (step stableSort) Clean init soundRun := by
  refine ⟨trivial, ?_, trivial⟩
  constructor
  case clock => exact fun _ h => nomatch h
  case marker => exact fun _ => ⟨rfl, by decide +kernel, fun _ h => nomatch h⟩
  case onTop =>
    intro p hp
    have hnil : (withHeights soundChain).dropWhile
        (isRecent (skewedNow - SMSG_RETENTION)) = [] := by
      decide +kernel
    rw [hnil] at hp
    cases hp
  case named =>
    rintro msgId txid ⟨block, hblock, -, tx, htx, rfl, -⟩
    obtain rfl := mem_singleton.mp hblock
    obtain rfl := mem_singleton.mp htx
    exact ⟨FundingNode.contestedMsgId, ⟨1, 1, 0, 5000⟩, by decide +kernel, rfl⟩
  case cut =>
    refine ⟨[FundingNode.contestedMsgId], nodup_singleton _, fun msgId => ?_, .inl (by decide)⟩
    constructor
    · intro hmem
      rw [mem_singleton.mp hmem]
      decide +kernel
    · intro hsome
      obtain ⟨record, hrecord⟩ := isSome_iff_exists.mp hsome
      obtain ⟨block, hblock, -, tx, htx, -, txout, htxout, -, hextract⟩ :=
        fundedRecent_of_newestFunding hrecord
      obtain rfl := mem_singleton.mp hblock
      obtain rfl := mem_singleton.mp htx
      obtain rfl := mem_singleton.mp htxout
      have hcontested := extractPaidFundingMsgId_build
        (show FundingNode.contestedMsgId.length = SMSG_PAID_MSGID_LEN by decide)
      exact mem_singleton.mpr (Option.some.inj (hextract.symm.trans hcontested))

theorem rebuilds_along_soundRun : Along (step stableSort) (Rebuilds stableSort) init soundRun :=
  rebuilds_along stableSort (· = paidBlock 1 0 5000) (by rintro _ _ rfl rfl -; rfl) soundRun
    ⟨⟨rfl, .singleton _⟩, ⟨fun _ h => mem_singleton.mp h, .singleton _⟩, trivial⟩
    clean_soundRun

end IndexNode

end Verge
