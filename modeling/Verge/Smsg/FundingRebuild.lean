import Verge.Smsg.PaidFunding
import Verge.Smsg.Bucket
import Verge.Foundation.Eviction

/-!
# Rebuilding the index of paid message fundings

`RebuildPaidFundingIndex` loads the records that an earlier run left in the database.  If
the marker is on the active chain it indexes the recent blocks above the marker; if not
it forgets everything and walks back from the tip to the first block that is too old.
Chains are given from the tip on.  Blocks can be read and the database opens.
-/

namespace Verge

open Foundation List AssocMap WriteLog CSMSG

def SMSG_MAX_PAID_FUNDING_RECORDS : Nat := 500000

def PaidFundingRecord.older (a b : PaidFundingRecord) : Bool :=
  if a.blockTime ≠ b.blockTime then a.blockTime < b.blockTime else a.height < b.height

abbrev FundingEntry := Sigma fun _ : MsgId => PaidFundingRecord

/-- `std::sort` with that order: the place of records of one block is left open. -/
structure RecordSort where
  sort : List FundingEntry → List FundingEntry
  perm : ∀ l, (sort l).Perm l
  sorted : ∀ l, (sort l).Pairwise fun a b => b.2.older a.2 = false

def withHeights : List CBlock → List (Nat × CBlock)
  | [] => []
  | block :: chain => (chain.length, block) :: withHeights chain

def onActiveChain (chain : List CBlock) (height : Nat) (blockHash : uint256) : Bool :=
  (chain.reverse[height]?).map (fun block => block.hash) == some blockHash

def isRecent (cutoffTime : Int) (p : Nat × CBlock) : Bool := decide (cutoffTime ≤ p.2.nTime)

namespace CSMSG

/-- The body of the loop of `PrunePaidFundingIndex`. -/
def pruneRecord (s : CSMSG) (e : FundingEntry) : CSMSG :=
  { s with
    mapPaidFundingByTxid := s.mapPaidFundingByTxid.erase e.2.txid
    mapPaidFundingByMsgId := s.mapPaidFundingByMsgId.erase e.1
    dbRecords := s.dbRecords.erase e.1 }

def prunePaidFundingIndex (records : RecordSort) (s : CSMSG) : CSMSG :=
  if s.mapPaidFundingByMsgId.entries.length ≤ SMSG_MAX_PAID_FUNDING_RECORDS then s
  else
    let nToPrune := s.mapPaidFundingByMsgId.entries.length - SMSG_MAX_PAID_FUNDING_RECORDS
    ((records.sort s.mapPaidFundingByMsgId.entries).take nToPrune).foldl pruneRecord s

section Rebuild

variable (chain : List CBlock) (cutoffTime : Int)

def isStale (record : PaidFundingRecord) : Bool :=
  !onActiveChain chain record.height record.blockHash || decide (record.blockTime < cutoffTime)

def loadRecord (s : CSMSG) (e : FundingEntry) : CSMSG :=
  if isStale chain cutoffTime e.2 then s
  else
    { s with
      mapPaidFundingByMsgId := s.mapPaidFundingByMsgId.insert e.1 e.2
      mapPaidFundingByTxid := s.mapPaidFundingByTxid.insert e.2.txid e.2 }

def staleMsgIds (s : CSMSG) : List MsgId :=
  (s.dbRecords.entries.filter fun e => isStale chain cutoffTime e.2).map Sigma.fst

def loadPaidFundingIndex (s : CSMSG) : CSMSG :=
  let loaded := s.dbRecords.entries.foldl (loadRecord chain cutoffTime) s
  { loaded with dbRecords := loaded.dbRecords.eraseAll (s.staleMsgIds chain cutoffTime) }

def markerHeight (s : CSMSG) : Option Nat :=
  match s.dbMarker with
  | none => none
  | some (height, blockHash) => if onActiveChain chain height blockHash then some height else none

def fullScan : List (Nat × CBlock) := (withHeights chain).takeWhile (isRecent cutoffTime)

def scanFrom (nStartHeight : Nat) : List (Nat × CBlock) :=
  ((withHeights chain).take (chain.length - nStartHeight)).filter (isRecent cutoffTime)

def indexBlock (s : CSMSG) (p : Nat × CBlock) : CSMSG :=
  p.2.vtx.foldl (fun s tx => s.indexPaidFundingTransaction tx p.2.hash p.1 p.2.nTime) s

def indexBlocks (s : CSMSG) (indexes : List (Nat × CBlock)) : CSMSG :=
  indexes.reverse.foldl indexBlock s

def scanPaidFunding (s : CSMSG) : CSMSG :=
  let loaded := s.loadPaidFundingIndex chain cutoffTime
  match s.markerHeight chain with
  | some height =>
    { loaded with mapPaidFundingMisses := ∅ }.indexBlocks
      (scanFrom chain cutoffTime (height + 1))
  | none => CSMSG.empty.indexBlocks (fullScan chain cutoffTime)

end Rebuild

def rebuildPaidFundingIndex (records : RecordSort) (s : CSMSG) (chain : List CBlock) (now : Int) :
    CSMSG :=
  { (s.scanPaidFunding chain (now - SMSG_RETENTION)).prunePaidFundingIndex records with
    dbMarker := chain.head?.map fun tip => (chain.length - 1, tip.hash) }

end CSMSG

/-! ## What a block contributes -/

def newestFunding (indexes : List (Nat × CBlock)) (msgId : MsgId) : Option PaidFundingRecord :=
  indexes.findSome? fun p => blockFunding p msgId

variable {msgId : MsgId} {p : Nat × CBlock} {indexes : List (Nat × CBlock)} {chain : List CBlock}
  {record : PaidFundingRecord}

@[simp] theorem newestFunding_cons (p : Nat × CBlock) (indexes : List (Nat × CBlock))
    (msgId : MsgId) : newestFunding (p :: indexes) msgId =
      (blockFunding p msgId).or (newestFunding indexes msgId) := by
  rw [newestFunding, List.findSome?_cons]
  cases blockFunding p msgId <;> rfl

@[simp] theorem newestFunding_append (indexes indexes' : List (Nat × CBlock)) (msgId : MsgId) :
    newestFunding (indexes ++ indexes') msgId =
      (newestFunding indexes msgId).or (newestFunding indexes' msgId) :=
  List.findSome?_append

theorem newestFunding_eq_none :
    newestFunding indexes msgId = none ↔ ∀ p ∈ indexes, blockFunding p msgId = none :=
  List.findSome?_eq_none_iff

theorem exists_of_newestFunding (h : newestFunding indexes msgId = some record) :
    ∃ p ∈ indexes, blockFunding p msgId = some record :=
  exists_of_findSome?_eq_some h

namespace CSMSG

theorem lookup_indexBlock (s : CSMSG) (p : Nat × CBlock) (msgId : MsgId) :
    (s.indexBlock p).mapPaidFundingByMsgId.lookup msgId =
      (blockFunding p msgId).or (s.mapPaidFundingByMsgId.lookup msgId) :=
  lookup_blockConnected msgId s p.2 p.1

theorem lookup_indexBlocks (s : CSMSG) (indexes : List (Nat × CBlock)) (msgId : MsgId) :
    (s.indexBlocks indexes).mapPaidFundingByMsgId.lookup msgId =
      (newestFunding indexes msgId).or (s.mapPaidFundingByMsgId.lookup msgId) := by
  induction indexes with
  | nil => rfl
  | cons p indexes ih =>
    rw [indexBlocks, reverse_cons, foldl_append, foldl_cons, foldl_nil,
      lookup_indexBlock]
    rw [indexBlocks] at ih
    rw [ih, newestFunding_cons, Option.or_assoc]

end CSMSG

/-! ## Heights -/

theorem drop_withHeights (chain : List CBlock) (n : Nat) :
    (withHeights chain).drop n = withHeights (chain.drop n) := by
  induction chain generalizing n with
  | nil => simp [withHeights]
  | cons block chain ih =>
    cases n with
    | zero => rfl
    | succ n => exact ih n

theorem mem_withHeights (h : p ∈ withHeights chain) :
    p.2 ∈ chain := by
  induction chain with
  | nil => cases h
  | cons block chain ih =>
    obtain rfl | h := mem_cons.mp h
    · exact mem_cons_self
    · exact mem_cons_of_mem _ (ih h)

theorem exists_mem_withHeights {block : CBlock} (h : block ∈ chain) :
    ∃ height, (height, block) ∈ withHeights chain := by
  induction chain with
  | nil => cases h
  | cons block' chain ih =>
    obtain rfl | h := mem_cons.mp h
    · exact ⟨chain.length, mem_cons_self⟩
    · obtain ⟨height, hmem⟩ := ih h
      exact ⟨height, mem_cons_of_mem _ hmem⟩

theorem getElem?_of_mem_withHeights (h : p ∈ withHeights chain) :
    chain.reverse[p.1]? = some p.2 := by
  induction chain with
  | nil => cases h
  | cons block chain ih =>
    rw [reverse_cons]
    obtain rfl | h := mem_cons.mp h
    · simp
    · have hlt := (List.getElem?_eq_some_iff.mp (ih h)).1
      rw [List.getElem?_append_left hlt]
      exact ih h

theorem exists_of_onActiveChain {height : Nat} {blockHash : uint256}
    (h : onActiveChain chain height blockHash = true) :
    height < chain.length ∧ ∃ block, chain.reverse[height]? = some block ∧
      block.hash = blockHash := by
  rw [onActiveChain, beq_iff_eq, Option.map_eq_some_iff] at h
  obtain ⟨block, hblock, hhash⟩ := h
  have hlt := (List.getElem?_eq_some_iff.mp hblock).1
  rw [length_reverse] at hlt
  exact ⟨hlt, block, hblock, hhash⟩

/-! ## The database and the transactions -/

namespace CSMSG

def Stored (s : CSMSG) : Prop :=
  ∀ msgId, s.dbRecords.lookup msgId = s.mapPaidFundingByMsgId.lookup msgId

theorem stored_empty : empty.Stored := fun _ => rfl

variable {s : CSMSG}

theorem Stored.foldl {α : Type} {step : CSMSG → α → CSMSG}
    (hstep : ∀ s a, s.Stored → (step s a).Stored) (l : List α) (h : s.Stored) :
    (l.foldl step s).Stored := by
  induction l generalizing s with
  | nil => exact h
  | cons a l ih => exact ih (hstep s a h)

section

variable (h : s.Stored)

include h

theorem Stored.indexOutput (record : PaidFundingRecord) (txout : CTxOut) :
    (indexOutput record s txout).Stored := by
  unfold CSMSG.indexOutput
  split
  · exact h
  · split
    · exact h
    · intro msgId
      simp only [lookup_insert_ite, h msgId]

theorem Stored.removeOutput (txout : CTxOut) : (removeOutput s txout).Stored := by
  unfold CSMSG.removeOutput
  split
  · exact h
  · intro msgId
    simp only [lookup_erase_ite, h msgId]

theorem Stored.indexBlock (p : Nat × CBlock) : (s.indexBlock p).Stored :=
  Stored.foldl (fun _ tx hs => Stored.foldl (fun _ txout hs => hs.indexOutput _ txout) tx.vout hs)
    p.2.vtx h

theorem Stored.indexBlocks (indexes : List (Nat × CBlock)) : (s.indexBlocks indexes).Stored :=
  Stored.foldl (fun _ p hs => hs.indexBlock p) indexes.reverse h

theorem Stored.blockDisconnected (block : CBlock) : (s.blockDisconnected block).Stored :=
  Stored.foldl (fun _ tx hs => Stored.foldl (fun _ txout hs => hs.removeOutput txout) tx.vout hs)
    block.vtx h

end

theorem dbMarker_blockDisconnected (s : CSMSG) (block : CBlock) :
    (s.blockDisconnected block).dbMarker = s.dbMarker := by
  have houtput : ∀ (vout : List CTxOut) (s : CSMSG),
      (vout.foldl CSMSG.removeOutput s).dbMarker = s.dbMarker := by
    intro vout
    induction vout with
    | nil => exact fun _ => rfl
    | cons txout vout ih =>
      intro s
      rw [foldl_cons, ih, CSMSG.removeOutput]
      split <;> rfl
  unfold CSMSG.blockDisconnected
  generalize block.vtx = vtx
  induction vtx generalizing s with
  | nil => rfl
  | cons tx vtx ih => exact (ih _).trans (houtput tx.vout s)

theorem isSome_indexOutputs (record : PaidFundingRecord) (vout : List CTxOut) (s : CSMSG)
    (txid : uint256) :
    ((vout.foldl (indexOutput record) s).mapPaidFundingByTxid.lookup txid).isSome = true ↔
      (s.mapPaidFundingByTxid.lookup txid).isSome = true ∨ record.txid = txid ∧
        ∃ msgId, ∃ txout ∈ vout, SMSG_PAID_MSG_FEE ≤ txout.nValue ∧
          extractPaidFundingMsgId txout.scriptPubKey = some msgId := by
  induction vout generalizing s with
  | nil => simp
  | cons txout vout ih =>
    rw [foldl_cons, ih]
    by_cases hfee : txout.nValue < SMSG_PAID_MSG_FEE
    · simp [indexOutput, hfee, Int.not_le.mpr hfee]
    · cases hextract : extractPaidFundingMsgId txout.scriptPubKey with
      | none => simp [indexOutput, hfee, hextract]
      | some msgId =>
        simp only [indexOutput, hfee, if_false, hextract, lookup_insert_ite,
          mem_cons, exists_eq_or_imp, Int.not_lt.mp hfee, true_and, Option.some.injEq]
        by_cases htxid : txid = record.txid
        · simp [htxid]
        · simp [htxid, Ne.symm htxid]

theorem isSome_indexBlock (s : CSMSG) (p : Nat × CBlock) (txid : uint256) :
    ((s.indexBlock p).mapPaidFundingByTxid.lookup txid).isSome = true ↔
      (s.mapPaidFundingByTxid.lookup txid).isSome = true ∨ ∃ msgId, p.2.FundsMsgId msgId txid := by
  unfold indexBlock CBlock.FundsMsgId
  generalize p.2.vtx = vtx
  induction vtx generalizing s with
  | nil => simp
  | cons tx vtx ih =>
    rw [foldl_cons, ih, indexPaidFundingTransaction, isSome_indexOutputs, or_assoc]
    simp only [mem_cons, exists_eq_or_imp, exists_or, CTransaction.FundsMsgId,
      exists_and_left]

theorem isSome_indexBlocks (s : CSMSG) (indexes : List (Nat × CBlock)) (txid : uint256) :
    ((s.indexBlocks indexes).mapPaidFundingByTxid.lookup txid).isSome = true ↔
      (s.mapPaidFundingByTxid.lookup txid).isSome = true ∨
        ∃ p ∈ indexes, ∃ msgId, p.2.FundsMsgId msgId txid := by
  induction indexes with
  | nil => simp [indexBlocks]
  | cons p indexes ih =>
    rw [indexBlocks, reverse_cons, foldl_append, foldl_cons, foldl_nil,
      isSome_indexBlock]
    rw [indexBlocks] at ih
    rw [ih]
    simp only [mem_cons, exists_eq_or_imp]
    exact or_assoc.trans (or_congr_right or_comm)

/-! ## Loading the records -/

section Load

variable (chain : List CBlock) (cutoffTime : Int)

@[simp] theorem loadRecord_dbRecords (s : CSMSG) (e : FundingEntry) :
    (loadRecord chain cutoffTime s e).dbRecords = s.dbRecords := by
  unfold loadRecord
  split <;> rfl

theorem foldl_loadRecord_dbRecords (entries : List FundingEntry) (s : CSMSG) :
    (entries.foldl (loadRecord chain cutoffTime) s).dbRecords = s.dbRecords := by
  induction entries generalizing s with
  | nil => rfl
  | cons e entries ih => simp [ih]

theorem mem_staleMsgIds :
    msgId ∈ s.staleMsgIds chain cutoffTime ↔
      ∃ record, s.dbRecords.lookup msgId = some record ∧
        isStale chain cutoffTime record = true := by
  simp only [staleMsgIds, mem_map, mem_filter]
  constructor
  · rintro ⟨e, ⟨he, hstale⟩, rfl⟩
    exact ⟨e.2, AssocMap.lookup_eq_some_iff.mpr he, hstale⟩
  · rintro ⟨record, hlookup, hstale⟩
    exact ⟨⟨msgId, record⟩, ⟨AssocMap.lookup_eq_some_iff.mp hlookup, hstale⟩, rfl⟩

theorem dbRecords_load (s : CSMSG) (msgId : MsgId) :
    (s.loadPaidFundingIndex chain cutoffTime).dbRecords.lookup msgId =
      (s.dbRecords.lookup msgId).filter fun record => !isStale chain cutoffTime record := by
  have hmem : msgId ∈ s.staleMsgIds chain cutoffTime ↔ _ := mem_staleMsgIds chain cutoffTime
  simp only [loadPaidFundingIndex, foldl_loadRecord_dbRecords, lookup_eraseAll]
  cases hlookup : s.dbRecords.lookup msgId with
  | none => simp
  | some record =>
    simp only [hlookup, Option.some.injEq, exists_eq_left'] at hmem
    by_cases hstale : isStale chain cutoffTime record = true
    · rw [if_pos (hmem.mpr hstale), Option.filter_some, if_neg (by simp [hstale])]
    · rw [if_neg (fun h => hstale (hmem.mp h)), Option.filter_some, if_pos (by simp [hstale])]

theorem lookup_load (hmap : s.mapPaidFundingByMsgId = ∅) (msgId : MsgId) :
    (s.loadPaidFundingIndex chain cutoffTime).mapPaidFundingByMsgId.lookup msgId =
      (s.dbRecords.lookup msgId).filter fun record => !isStale chain cutoffTime record := by
  have hread := foldl_read
    (fun s msgId record => loadRecord chain cutoffTime s ⟨msgId, record⟩)
    (fun s msgId => s.mapPaidFundingByMsgId.lookup msgId)
    (fun _ record old => if isStale chain cutoffTime record then old else some record)
    (by
      intro s k record a
      simp only [loadRecord]
      split
      · split
        case isTrue h => rw [h]
        case isFalse => rfl
      · exact lookup_insert_ite _ _ _ _)
    s.dbRecords s msgId
  simp only [loadPaidFundingIndex]
  refine hread.trans ?_
  rw [hmap]
  cases s.dbRecords.lookup msgId with
  | none => rfl
  | some record =>
    cases hstale : isStale chain cutoffTime record <;> simp [hstale, Option.filter_some]

theorem isSome_load (hmap : s.mapPaidFundingByTxid = ∅) (txid : uint256) :
    ((s.loadPaidFundingIndex chain cutoffTime).mapPaidFundingByTxid.lookup txid).isSome = true ↔
      ∃ msgId record, s.dbRecords.lookup msgId = some record ∧
        isStale chain cutoffTime record = false ∧ record.txid = txid := by
  have hfold : ∀ (entries : List FundingEntry) (s : CSMSG),
      ((entries.foldl (loadRecord chain cutoffTime) s).mapPaidFundingByTxid.lookup txid).isSome
          = true ↔
        (s.mapPaidFundingByTxid.lookup txid).isSome = true ∨
          ∃ e ∈ entries, isStale chain cutoffTime e.2 = false ∧ e.2.txid = txid := by
    intro entries
    induction entries with
    | nil => simp
    | cons e entries ih =>
      intro s
      rw [foldl_cons, ih]
      cases hstale : isStale chain cutoffTime e.2 with
      | true => simp [loadRecord, hstale]
      | false =>
        simp only [loadRecord, hstale, Bool.false_eq_true, if_false,
          lookup_insert_ite, mem_cons, exists_eq_or_imp, true_and]
        by_cases htxid : txid = e.2.txid
        · simp [htxid]
        · simp [htxid, Ne.symm htxid]
  refine (hfold s.dbRecords.entries s).trans ?_
  simp only [hmap, AList.lookup_empty, Option.isSome_none, Bool.false_eq_true, false_or,
    AssocMap.lookup_eq_some_iff]
  exact ⟨fun ⟨e, he, h⟩ => ⟨e.1, e.2, he, h⟩,
    fun ⟨msgId, record, he, h⟩ => ⟨⟨msgId, record⟩, he, h⟩⟩

end Load

/-! ## Pruning -/

theorem older_of_not_older {a b bound : PaidFundingRecord} (hb : b.older bound = true)
    (hba : b.older a = false) : a.older bound = true := by
  unfold PaidFundingRecord.older at *
  split_ifs at * <;> simp only [decide_eq_true_eq, decide_eq_false_iff_not] at * <;> omega

theorem foldl_pruneRecord (entries : List FundingEntry) (s : CSMSG) :
    entries.foldl pruneRecord s =
      { s with
        mapPaidFundingByTxid := s.mapPaidFundingByTxid.eraseAll (entries.map (·.2.txid))
        mapPaidFundingByMsgId := s.mapPaidFundingByMsgId.eraseAll (entries.map Sigma.fst)
        dbRecords := s.dbRecords.eraseAll (entries.map Sigma.fst) } := by
  induction entries generalizing s with
  | nil => rfl
  | cons e entries ih => exact ih (s.pruneRecord e)

def IndexesTxids (s : CSMSG) : Prop :=
  ∀ txid, (s.mapPaidFundingByTxid.lookup txid).isSome = true ↔
    ∃ msgId record, s.mapPaidFundingByMsgId.lookup msgId = some record ∧ record.txid = txid

theorem indexesTxids_empty : empty.IndexesTxids := by
  intro txid
  simp [empty]

theorem indexesTxids_load (chain : List CBlock) (cutoffTime : Int)
    (hmap : s.mapPaidFundingByMsgId = ∅) (htxids : s.mapPaidFundingByTxid = ∅) :
    (s.loadPaidFundingIndex chain cutoffTime).IndexesTxids := by
  intro txid
  simp only [isSome_load chain cutoffTime htxids, lookup_load chain cutoffTime hmap,
    Option.filter_eq_some_iff, Bool.not_eq_true', and_assoc]

theorem IndexesTxids.indexBlocks (h : s.IndexesTxids)
    (hnamed : ∀ txid, (s.mapPaidFundingByTxid.lookup txid).isSome = true ∨
        (∃ p ∈ indexes, ∃ msgId, p.2.FundsMsgId msgId txid) →
      ∃ msgId record, (s.indexBlocks indexes).mapPaidFundingByMsgId.lookup msgId = some record ∧
        record.txid = txid) :
    (s.indexBlocks indexes).IndexesTxids := by
  intro txid
  rw [isSome_indexBlocks]
  refine ⟨hnamed txid, ?_⟩
  rintro ⟨msgId, record, hrecord, rfl⟩
  rw [lookup_indexBlocks] at hrecord
  obtain hnewest | ⟨-, hold⟩ := Option.or_eq_some_iff.mp hrecord
  · obtain ⟨p, hp, hfunding⟩ := exists_of_newestFunding hnewest
    exact .inr ⟨p, hp, msgId, (isFundingOf_of_blockFunding hfunding).1.funds⟩
  · exact .inl ((h record.txid).mpr ⟨msgId, record, hold, rfl⟩)

structure CutsAt (map : AssocMap MsgId PaidFundingRecord) (bound : PaidFundingRecord) : Prop where
  count : map.entries.countP (fun e => e.2.older bound) =
    map.entries.length - SMSG_MAX_PAID_FUNDING_RECORDS
  txids : ∀ msgId msgId' record record', map.lookup msgId = some record →
    map.lookup msgId' = some record' → record.txid = record'.txid →
      record.older bound = record'.older bound

/-- Of the messages that have a record nothing is pruned, or the cut separates no two records of
one block or transaction. -/
def CleanCut (funding : MsgId → Option PaidFundingRecord) : Prop :=
  ∃ messages : List MsgId, messages.Nodup ∧
    (∀ msgId, msgId ∈ messages ↔ (funding msgId).isSome = true) ∧
    (messages.length ≤ SMSG_MAX_PAID_FUNDING_RECORDS ∨ ∃ bound : PaidFundingRecord,
      messages.countP (fun msgId => (funding msgId).any fun record => record.older bound) =
        messages.length - SMSG_MAX_PAID_FUNDING_RECORDS ∧
      ∀ msgId msgId' record record', funding msgId = some record → funding msgId' = some record' →
        record.txid = record'.txid → record.older bound = record'.older bound)

variable {map map' : AssocMap MsgId PaidFundingRecord}
  (heq : ∀ msgId, map.lookup msgId = map'.lookup msgId)

include heq in
theorem CutsAt.congr {bound : PaidFundingRecord} (h : CutsAt map bound) : CutsAt map' bound := by
  have hperm := entries_perm heq
  constructor
  · rw [← hperm.countP_eq, ← hperm.length_eq, h.count]
  · intro msgId msgId' record record' hrecord hrecord'
    rw [← heq] at hrecord hrecord'
    exact h.txids msgId msgId' record record' hrecord hrecord'

omit heq in
theorem CleanCut.cutsAt (h : CleanCut fun msgId => map.lookup msgId) :
    map.entries.length ≤ SMSG_MAX_PAID_FUNDING_RECORDS ∨ ∃ bound, CutsAt map bound := by
  obtain ⟨messages, hnodup, hmem, h⟩ := h
  have hperm : messages.Perm (map.entries.map Sigma.fst) := by
    refine (perm_ext_iff_of_nodup hnodup map.nodupKeys).mpr fun msgId => ?_
    rw [hmem, AList.lookup_isSome]
    rfl
  rw [hperm.length_eq, length_map] at h
  refine h.imp_right fun ⟨bound, hcount, htxids⟩ => ⟨bound, ?_, htxids⟩
  rw [← hcount, hperm.countP_eq, countP_map]
  refine countP_congr fun e he => ?_
  simp [lookup_eq_some_iff.mpr he]

section Prune

variable (records : RecordSort)

theorem prune_of_le (h : s.mapPaidFundingByMsgId.entries.length ≤ SMSG_MAX_PAID_FUNDING_RECORDS) :
    s.prunePaidFundingIndex records = s := if_pos h

theorem Stored.prune (h : s.Stored) : (s.prunePaidFundingIndex records).Stored := by
  unfold prunePaidFundingIndex
  split
  · exact h
  · intro msgId
    simp only [foldl_pruneRecord]
    rw [lookup_eraseAll, lookup_eraseAll, h msgId]

theorem length_prune (s : CSMSG) :
    (s.prunePaidFundingIndex records).mapPaidFundingByMsgId.entries.length =
      min s.mapPaidFundingByMsgId.entries.length SMSG_MAX_PAID_FUNDING_RECORDS := by
  unfold prunePaidFundingIndex
  split
  case isTrue h => exact (min_eq_left h).symm
  case isFalse h =>
    have hlength := length_evict (records.perm s.mapPaidFundingByMsgId.entries)
      (Nat.sub_le s.mapPaidFundingByMsgId.entries.length SMSG_MAX_PAID_FUNDING_RECORDS)
    simp only [foldl_pruneRecord]
    omega

theorem lookup_of_prune
    (h : (s.prunePaidFundingIndex records).mapPaidFundingByMsgId.lookup msgId = some record) :
    s.mapPaidFundingByMsgId.lookup msgId = some record := by
  unfold prunePaidFundingIndex at h
  split at h
  · exact h
  · simp only [foldl_pruneRecord, lookup_eraseAll] at h
    split at h
    · cases h
    · exact h

variable {bound : PaidFundingRecord}

theorem sorted_older (bound : PaidFundingRecord) (l : List FundingEntry) :
    (records.sort l).Pairwise fun a b => b.2.older bound = true → a.2.older bound = true :=
  (records.sorted l).imp fun hba hb => older_of_not_older hb hba

section

variable (hlt : SMSG_MAX_PAID_FUNDING_RECORDS < s.mapPaidFundingByMsgId.entries.length)
  (h : CutsAt s.mapPaidFundingByMsgId bound)

include hlt h

theorem lookup_prune (msgId : MsgId) :
    (s.prunePaidFundingIndex records).mapPaidFundingByMsgId.lookup msgId =
      (s.mapPaidFundingByMsgId.lookup msgId).filter fun record => !record.older bound := by
  rw [prunePaidFundingIndex, if_neg (by omega), ← h.count]
  simp only [foldl_pruneRecord]
  exact lookup_evict (records.perm _) (sorted_older records bound _) msgId

theorem isSome_prune (txid : uint256) :
    ((s.prunePaidFundingIndex records).mapPaidFundingByTxid.lookup txid).isSome = true ↔
      (s.mapPaidFundingByTxid.lookup txid).isSome = true ∧
        ¬ ∃ msgId record, s.mapPaidFundingByMsgId.lookup msgId = some record ∧
          record.older bound = true ∧ record.txid = txid := by
  have hmem : txid ∈ ((records.sort s.mapPaidFundingByMsgId.entries).take
      (s.mapPaidFundingByMsgId.entries.countP fun e => e.2.older bound)).map (·.2.txid) ↔
      ∃ msgId record, s.mapPaidFundingByMsgId.lookup msgId = some record ∧
        record.older bound = true ∧ record.txid = txid := by
    have htake := fun e : FundingEntry => mem_take_sorted (e := e)
      (records.perm s.mapPaidFundingByMsgId.entries) (sorted_older records bound _)
    rw [mem_map]
    constructor
    · rintro ⟨e, he, rfl⟩
      obtain ⟨hlookup, holder⟩ := (htake e).mp he
      exact ⟨e.1, e.2, hlookup, holder, rfl⟩
    · rintro ⟨msgId, record, hlookup, holder, rfl⟩
      exact ⟨⟨msgId, record⟩, (htake _).mpr ⟨hlookup, holder⟩, rfl⟩
  rw [prunePaidFundingIndex, if_neg (by omega), ← h.count]
  simp only [foldl_pruneRecord]
  rw [lookup_eraseAll, ← hmem]
  split
  case isTrue hgone => exact iff_of_false Bool.false_ne_true fun h => h.2 hgone
  case isFalse hgone => exact ⟨fun h => ⟨h, hgone⟩, And.left⟩

end

theorem prune_congr {s' : CSMSG} (h : CleanCut fun msgId => s.mapPaidFundingByMsgId.lookup msgId)
    (heq : ∀ msgId, s.mapPaidFundingByMsgId.lookup msgId = s'.mapPaidFundingByMsgId.lookup msgId)
    (msgId : MsgId) :
    (s.prunePaidFundingIndex records).mapPaidFundingByMsgId.lookup msgId =
      (s'.prunePaidFundingIndex records).mapPaidFundingByMsgId.lookup msgId := by
  have hlength := (entries_perm heq).length_eq
  by_cases hle : s.mapPaidFundingByMsgId.entries.length ≤ SMSG_MAX_PAID_FUNDING_RECORDS
  · rw [prune_of_le records hle, prune_of_le records (hlength ▸ hle), heq]
  · obtain hle' | ⟨bound, hcut⟩ := h.cutsAt
    · exact absurd hle' hle
    · rw [lookup_prune records (by omega) hcut, lookup_prune records (by omega) (hcut.congr heq),
        heq]

theorem IndexesTxids.prune (h : s.IndexesTxids)
    (hclean : CleanCut fun msgId => s.mapPaidFundingByMsgId.lookup msgId) :
    (s.prunePaidFundingIndex records).IndexesTxids := by
  by_cases hle : s.mapPaidFundingByMsgId.entries.length ≤ SMSG_MAX_PAID_FUNDING_RECORDS
  · rwa [prune_of_le records hle]
  obtain hle' | ⟨bound, hcut⟩ := hclean.cutsAt
  · exact absurd hle' hle
  have hlt := Nat.lt_of_not_le hle
  intro txid
  simp only [isSome_prune records hlt hcut, h txid, lookup_prune records hlt hcut,
    Option.filter_eq_some_iff, Bool.not_eq_true']
  constructor
  · rintro ⟨⟨msgId, record, hlookup, htxid⟩, hcutoff⟩
    refine ⟨msgId, record, ⟨hlookup, ?_⟩, htxid⟩
    rw [← Bool.not_eq_true]
    exact fun holder => hcutoff ⟨msgId, record, hlookup, holder, htxid⟩
  · rintro ⟨msgId, record, ⟨hlookup, hkept⟩, htxid⟩
    refine ⟨⟨msgId, record, hlookup, htxid⟩, ?_⟩
    rintro ⟨msgId', record', hlookup', holder, htxid'⟩
    have hside := hcut.txids msgId msgId' record record' hlookup hlookup'
      (htxid.trans htxid'.symm)
    rw [hkept, holder] at hside
    cases hside

end Prune

end CSMSG

end Verge
