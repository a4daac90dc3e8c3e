import Verge.Script.Script
import Verge.Foundation.Runs
import Verge.Foundation.WriteLog

/-!
# The index of paid message fundings

`smsg/smessage.cpp`: a transaction output that carries a message id in an
`OP_RETURN` script pays for that message.  `CSMSG` keeps one record for each
message id and follows the active chain by `BlockConnected` and
`BlockDisconnected`.  The database copy of the index is written as the source
writes it; opening the database is taken to succeed.
-/

namespace Verge

open Foundation List WriteLog

def SMSG_PAID_MSG_FEE : Int := 1

def SMSG_PAID_FUNDING_MAGIC : List UInt8 := [0x53, 0x4d, 0x53, 0x47, 0x33]

def SMSG_PAID_MSGID_LEN : Nat := 28

def SMSG_PAID_FUNDING_DATA_LEN : Nat := 5 + SMSG_PAID_MSGID_LEN

abbrev MsgId := List UInt8

def buildPaidFundingData (msgId : MsgId) : List UInt8 := SMSG_PAID_FUNDING_MAGIC ++ msgId

def buildPaidFundingScript (msgId : MsgId) : CScript :=
  OP_RETURN :: pushData (buildPaidFundingData msgId)

def extractPaidFundingMsgId (script : CScript) : Option MsgId :=
  match getScriptOp script with
  | none => none
  | some (opcode, _, pc) =>
    if opcode ≠ OP_RETURN then none
    else
      match getScriptOp pc with
      | none => none
      | some (_, data, pc) =>
        if pc ≠ [] then none
        else if data.length ≠ SMSG_PAID_FUNDING_DATA_LEN then none
        else if data.take SMSG_PAID_FUNDING_MAGIC.length ≠ SMSG_PAID_FUNDING_MAGIC then none
        else some (data.drop SMSG_PAID_FUNDING_MAGIC.length)

theorem extractPaidFundingMsgId_build {msgId : MsgId} (h : msgId.length = SMSG_PAID_MSGID_LEN) :
    extractPaidFundingMsgId (buildPaidFundingScript msgId) = some msgId := by
  have hlen : (buildPaidFundingData msgId).length = SMSG_PAID_FUNDING_DATA_LEN := by
    simp [buildPaidFundingData, SMSG_PAID_FUNDING_MAGIC, SMSG_PAID_FUNDING_DATA_LEN, h]
    omega
  have hpush := getScriptOp_pushData (b := buildPaidFundingData msgId)
    (by rw [hlen]; decide) []
  have hfirst : getScriptOp (buildPaidFundingScript msgId) =
      some (OP_RETURN, [], pushData (buildPaidFundingData msgId)) := by
    simp [buildPaidFundingScript, getScriptOp, show ¬ OP_RETURN ≤ 0x4e by decide]
  rw [append_nil] at hpush
  simp [extractPaidFundingMsgId, hfirst, hpush, hlen]
  simp [buildPaidFundingData]

structure PaidFundingRecord where
  txid : uint256
  blockHash : uint256
  height : Nat
  blockTime : Nat
  deriving DecidableEq, Repr

/-- The part of `CSMSG` that the index uses, with the two kinds of records it
keeps in the message database. -/
structure CSMSG where
  mapPaidFundingByMsgId : AssocMap MsgId PaidFundingRecord
  mapPaidFundingByTxid : AssocMap uint256 PaidFundingRecord
  mapPaidFundingMisses : AssocMap uint256 Int
  dbRecords : AssocMap MsgId PaidFundingRecord
  dbMarker : Option (Nat × uint256)

namespace CSMSG

def empty : CSMSG := ⟨∅, ∅, ∅, ∅, none⟩

/-- The body of the loop of `IndexPaidFundingTransaction`. -/
def indexOutput (record : PaidFundingRecord) (s : CSMSG) (txout : CTxOut) : CSMSG :=
  if txout.nValue < SMSG_PAID_MSG_FEE then s
  else
    match extractPaidFundingMsgId txout.scriptPubKey with
    | none => s
    | some msgId =>
      { s with
        mapPaidFundingByMsgId := s.mapPaidFundingByMsgId.insert msgId record
        mapPaidFundingByTxid := s.mapPaidFundingByTxid.insert record.txid record
        mapPaidFundingMisses := s.mapPaidFundingMisses.erase record.txid
        dbRecords := s.dbRecords.insert msgId record }

def indexPaidFundingTransaction (s : CSMSG) (tx : CTransaction) (blockHash : uint256)
    (height blockTime : Nat) : CSMSG :=
  tx.vout.foldl (indexOutput ⟨tx.hash, blockHash, height, blockTime⟩) s

/-- The body of the loop of `RemovePaidFundingTransaction`. -/
def removeOutput (s : CSMSG) (txout : CTxOut) : CSMSG :=
  match extractPaidFundingMsgId txout.scriptPubKey with
  | none => s
  | some msgId =>
    { s with
      mapPaidFundingByMsgId := s.mapPaidFundingByMsgId.erase msgId
      dbRecords := s.dbRecords.erase msgId }

def removePaidFundingTransaction (s : CSMSG) (tx : CTransaction) : CSMSG :=
  let s := tx.vout.foldl removeOutput s
  { s with mapPaidFundingByTxid := s.mapPaidFundingByTxid.erase tx.hash }

def blockConnected (s : CSMSG) (block : CBlock) (nHeight : Nat) : CSMSG :=
  let s := block.vtx.foldl
    (fun s tx => s.indexPaidFundingTransaction tx block.hash nHeight block.nTime) s
  { s with dbMarker := some (nHeight, block.hash) }

def blockDisconnected (s : CSMSG) (block : CBlock) : CSMSG :=
  block.vtx.foldl removePaidFundingTransaction s

def hasConfirmedPaidFunding (s : CSMSG) (msgId : MsgId) (txid : uint256) : Bool :=
  match s.mapPaidFundingByMsgId.lookup msgId with
  | none => false
  | some record => record.txid == txid

theorem hasConfirmedPaidFunding_iff {s : CSMSG} {msgId : MsgId} {txid : uint256} :
    s.hasConfirmedPaidFunding msgId txid = true ↔
      ∃ record, s.mapPaidFundingByMsgId.lookup msgId = some record ∧ record.txid = txid := by
  unfold hasConfirmedPaidFunding
  cases s.mapPaidFundingByMsgId.lookup msgId <;> simp

end CSMSG

/-- Some output of the transaction carries the message id, whatever its value. -/
def CTransaction.CarriesMsgId (tx : CTransaction) (msgId : MsgId) : Prop :=
  ∃ txout ∈ tx.vout, extractPaidFundingMsgId txout.scriptPubKey = some msgId

def CTransaction.FundsMsgId (tx : CTransaction) (msgId : MsgId) : Prop :=
  ∃ txout ∈ tx.vout, SMSG_PAID_MSG_FEE ≤ txout.nValue ∧
    extractPaidFundingMsgId txout.scriptPubKey = some msgId

def CBlock.CarriesMsgId (block : CBlock) (msgId : MsgId) : Prop :=
  ∃ tx ∈ block.vtx, tx.CarriesMsgId msgId

def CBlock.FundsMsgId (block : CBlock) (msgId : MsgId) (txid : uint256) : Prop :=
  ∃ tx ∈ block.vtx, tx.hash = txid ∧ tx.FundsMsgId msgId

def ConfirmedFunding (chain : List CBlock) (msgId : MsgId) (txid : uint256) : Prop :=
  ∃ block ∈ chain, block.FundsMsgId msgId txid

instance (tx : CTransaction) (msgId : MsgId) : Decidable (tx.FundsMsgId msgId) :=
  inferInstanceAs (Decidable (∃ txout ∈ tx.vout, _ ∧ _))

instance (chain : List CBlock) (msgId : MsgId) (txid : uint256) :
    Decidable (ConfirmedFunding chain msgId txid) :=
  inferInstanceAs (Decidable (∃ block ∈ chain, ∃ tx ∈ block.vtx, _ ∧ _))

/-- The record of the last transaction of a block that pays for the message. -/
def blockFunding (p : Nat × CBlock) (msgId : MsgId) : Option PaidFundingRecord :=
  (p.2.vtx.filter fun tx => decide (tx.FundsMsgId msgId)).getLast?.map
    fun tx => ⟨tx.hash, p.2.hash, p.1, p.2.nTime⟩

structure IsFundingOf (record : PaidFundingRecord) (block : CBlock) (msgId : MsgId) : Prop where
  funds : block.FundsMsgId msgId record.txid
  blockHash_eq : record.blockHash = block.hash
  blockTime_eq : record.blockTime = block.nTime

section

variable {p : Nat × CBlock} {msgId : MsgId} {record : PaidFundingRecord}

theorem isFundingOf_of_blockFunding (h : blockFunding p msgId = some record) :
    IsFundingOf record p.2 msgId ∧ record.height = p.1 := by
  obtain ⟨tx, htx, rfl⟩ := Option.map_eq_some_iff.mp h
  obtain ⟨hmem, hfunds⟩ := mem_filter.mp (mem_of_getLast? htx)
  exact ⟨⟨⟨tx, hmem, rfl, of_decide_eq_true hfunds⟩, rfl, rfl⟩, rfl⟩

theorem blockFunding_eq_none_iff :
    blockFunding p msgId = none ↔ ∀ txid, ¬ p.2.FundsMsgId msgId txid := by
  rw [blockFunding, Option.map_eq_none_iff, getLast?_eq_none_iff, filter_eq_nil_iff]
  constructor
  · rintro h txid ⟨tx, htx, -, hfunds⟩
    exact h tx htx (decide_eq_true hfunds)
  · intro h tx htx hfunds
    exact h tx.hash ⟨tx, htx, rfl, of_decide_eq_true hfunds⟩

end

theorem confirmedFunding_cons {block : CBlock} {chain : List CBlock} {msgId : MsgId}
    {txid : uint256} :
    ConfirmedFunding (block :: chain) msgId txid ↔
      block.FundsMsgId msgId txid ∨ ConfirmedFunding chain msgId txid := by
  simp [ConfirmedFunding]

theorem CBlock.FundsMsgId.carries {block : CBlock} {msgId : MsgId} {txid : uint256}
    (h : block.FundsMsgId msgId txid) : block.CarriesMsgId msgId := by
  obtain ⟨tx, htx, -, txout, hout, -, hextract⟩ := h
  exact ⟨tx, htx, txout, hout, hextract⟩

namespace CSMSG

def fundingWrites (tx : CTransaction) (record : PaidFundingRecord) :
    WriteLog MsgId PaidFundingRecord :=
  (tx.vout.filter fun txout => decide (SMSG_PAID_MSG_FEE ≤ txout.nValue)).filterMap fun txout =>
    (extractPaidFundingMsgId txout.scriptPubKey).map fun msgId => (msgId, some record)

def fundingErasures (tx : CTransaction) : WriteLog MsgId PaidFundingRecord :=
  tx.vout.filterMap fun txout =>
    (extractPaidFundingMsgId txout.scriptPubKey).map fun msgId => (msgId, none)

variable {msgId : MsgId} {block : CBlock}

theorem mem_fundingWrites {tx : CTransaction} {record : PaidFundingRecord}
    {r : Option PaidFundingRecord} :
    (msgId, r) ∈ fundingWrites tx record ↔ tx.FundsMsgId msgId ∧ r = some record := by
  simp only [fundingWrites, mem_filterMap, mem_filter, decide_eq_true_eq,
    Option.map_eq_some_iff, Prod.mk.injEq, CTransaction.FundsMsgId]
  constructor
  · rintro ⟨txout, ⟨hmem, hfee⟩, msgId, hextract, rfl, rfl⟩
    exact ⟨⟨txout, hmem, hfee, hextract⟩, rfl⟩
  · rintro ⟨⟨txout, hmem, hfee, hextract⟩, rfl⟩
    exact ⟨txout, ⟨hmem, hfee⟩, msgId, hextract, rfl, rfl⟩

theorem mem_fundingErasures {tx : CTransaction} {r : Option PaidFundingRecord} :
    (msgId, r) ∈ fundingErasures tx ↔ tx.CarriesMsgId msgId ∧ r = none := by
  simp only [fundingErasures, mem_filterMap, Option.map_eq_some_iff, Prod.mk.injEq,
    CTransaction.CarriesMsgId]
  constructor
  · rintro ⟨txout, hmem, msgId, hextract, rfl, rfl⟩
    exact ⟨⟨txout, hmem, hextract⟩, rfl⟩
  · rintro ⟨⟨txout, hmem, hextract⟩, rfl⟩
    exact ⟨txout, hmem, msgId, hextract, rfl, rfl⟩

section

variable (record : PaidFundingRecord) (vout : List CTxOut) (s : CSMSG)

theorem foldl_indexOutput :
    (vout.foldl (indexOutput record) s).mapPaidFundingByMsgId =
      WriteLog.apply s.mapPaidFundingByMsgId
        ((vout.filter fun txout => decide (SMSG_PAID_MSG_FEE ≤ txout.nValue)).filterMap
          fun txout => (extractPaidFundingMsgId txout.scriptPubKey).map
            fun msgId => (msgId, some record)) := by
  induction vout generalizing s with
  | nil => rfl
  | cons txout vout ih =>
    rw [foldl_cons, ih]
    by_cases hfee : txout.nValue < SMSG_PAID_MSG_FEE
    · simp [indexOutput, hfee, Int.not_le.mpr hfee]
    · cases hextract : extractPaidFundingMsgId txout.scriptPubKey <;>
        simp [indexOutput, hfee, Int.not_lt.mp hfee, hextract, WriteLog.write]

theorem foldl_removeOutput :
    (vout.foldl removeOutput s).mapPaidFundingByMsgId =
      WriteLog.apply s.mapPaidFundingByMsgId (vout.filterMap fun txout =>
        (extractPaidFundingMsgId txout.scriptPubKey).map fun msgId => (msgId, none)) := by
  induction vout generalizing s with
  | nil => rfl
  | cons txout vout ih =>
    rw [foldl_cons, ih]
    cases hextract : extractPaidFundingMsgId txout.scriptPubKey <;>
      simp [removeOutput, hextract, WriteLog.write]

theorem last_fundingWrites (record : CTransaction → PaidFundingRecord) (vtx : List CTransaction)
    (msgId : MsgId) :
    WriteLog.last (vtx.flatMap fun tx => fundingWrites tx (record tx)) msgId =
      (vtx.filter fun tx => decide (tx.FundsMsgId msgId)).getLast?.map
        fun tx => some (record tx) := by
  induction vtx with
  | nil => rfl
  | cons tx vtx ih =>
    have hfirst : WriteLog.last (fundingWrites tx (record tx)) msgId =
        if tx.FundsMsgId msgId then some (some (record tx)) else none := by
      cases hlast : WriteLog.last (fundingWrites tx (record tx)) msgId with
      | none =>
        have hnot := mt (fun h => mem_map_of_mem (mem_fundingWrites.mpr ⟨h, rfl⟩))
          (last_eq_none.mp hlast)
        rw [if_neg hnot]
      | some r =>
        obtain ⟨hfunds, rfl⟩ := mem_fundingWrites.mp (mem_of_last hlast)
        rw [if_pos hfunds]
    rw [flatMap_cons, last_append, ih, hfirst, filter_cons]
    by_cases hfunds : tx.FundsMsgId msgId
    · simp only [hfunds, decide_true, if_true, getLast?_cons]
      cases (vtx.filter fun tx => decide (tx.FundsMsgId msgId)).getLast? <;> rfl
    · simp [hfunds]

theorem blockConnected_map (block : CBlock) (nHeight : Nat) :
    (s.blockConnected block nHeight).mapPaidFundingByMsgId =
      WriteLog.apply s.mapPaidFundingByMsgId (block.vtx.flatMap fun tx =>
        fundingWrites tx ⟨tx.hash, block.hash, nHeight, block.nTime⟩) := by
  show (block.vtx.foldl _ s).mapPaidFundingByMsgId = _
  generalize block.vtx = vtx
  induction vtx generalizing s with
  | nil => rfl
  | cons tx vtx ih =>
    rw [foldl_cons, ih, flatMap_cons, apply_append]
    exact congrArg (WriteLog.apply · _) (foldl_indexOutput _ tx.vout s)

theorem blockDisconnected_map (block : CBlock) :
    (s.blockDisconnected block).mapPaidFundingByMsgId =
      WriteLog.apply s.mapPaidFundingByMsgId (block.vtx.flatMap fundingErasures) := by
  show (block.vtx.foldl _ s).mapPaidFundingByMsgId = _
  generalize block.vtx = vtx
  induction vtx generalizing s with
  | nil => rfl
  | cons tx vtx ih =>
    rw [foldl_cons, ih, flatMap_cons, apply_append]
    exact congrArg (WriteLog.apply · _) (foldl_removeOutput tx.vout s)

variable (msgId) in
theorem lookup_blockConnected (block : CBlock) (nHeight : Nat) :
    (s.blockConnected block nHeight).mapPaidFundingByMsgId.lookup msgId =
      (blockFunding (nHeight, block) msgId).or (s.mapPaidFundingByMsgId.lookup msgId) := by
  rw [blockConnected_map, lookup_apply, last_fundingWrites, blockFunding]
  cases (block.vtx.filter fun tx => decide (tx.FundsMsgId msgId)).getLast? <;> rfl

end

theorem lookup_blockDisconnected_of_carries {s : CSMSG} (h : block.CarriesMsgId msgId) :
    (s.blockDisconnected block).mapPaidFundingByMsgId.lookup msgId = none := by
  obtain ⟨tx, htx, hcarries⟩ := h
  rw [blockDisconnected_map, lookup_apply]
  cases hlast : WriteLog.last (block.vtx.flatMap fundingErasures) msgId with
  | none =>
    refine absurd ?_ (last_eq_none.mp hlast)
    exact mem_map.mpr ⟨(msgId, _),
      mem_flatMap.mpr ⟨tx, htx, mem_fundingErasures.mpr ⟨hcarries, rfl⟩⟩, rfl⟩
  | some r =>
    obtain ⟨tx', -, hwrite⟩ := mem_flatMap.mp (mem_of_last hlast)
    exact (mem_fundingErasures.mp hwrite).2

theorem lookup_blockDisconnected_of_not_carries {s : CSMSG} (h : ¬ block.CarriesMsgId msgId) :
    (s.blockDisconnected block).mapPaidFundingByMsgId.lookup msgId =
      s.mapPaidFundingByMsgId.lookup msgId := by
  rw [blockDisconnected_map, lookup_apply, last_eq_none.mpr]
  · rfl
  · intro hmem
    obtain ⟨⟨_, r⟩, hwrite, rfl⟩ := mem_map.mp hmem
    obtain ⟨tx, htx, hwrite⟩ := mem_flatMap.mp hwrite
    exact h ⟨tx, htx, (mem_fundingErasures.mp hwrite).1⟩

end CSMSG

inductive ChainNotification where
  | connected (block : CBlock)
  | disconnected (block : CBlock)
  deriving DecidableEq, Repr

structure FundingNode where
  chain : List CBlock
  smsg : CSMSG

namespace FundingNode

def init : FundingNode := ⟨[], CSMSG.empty⟩

def notify (n : FundingNode) : ChainNotification → FundingNode
  | .connected block => ⟨block :: n.chain, n.smsg.blockConnected block n.chain.length⟩
  | .disconnected block => ⟨n.chain.tail, n.smsg.blockDisconnected block⟩

def Follows (n : FundingNode) : ChainNotification → Prop
  | .connected _ => True
  | .disconnected block => n.chain.head? = some block

instance (n : FundingNode) (e : ChainNotification) : Decidable (n.Follows e) := by
  cases e <;> unfold Follows <;> infer_instance

def Agrees (n : FundingNode) : Prop :=
  ∀ msgId txid, n.smsg.hasConfirmedPaidFunding msgId txid = true ↔
    ConfirmedFunding n.chain msgId txid

/-- A connected block leaves at most one funding transaction for each message in the chain,
and no message that a disconnected block carries is funded below it. -/
def Undisputed (n : FundingNode) : ChainNotification → Prop
  | .connected block => ∀ msgId txid txid',
      ConfirmedFunding (block :: n.chain) msgId txid →
        ConfirmedFunding (block :: n.chain) msgId txid' → txid = txid'
  | .disconnected block => ∀ msgId txid,
      block.CarriesMsgId msgId → ¬ ConfirmedFunding n.chain.tail msgId txid

theorem agrees_init : init.Agrees := by
  intro msgId txid
  simp [init, CSMSG.empty, CSMSG.hasConfirmedPaidFunding, ConfirmedFunding]

theorem agrees_connected_iff {n : FundingNode} (h : n.Agrees) (block : CBlock) :
    (n.notify (.connected block)).Agrees ↔ n.Undisputed (.connected block) := by
  constructor
  · -- the index answers for one transaction only
    intro hagree msgId txid txid' hc hc'
    obtain ⟨record, hlookup, rfl⟩ :=
      CSMSG.hasConfirmedPaidFunding_iff.mp ((hagree msgId txid).mpr hc)
    obtain ⟨record', hlookup', rfl⟩ :=
      CSMSG.hasConfirmedPaidFunding_iff.mp ((hagree msgId txid').mpr hc')
    rw [hlookup] at hlookup'
    rw [Option.some.inj hlookup']
  · intro hone msgId txid
    rw [CSMSG.hasConfirmedPaidFunding_iff]
    show (∃ r, (n.smsg.blockConnected block n.chain.length).mapPaidFundingByMsgId.lookup msgId =
      some r ∧ r.txid = txid) ↔ ConfirmedFunding (block :: n.chain) msgId txid
    rw [CSMSG.lookup_blockConnected]
    cases hfunding : blockFunding (n.chain.length, block) msgId with
    | some record =>
      have hconfirmed : ConfirmedFunding (block :: n.chain) msgId record.txid :=
        confirmedFunding_cons.mpr (.inl (isFundingOf_of_blockFunding hfunding).1.funds)
      constructor
      · rintro ⟨r, hr, rfl⟩
        rwa [← Option.some.inj hr]
      · exact fun hc => ⟨record, rfl, hone msgId _ _ hconfirmed hc⟩
    | none =>
      rw [Option.none_or, ← CSMSG.hasConfirmedPaidFunding_iff, h msgId txid, confirmedFunding_cons,
        or_iff_right (blockFunding_eq_none_iff.mp hfunding txid)]

theorem agrees_disconnected_iff {n : FundingNode} (h : n.Agrees) {block : CBlock}
    (htip : n.Follows (.disconnected block)) :
    (n.notify (.disconnected block)).Agrees ↔ n.Undisputed (.disconnected block) := by
  have hchain : n.chain = block :: n.chain.tail := (cons_head?_tail htip).symm
  constructor
  · intro hagree msgId txid hcarries hc
    obtain ⟨record, hlookup, -⟩ :=
      CSMSG.hasConfirmedPaidFunding_iff.mp ((hagree msgId txid).mpr hc)
    have hnone := CSMSG.lookup_blockDisconnected_of_carries (s := n.smsg) hcarries
    simp only [notify] at hlookup
    simp [hnone] at hlookup
  · intro hclean msgId txid
    rw [CSMSG.hasConfirmedPaidFunding_iff]
    show (∃ r, (n.smsg.blockDisconnected block).mapPaidFundingByMsgId.lookup msgId =
      some r ∧ r.txid = txid) ↔ ConfirmedFunding n.chain.tail msgId txid
    by_cases hcarries : block.CarriesMsgId msgId
    · simp [CSMSG.lookup_blockDisconnected_of_carries hcarries, hclean msgId txid hcarries]
    · rw [CSMSG.lookup_blockDisconnected_of_not_carries hcarries,
        ← CSMSG.hasConfirmedPaidFunding_iff, h msgId txid, hchain, confirmedFunding_cons]
      have hnot : ¬ block.FundsMsgId msgId txid := fun hf => hcarries hf.carries
      simp [hnot]

theorem agrees_notify_iff {n : FundingNode} (h : n.Agrees) {e : ChainNotification}
    (he : n.Follows e) : (n.notify e).Agrees ↔ n.Undisputed e := by
  cases e with
  | connected block => exact agrees_connected_iff h block
  | disconnected block => exact agrees_disconnected_iff h he

/-- Along every run the index answers for the fundings of the chain exactly if no
notification touches a message with two funding transactions. -/
theorem agrees_along_iff (events : List ChainNotification)
    (h : Along notify Follows init events) :
    Along notify (fun n e => (n.notify e).Agrees) init events ↔
      Along notify Undisputed init events := by
  have hboth : Along notify (fun n e => n.Follows e ∧ (n.notify e).Agrees) init events ↔
      Along notify (fun n e => n.Follows e ∧ n.Undisputed e) init events :=
    Along.iff_of_invariant (I := Agrees)
      (fun n e hn => and_congr_right fun he => agrees_notify_iff hn he)
      (fun n e _ hc => hc.2) agrees_init events
  rw [Along.and, Along.and] at hboth
  simpa [h] using hboth

def contestedMsgId : MsgId := List.replicate SMSG_PAID_MSGID_LEN 7

def carrierTx (hash : uint256) (nValue : Int) : CTransaction :=
  { vin := [⟨⟨0xa0, 0⟩, [], 0xffffffff, []⟩]
    vout := [⟨nValue, buildPaidFundingScript contestedMsgId⟩]
    nVersion := 1, nTime := 1600000000, nLockTime := 0, hash }

def carrierBlock (hash hashPrevBlock : uint256) (nValue : Int) : CBlock :=
  { nVersion := 1, hashPrevBlock, hashMerkleRoot := 0, nTime := 1600000030, nBits := 1
    nNonce := 0, hash, vtx := [carrierTx hash nValue], vchBlockSig := [], fChecked := true }

/-- A block with a carrier is connected, then one without transactions, which is disconnected
again. -/
def fundedEvents : List ChainNotification :=
  let empty := { carrierBlock 2 1 0 with vtx := [] }
  [.connected (carrierBlock 1 0 1), .connected empty, .disconnected empty]

theorem undisputed_fundedEvents : Along notify Undisputed init fundedEvents := by
  have hone : ∀ {msgId txid} {chain : List CBlock},
      (∀ block ∈ chain, ∀ tx ∈ block.vtx, tx.hash = 1) →
      ConfirmedFunding chain msgId txid → txid = 1 := by
    rintro msgId txid chain hchain ⟨block, hblock, tx, htx, rfl, -⟩
    exact hchain block hblock tx htx
  refine ⟨fun msgId txid txid' h h' => ?_, fun msgId txid txid' h h' => ?_, fun msgId txid h => ?_,
    trivial⟩
  · rw [hone (by decide) h, hone (by decide) h']
  · rw [hone (by decide) h, hone (by decide) h']
  · obtain ⟨tx, htx, -⟩ := h
    cases htx

theorem agrees_along_iff_funded :
    Along notify (fun n e => (n.notify e).Agrees) init fundedEvents ∧
      (fundedEvents.foldl notify init).smsg.hasConfirmedPaidFunding contestedMsgId 1 = true := by
  have hagrees := (agrees_along_iff fundedEvents (by decide +kernel)).mpr undisputed_fundedEvents
  refine ⟨hagrees, ?_⟩
  obtain ⟨-, -, hlast, -⟩ := hagrees
  exact (hlast contestedMsgId 1).mpr (by decide +kernel)

/-- A block with a second carrier that pays nothing is connected and
disconnected again. -/
def afterUnpaidCarrier : FundingNode :=
  [ChainNotification.connected (carrierBlock 1 0 1), .connected (carrierBlock 2 1 0),
    .disconnected (carrierBlock 2 1 0)].foldl notify init

def afterPaidCarrier : FundingNode :=
  [ChainNotification.connected (carrierBlock 1 0 1),
    .connected (carrierBlock 2 1 1)].foldl notify init

/-- In both runs the block with the first funding transaction is in the chain
and the index denies it. -/
theorem funding_revoked_by_other_transaction :
    afterUnpaidCarrier.chain = [carrierBlock 1 0 1] ∧
      ConfirmedFunding afterUnpaidCarrier.chain contestedMsgId 1 ∧
      afterUnpaidCarrier.smsg.hasConfirmedPaidFunding contestedMsgId 1 = false ∧
      afterPaidCarrier.chain = [carrierBlock 2 1 1, carrierBlock 1 0 1] ∧
      ConfirmedFunding afterPaidCarrier.chain contestedMsgId 1 ∧
      afterPaidCarrier.smsg.hasConfirmedPaidFunding contestedMsgId 1 = false := by
  decide +kernel

end FundingNode

end Verge
