import Verge.Validation.ConnectSpec

/-!
# Disconnecting a connected block

`DisconnectBlock` with the undo data of `ConnectBlock`, written to disk and read
back, returns `DISCONNECT_OK` and restores every coin up to its
`nOriginTransactionTime`, which the undo records do not hold.
-/

namespace Verge

open Foundation CoinsProg List AssocMap WriteLog

theorem InputCoins.mem_zip {view : CoinsView} {vin : List CTxIn} {coins : List Coin}
    (h : InputCoins view vin coins) {txin : CTxIn} (ht : txin ∈ vin) :
    ∃ coin, view.lookup txin.prevout = some coin ∧ (txin, coin) ∈ vin.zip coins := by
  induction vin generalizing coins with
  | nil => simp at ht
  | cons t vin ih =>
    cases coins with
    | nil => simp [InputCoins] at h
    | cons coin coins =>
      obtain ⟨hhead, htail⟩ := List.cons.inj h
      rcases mem_cons.mp ht with rfl | ht
      · exact ⟨coin, hhead, mem_cons_self⟩
      · obtain ⟨c, hc, hmem⟩ := ih htail ht
        exact ⟨c, hc, mem_cons_of_mem _ hmem⟩

def undoRead (tx : CTransaction) (txundo : CTxUndo) : Option CTxUndo :=
  if tx.isCoinBase then none else some txundo.dropTime

def OutputsFree (nHeight : Nat) (view : CoinsView) (tx : CTransaction) : Prop :=
  ∀ o ∈ (creations tx nHeight).map Prod.fst,
    (WriteLog.apply view (spends (spentInputs tx))).lookup o = none

variable {nHeight : Nat} {view view' : CoinsView} {tx : CTransaction} {txundo : CTxUndo}
  {o : COutPoint} {spent : List COutPoint} {restored : CoinsView}

private theorem lookup_spends_of_notMem (h : o ∉ (spentInputs tx).map CTxIn.prevout) :
    (WriteLog.apply view (spends (spentInputs tx))).lookup o = view.lookup o := by
  rw [lookup_apply, last_eq_none.mpr (by simpa using h)]
  rfl

private theorem lookup_connectLog_of_notMem (h : o ∉ (creations tx nHeight).map Prod.fst) :
    (WriteLog.apply view (connectLog tx nHeight)).lookup o =
      (WriteLog.apply view (spends (spentInputs tx))).lookup o := by
  rw [connectLog, apply_append, lookup_apply _ (creations tx nHeight),
    last_eq_none.mpr h]
  rfl

def restoreLog (tx : CTransaction) : Option CTxUndo → CoinsLog
  | none => []
  | some txundo => (restores tx.vin txundo.vprevout).reverse

theorem disconnectLog_eq (tx : CTransaction) (nHeight : Nat) (txundo : Option CTxUndo) :
    disconnectLog tx nHeight txundo =
      erasures (creations tx nHeight) ++ restoreLog tx txundo := by
  cases txundo <;> rfl

/-- `restored` holds the coins of `view`, without the time at the outpoints of
`spent`. -/
def RestoredUpTo (spent : List COutPoint) (restored view : CoinsView) : Prop :=
  ∀ o, restored.lookup o =
    if o ∈ spent then (view.lookup o).map Coin.dropTime else view.lookup o

theorem RestoredUpTo.lookup_none (h : RestoredUpTo spent restored view)
    (ho : view.lookup o = none) : restored.lookup o = none := by
  rw [h o, ho]
  split <;> rfl

theorem RestoredUpTo.map_dropTime (h : RestoredUpTo spent restored view) (o : COutPoint) :
    (restored.lookup o).map Coin.dropTime = (view.lookup o).map Coin.dropTime := by
  rw [h o]
  split
  · rw [Option.map_map]
    rfl
  · rfl

section

variable (hconn : ConnectedTx nHeight view tx txundo) (hfree : OutputsFree nHeight view tx)
  (h : RestoredUpTo spent restored (WriteLog.apply view (connectLog tx nHeight)))

include hconn

theorem last_restoreLog (o : COutPoint) :
    (o ∈ (spentInputs tx).map CTxIn.prevout ∧ ∃ coin, view.lookup o = some coin ∧
        WriteLog.last (restoreLog tx (undoRead tx txundo)) o = some (some coin.dropTime)) ∨
      (o ∉ (spentInputs tx).map CTxIn.prevout ∧
        WriteLog.last (restoreLog tx (undoRead tx txundo)) o = none) := by
  have hundo := hconn.undo
  have hdistinct := hconn.distinct
  unfold undoRead spentInputs at *
  cases hcb : tx.isCoinBase with
  | true =>
    right
    simp [restoreLog, WriteLog.last]
  | false =>
    simp only [hcb, Bool.false_eq_true, if_false] at hundo hdistinct ⊢
    have hlen : txundo.dropTime.vprevout.length = tx.vin.length := by
      simpa [CTxUndo.dropTime] using hundo.length_eq
    have hkeys := map_fst_restores hlen
    have hlast : WriteLog.last (restoreLog tx (some txundo.dropTime)) o =
        WriteLog.last (restores tx.vin txundo.dropTime.vprevout) o :=
      last_reverse (by rwa [hkeys]) o
    rw [hlast]
    by_cases ho : o ∈ tx.vin.map CTxIn.prevout
    · left
      obtain ⟨txin, ht, rfl⟩ := mem_map.mp ho
      obtain ⟨coin, hcoin, hmem⟩ := hundo.mem_zip ht
      refine ⟨ho, coin, hcoin, last_of_mem (by rwa [hkeys]) ?_⟩
      refine mem_map.mpr ⟨(txin, coin.dropTime), ?_, rfl⟩
      rw [CTxUndo.dropTime, zip_map_right]
      exact mem_map.mpr ⟨(txin, coin), hmem, rfl⟩
    · right
      exact ⟨ho, last_eq_none.mpr (by rwa [hkeys])⟩

include h in
theorem undoesCleanly_of_restored : UndoesCleanly tx nHeight (undoRead tx txundo) restored := by
  have hspent : (undoRead tx txundo).isSome → spentInputs tx = tx.vin := by
    unfold undoRead spentInputs
    cases tx.isCoinBase <;> simp
  refine ⟨fun o coin hmem => ?_, fun hs => ?_, fun hs txin ht => ?_⟩
  · have hlast : WriteLog.last (creations tx nHeight) o = some (some coin) :=
      last_of_mem (nodup_creationsFrom tx nHeight 0 tx.vout) hmem
    rw [h.map_dropTime, connectLog, apply_append, lookup_apply, hlast]
    rfl
  · rw [← hspent hs]
    exact hconn.distinct
  · rw [← hspent hs] at ht
    rw [lookup_apply]
    by_cases hc : txin.prevout ∈ (creations tx nHeight).map Prod.fst
    · rw [last_erasures hc]
      rfl
    · rw [last_eq_none.mpr (by simpa using hc)]
      refine h.lookup_none ?_
      rw [lookup_connectLog_of_notMem hc, lookup_apply,
        last_spends (mem_map_of_mem (f := CTxIn.prevout) ht)]
      rfl

include hfree

/-- What the disconnect log writes: a spent input gets its coin back without the time, any
other created outpoint was free and is erased, the rest is untouched. -/
theorem disconnectLog_cases (o : COutPoint) :
    (o ∈ (spentInputs tx).map CTxIn.prevout ∧
      ∃ coin, view.lookup o = some coin ∧
        WriteLog.last (disconnectLog tx nHeight (undoRead tx txundo)) o =
          some (some coin.dropTime)) ∨
    (o ∉ (spentInputs tx).map CTxIn.prevout ∧ view.lookup o = none ∧
      WriteLog.last (disconnectLog tx nHeight (undoRead tx txundo)) o = some none) ∨
    (o ∉ (spentInputs tx).map CTxIn.prevout ∧
      WriteLog.last (disconnectLog tx nHeight (undoRead tx txundo)) o = none ∧
      (WriteLog.apply view (connectLog tx nHeight)).lookup o = view.lookup o) := by
  have hlog : WriteLog.last (disconnectLog tx nHeight (undoRead tx txundo)) o =
      (WriteLog.last (restoreLog tx (undoRead tx txundo)) o).or
        (WriteLog.last (erasures (creations tx nHeight)) o) := by
    rw [disconnectLog_eq]
    exact last_append _ _ o
  rcases last_restoreLog hconn o with ⟨ho, coin, hcoin, hlast⟩ | ⟨ho, hlast⟩
  · exact .inl ⟨ho, coin, hcoin, by rw [hlog, hlast]; rfl⟩
  · rw [hlast, Option.none_or] at hlog
    by_cases hc : o ∈ (creations tx nHeight).map Prod.fst
    · refine .inr (.inl ⟨ho, ?_, by rw [hlog, last_erasures hc]⟩)
      rw [← lookup_spends_of_notMem ho]
      exact hfree o hc
    · refine .inr (.inr ⟨ho, ?_, ?_⟩)
      · rw [hlog]
        exact last_eq_none.mpr (by simpa using hc)
      · rw [lookup_connectLog_of_notMem hc, lookup_spends_of_notMem ho]

include h in
theorem RestoredUpTo.disconnect :
    RestoredUpTo (spent ++ (spentInputs tx).map CTxIn.prevout)
      (WriteLog.apply restored (disconnectLog tx nHeight (undoRead tx txundo))) view := by
  intro o
  rw [lookup_apply]
  rcases disconnectLog_cases hconn hfree o with ⟨ho, coin, hcoin, hlast⟩ |
    ⟨ho, hnone, hlast⟩ | ⟨ho, hlast, hsame⟩
  · rw [hlast, hcoin, if_pos (mem_append_right _ ho)]
    rfl
  · rw [hlast, hnone]
    split <;> rfl
  · rw [hlast, Option.getD_none, h o, hsame]
    simp only [mem_append, ho, or_false]

end

/-- A view as the claimants of coins see it: every coin is an unspent, spendable
output created after the genesis block. -/
def WellFormedView (view : CoinsView) : Prop :=
  ∀ o coin, view.lookup o = some coin → coin.Restorable ∧ coin.nHeight < 2 ^ 31

theorem WellFormedView.connect (h : WellFormedView view) (hheight : 0 < nHeight ∧ nHeight < 2 ^ 31)
    (houtputs : ∀ txout ∈ tx.vout, txout.isNull = false) :
    WellFormedView (WriteLog.apply view (connectLog tx nHeight)) := by
  intro o coin hlookup
  rcases lookup_connectLog hlookup with hold | ⟨txout, hout, hspend, rfl⟩
  · exact h o coin hold
  · exact ⟨⟨houtputs txout hout, hspend, hheight.1⟩, hheight.2⟩

structure UndoRecord (tx : CTransaction) (txundo : CTxUndo) : Prop where
  length : txundo.vprevout.length = tx.vin.length
  bound : txundo.vprevout.length ≤ MAX_INPUTS_PER_BLOCK
  coins : ∀ coin ∈ txundo.vprevout, coin.Restorable ∧ coin.Storable

variable {txs : List CTransaction} {vtxundo : List CTxUndo} {nFees : Int}

theorem SpendingTx.undoRecord {txfee : Int} (hspending : SpendingTx nHeight view tx txfee)
    (hconn : ConnectedTx nHeight view tx txundo) (hview : WellFormedView view) :
    UndoRecord tx txundo := by
  have hundo : InputCoins view tx.vin txundo.vprevout := by
    have h := hconn.undo
    rwa [spentInputs, hspending.notCoinBase] at h
  have hbound : tx.vin.length ≤ MAX_INPUTS_PER_BLOCK :=
    (Nat.le_div_iff_mul_le (by decide)).mpr hspending.checked.inputs
  refine ⟨hundo.length_eq, hundo.length_eq ▸ hbound, fun coin hcoin => ?_⟩
  have hmem : some coin ∈ tx.vin.map fun txin => view.lookup txin.prevout := by
    rw [hundo]
    exact mem_map_of_mem hcoin
  obtain ⟨txin, ht, hlookup⟩ := mem_map.mp hmem
  obtain ⟨hrestorable, hheight⟩ := hview _ _ hlookup
  obtain ⟨coin', hlookup', hgood⟩ := hspending.inputs txin ht
  obtain rfl : coin = coin' := Option.some.inj (hlookup.symm.trans hlookup')
  exact ⟨hrestorable, hgood.value, length_le_of_not_unspendable hrestorable.spendable, hheight⟩

theorem ConnectedTxs.undoRecords (h : ConnectedTxs nHeight view txs vtxundo nFees view')
    (hview : WellFormedView view) (hheight : 0 < nHeight ∧ nHeight < 2 ^ 31) :
    List.Forall₂ UndoRecord txs vtxundo := by
  induction h with
  | nil => exact .nil
  | cons spending connected _ ih =>
    exact .cons (spending.undoRecord connected hview)
      (ih (hview.connect hheight connected.outputs))

def spentBackwards : List CTransaction → List COutPoint
  | [] => []
  | tx :: rest => spentBackwards rest ++ (spentInputs tx).map CTxIn.prevout

theorem mem_spentBackwards :
    o ∈ spentBackwards txs ↔ ∃ tx ∈ txs, ∃ txin ∈ spentInputs tx, txin.prevout = o := by
  induction txs with
  | nil => simp [spentBackwards]
  | cons tx txs ih =>
    rw [spentBackwards, mem_append, ih, mem_map, or_comm]
    simp only [mem_cons, exists_eq_or_imp]

def undoPairs (txs : List CTransaction) (vtxundo : List CTxUndo) :
    List (CTransaction × Option CTxUndo) :=
  (txs.zip (vtxundo.map fun txundo => some txundo.dropTime)).reverse

theorem undoFits_of_mem_undoPairs (hrecords : List.Forall₂ UndoRecord txs vtxundo)
    {p : CTransaction × Option CTxUndo} (hp : p ∈ undoPairs txs vtxundo) :
    UndoFits p.1 p.2 := by
  rw [undoPairs, mem_reverse, zip_map_right, mem_map] at hp
  obtain ⟨⟨tx, txundo⟩, hmem, rfl⟩ := hp
  have hrecord := forall₂_zip hrecords hmem
  refine ⟨?_, fun coin hcoin => ?_⟩
  · simpa [CTxUndo.dropTime] using hrecord.length
  · obtain ⟨original, horiginal, rfl⟩ := mem_map.mp hcoin
    obtain ⟨hunspent, hspendable, hheight⟩ := (hrecord.coins original horiginal).1
    exact ⟨hunspent, hspendable, hheight⟩

theorem ConnectedTxs.disconnect (h : ConnectedTxs nHeight view txs vtxundo nFees view')
    (hrestored : RestoredUpTo spent restored view') :
    UndoCleanly nHeight (undoPairs txs vtxundo) restored ∧
      RestoredUpTo (spent ++ spentBackwards txs)
        (WriteLog.apply restored (disconnectLogs nHeight (undoPairs txs vtxundo))) view := by
  induction h with
  | nil =>
    rw [spentBackwards, append_nil]
    exact ⟨trivial, hrestored⟩
  | @cons view _ tx rest txundo vtxundo _ _ spending connected _ ih =>
    obtain ⟨hclean, hrest⟩ := ih hrestored
    have hread : undoRead tx txundo = some txundo.dropTime := by
      rw [undoRead, spending.notCoinBase]
      rfl
    have hpairs : undoPairs (tx :: rest) (txundo :: vtxundo) =
        undoPairs rest vtxundo ++ [(tx, undoRead tx txundo)] := by
      rw [hread]
      exact reverse_cons
    rw [hpairs, undoCleanly_append, disconnectLogs_append, apply_append]
    refine ⟨⟨hclean, undoesCleanly_of_restored connected hrest, trivial⟩, ?_⟩
    rw [spentBackwards, ← append_assoc, disconnectLogs_singleton]
    exact hrest.disconnect connected (connected.free spending.notCoinBase)

def blockPairs (vtx : List CTransaction) (vtxundo : List CTxUndo) :
    List (CTransaction × Option CTxUndo) :=
  (vtx.zip (none :: vtxundo.map fun txundo => some txundo.dropTime)).reverse

theorem blockPairs_cons {coinbase : CTransaction} (hcb : coinbase.isCoinBase = true)
    (rest : List CTransaction) (vtxundo : List CTxUndo) :
    blockPairs (coinbase :: rest) vtxundo =
      undoPairs rest vtxundo ++ [(coinbase, undoRead coinbase ⟨[]⟩)] := by
  rw [undoRead, if_pos hcb]
  exact reverse_cons

section Connected

variable {consensusParams : ConsensusParams} {block : CBlock} {blockUndo : CBlockUndo}
  (h : ConnectedBlock consensusParams nHeight view block blockUndo view')

include h

theorem ConnectedBlock.coinbase_first {coinbase : CTransaction} {rest : List CTransaction}
    (hvtx : block.vtx = coinbase :: rest) :
    coinbase.isCoinBase = true := by
  have hcoinbase := h.checked.coinbase
  simpa [hvtx] using hcoinbase

theorem ConnectedBlock.restores (hbip30 : NoOverwrite view block.vtx) :
    UndoCleanly nHeight (blockPairs block.vtx blockUndo.vtxundo) view' ∧
      RestoredUpTo (spentBackwards block.vtx) (WriteLog.apply view'
        (disconnectLogs nHeight (blockPairs block.vtx blockUndo.vtxundo))) view := by
  obtain ⟨coinbase, rest, fees, hvtx, hfirst, hrest, -⟩ := h.connected
  have hcb := h.coinbase_first hvtx
  have hfree : OutputsFree nHeight view coinbase := by
    intro o ho
    obtain ⟨i, hi, rfl⟩ := exists_output_of_mem_creations ho
    rw [spentInputs, if_pos hcb]
    exact hbip30 coinbase (hvtx ▸ mem_cons_self) i hi
  have hsame : RestoredUpTo [] view' view' := fun o => rfl
  obtain ⟨hclean, hback⟩ := hrest.disconnect hsame
  rw [hvtx, blockPairs_cons hcb]
  constructor
  · exact undoCleanly_append.mpr ⟨hclean, undoesCleanly_of_restored hfirst hback, trivial⟩
  · rw [disconnectLogs_append, apply_append, disconnectLogs_singleton]
    exact hback.disconnect hfirst hfree

variable (hview : WellFormedView view) (hheight : nHeight < 2 ^ 31)

include hview hheight

theorem ConnectedBlock.undo_read (secp : Secp256k1) :
    undoReadFromDisk secp (writeBlockUndo secp blockUndo) = some blockUndo.dropTime := by
  obtain ⟨coinbase, rest, fees, hvtx, hfirst, hrest, -⟩ := h.connected
  have hrecords := hrest.undoRecords (hview.connect ⟨h.height, hheight⟩ hfirst.outputs)
    ⟨h.height, hheight⟩
  have hsize : blockUndo.vtxundo.length ≤ MAX_SIZE := by
    have hlen := hrecords.length_eq
    have hblock := h.checked.size
    rw [hvtx, length_cons] at hblock
    have hweight : MAX_BLOCK_WEIGHT = 4000000 := rfl
    have hmax : MAX_SIZE = 33554432 := rfl
    have hscale : WITNESS_SCALE_FACTOR = 4 := rfl
    rw [hscale, hweight] at hblock
    omega
  refine undoReadFromDisk_writeBlockUndo secp hsize fun txundo htxundo => ?_
  rw [← map_snd_zip hrecords.length_eq.ge] at htxundo
  obtain ⟨⟨tx, _⟩, hmem, rfl⟩ := mem_map.mp htxundo
  have hrecord := forall₂_zip hrecords hmem
  exact ⟨hrecord.bound, fun coin hcoin => (hrecord.coins coin hcoin).2⟩

theorem ConnectedBlock.run_disconnectBlock (current : CoinsView) :
    ∃ res, (disconnectBlock block nHeight (some blockUndo.dropTime)).run current =
        .ok (res, WriteLog.apply current
          (disconnectLogs nHeight (blockPairs block.vtx blockUndo.vtxundo))) ∧
      res ≠ .failed ∧
      (UndoCleanly nHeight (blockPairs block.vtx blockUndo.vtxundo) current → res = .ok) := by
  obtain ⟨coinbase, rest, fees, hvtx, hfirst, hrest, -⟩ := h.connected
  have hcb := h.coinbase_first hvtx
  have hrecords := hrest.undoRecords (hview.connect ⟨h.height, hheight⟩ hfirst.outputs)
    ⟨h.height, hheight⟩
  have hfits : ∀ p ∈ blockPairs block.vtx blockUndo.vtxundo, UndoFits p.1 p.2 := by
    intro p hp
    rw [hvtx, blockPairs_cons hcb] at hp
    rcases mem_append.mp hp with hp | hp
    · exact undoFits_of_mem_undoPairs hrecords hp
    · rw [mem_singleton.mp hp, undoRead, if_pos hcb]
      trivial
  have hlen : blockUndo.dropTime.vtxundo.length + 1 = block.vtx.length := by
    rw [hvtx, length_cons, hrecords.length_eq]
    simp [CBlockUndo.dropTime]
  rw [disconnectBlock, if_neg (by omega), CBlockUndo.dropTime, map_map]
  exact run_disconnectTxs hfits current

end Connected

theorem RestoredUpTo.eq_iff (h : RestoredUpTo spent restored view) :
    (∀ o, restored.lookup o = view.lookup o) ↔
      ∀ o ∈ spent, ∀ coin, view.lookup o = some coin → coin.nOriginTransactionTime = 0 := by
  constructor
  · intro heq o ho coin hcoin
    have hlookup := h o
    rw [heq o, if_pos ho, hcoin] at hlookup
    exact Coin.dropTime_eq_self.mp (Option.some.inj hlookup).symm
  · intro htimes o
    rw [h o]
    split
    case isFalse => rfl
    case isTrue ho =>
      cases hcoin : view.lookup o with
      | none => rfl
      | some coin => exact congrArg some (Coin.dropTime_eq_self.mpr (htimes o ho coin hcoin))

/-- `DisconnectBlock` takes `ConnectBlock` back exactly when no coin that the
block spends, and did not create itself, carries a time. -/
theorem disconnectBlock_restores_iff {consensusParams : ConsensusParams} {rules : BlockRules}
    (secp : Secp256k1) {block : CBlock} {nHeight : Nat} {view view' : CoinsView}
    {blockUndo : CBlockUndo} (hview : WellFormedView view) (hheight : nHeight < 2 ^ 31)
    (hgenesis : block.hash ≠ consensusParams.hashGenesisBlock)
    (hpassed : block.fChecked = true → PassedCheckBlock rules block)
    (hbip30 : bip30Checked consensusParams block nHeight = false →
      NoOverwrite view block.vtx)
    (hrun : (connectBlock consensusParams rules block nHeight).run view =
      .ok (blockUndo, view')) :
    (∃ restored, (disconnectBlock block nHeight
        (undoReadFromDisk secp (writeBlockUndo secp blockUndo))).run view' =
          .ok (.ok, restored) ∧
      ∀ o, restored.lookup o = view.lookup o) ↔
    ∀ tx ∈ block.vtx, tx.isCoinBase = false → ∀ txin ∈ tx.vin, ∀ coin,
      view.lookup txin.prevout = some coin → coin.nOriginTransactionTime = 0 := by
  have hconnected : ConnectedBlock consensusParams nHeight view block blockUndo view' :=
    (@post_connectBlock False view _ _ _ _ hgenesis hpassed False.elim).of_run hrun
  have hfree : NoOverwrite view block.vtx := by
    cases hchecked : bip30Checked consensusParams block nHeight with
    | true => exact hconnected.bip30 hchecked
    | false => exact hbip30 hchecked
  obtain ⟨res, hdisconnect, -, hok⟩ := hconnected.run_disconnectBlock hview hheight view'
  obtain ⟨hclean, hrestored⟩ := hconnected.restores hfree
  rw [hok hclean] at hdisconnect
  rw [hconnected.undo_read hview hheight secp]
  have hspent : (∀ o ∈ spentBackwards block.vtx, ∀ coin, view.lookup o = some coin →
        coin.nOriginTransactionTime = 0) ↔
      ∀ tx ∈ block.vtx, tx.isCoinBase = false → ∀ txin ∈ tx.vin, ∀ coin,
        view.lookup txin.prevout = some coin → coin.nOriginTransactionTime = 0 := by
    constructor
    · intro h tx htx hcb txin htxin
      refine h _ (mem_spentBackwards.mpr ⟨tx, htx, txin, ?_, rfl⟩)
      rwa [spentInputs, hcb]
    · intro h o ho
      obtain ⟨tx, htx, txin, htxin, rfl⟩ := mem_spentBackwards.mp ho
      unfold spentInputs at htxin
      cases hcb : tx.isCoinBase with
      | true => simp [hcb] at htxin
      | false =>
        rw [hcb] at htxin
        exact h tx htx hcb txin htxin
  rw [← hspent, ← hrestored.eq_iff]
  constructor
  · rintro ⟨other, hother, heq⟩
    obtain ⟨-, rfl⟩ := Prod.mk.inj (Except.ok.inj (hdisconnect.symm.trans hother))
    exact heq
  · exact fun heq => ⟨_, hdisconnect, heq⟩

def permissiveRules : BlockRules where
  checkHeader _ := none
  maxClockDrift := 600
  legacySigOpCount _ := 0
  checkBlockSignature _ := true
  sequenceLocks _ _ := true
  transactionSigOpCost _ _ := 0
  checkInputs _ _ := none
  controlWait := true

def sampleParams : ConsensusParams where
  hashGenesisBlock := 99
  nSubsidyHalvingInterval := 500000
  BIP34Height := 100000000

def noCurve : Secp256k1 := ⟨fun _ => false, fun _ => none, by simp⟩

def sampleInput (prevout : COutPoint) : CTxIn := ⟨prevout, [1, 2], 0, []⟩

def sampleCoinBase : CTransaction :=
  ⟨[sampleInput ⟨0, 2 ^ 32 - 1⟩], [⟨1, []⟩], 1, 9, 0, 21⟩

def samplePayment (nTime : Nat) : CTransaction :=
  ⟨[sampleInput ⟨7, 0⟩], [⟨10, []⟩], 1, nTime, 0, 22⟩

def sampleBlock : CBlock where
  nVersion := 1
  hashPrevBlock := 50
  hashMerkleRoot := 0
  nTime := 9
  nBits := 1
  nNonce := 0
  hash := 51
  vtx := [sampleCoinBase, samplePayment 9]
  vchBlockSig := []
  fChecked := false

def coinOfTime (time : Nat) : Coin := ⟨⟨10, []⟩, false, 1, time⟩

def viewOfTime (time : Nat) : CoinsView := (∅ : CoinsView).insert ⟨7, 0⟩ (coinOfTime time)

def paidView : CoinsView :=
  ((∅ : CoinsView).insert ⟨21, 0⟩ ⟨⟨1, []⟩, true, 2, 9⟩).insert ⟨22, 0⟩ ⟨⟨10, []⟩, false, 2, 9⟩

theorem wellFormedView_viewOfTime (time : Nat) : WellFormedView (viewOfTime time) := by
  intro o coin h
  unfold viewOfTime at h
  rcases of_lookup_insert h with ⟨-, rfl⟩ | ⟨-, h⟩
  · exact ⟨⟨rfl, rfl, Nat.one_pos⟩, Nat.one_lt_two_pow (by decide)⟩
  · cases h

theorem disconnectBlock_restores_iff_sample :
    ∃ restored, (disconnectBlock sampleBlock 2
        (undoReadFromDisk noCurve (writeBlockUndo noCurve ⟨[⟨[coinOfTime 0]⟩]⟩))).run paidView =
          .ok (.ok, restored) ∧
      ∀ o, restored.lookup o = (viewOfTime 0).lookup o := by
  have hrun : (connectBlock sampleParams permissiveRules sampleBlock 2).run (viewOfTime 0) =
      .ok (⟨[⟨[coinOfTime 0]⟩]⟩, paidView) := rfl
  have hfresh : sampleBlock.fChecked ≠ true := by decide
  have hbip30 : bip30Checked sampleParams sampleBlock 2 ≠ false := by decide
  refine (disconnectBlock_restores_iff noCurve (wellFormedView_viewOfTime 0) (by decide)
    (by decide) (fun h => absurd h hfresh) (fun h => absurd h hbip30) hrun).mpr ?_
  intro tx _ _ txin _ coin hcoin
  unfold viewOfTime at hcoin
  rw [lookup_insert_ite] at hcoin
  split at hcoin <;> cases hcoin
  rfl

/-- A coin of time 5 comes back with time 0, and a payment of time 3 that was refused before
the block is accepted after it. -/
theorem disconnectBlock_forgets_time :
    WellFormedView (viewOfTime 5) ∧
    (connectBlock sampleParams permissiveRules sampleBlock 2).run (viewOfTime 5) =
      .ok (⟨[⟨[coinOfTime 5]⟩]⟩, paidView) ∧
    (disconnectBlock sampleBlock 2
        (undoReadFromDisk noCurve (writeBlockUndo noCurve ⟨[⟨[coinOfTime 5]⟩]⟩))).run paidView =
      .ok (.ok, viewOfTime 0) ∧
    (viewOfTime 0).lookup ⟨7, 0⟩ ≠ (viewOfTime 5).lookup ⟨7, 0⟩ ∧
    (checkTxInputs (samplePayment 3) 3).run (viewOfTime 5) =
      .error (.invalid 100 "bad-txs-and-input-times") ∧
    (checkTxInputs (samplePayment 3) 3).run (viewOfTime 0) = .ok (0, viewOfTime 0) := by
  have hread : undoReadFromDisk noCurve (writeBlockUndo noCurve ⟨[⟨[coinOfTime 5]⟩]⟩) =
      some ⟨[⟨[coinOfTime 0]⟩]⟩ := by decide +kernel
  refine ⟨wellFormedView_viewOfTime 5, rfl, ?_, by decide, rfl, rfl⟩
  rw [hread]
  rfl

end Verge
