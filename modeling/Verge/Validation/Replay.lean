import Mathlib.Data.List.Induction
import Verge.Coins.Simulation
import Verge.Foundation.Ancestry
import Verge.Validation.UndoBlock

/-!
# `ReplayBlocks`

Recovery of a coins database whose last flush was cut short.  The old branch is
rolled back and the new one rolled forward on a cache over whatever mixture of
the two coin sets the database holds.  Both directions are lists of blind
writes, so only the last write to an outpoint counts.
-/

namespace Verge

open Foundation List WriteLog Ancestry Option CCoinsViewDB

/-! ## The code -/

/-- What `ReplayBlocks` reads besides the database: `mapBlockIndex` and the
block and undo files. -/
structure BlockFiles where
  tree : Ancestry uint256
  count : uint256 → Bool
  readBlockFromDisk : uint256 → Option CBlock
  undoReadFromDisk : uint256 → Option CBlockUndo

def spendEach : List CTxIn → CoinsProg Unit
  | [] => pure ()
  | txin :: rest => do
    let _ ← CoinsProg.spendCoin txin.prevout
    spendEach rest

def rollforwardTxs (nHeight : Nat) : List CTransaction → CoinsProg Unit
  | [] => pure ()
  | tx :: rest => do
    spendEach (spentInputs tx)
    addCoins tx nHeight true
    rollforwardTxs nHeight rest

namespace BlockFiles

variable (files : BlockFiles)

def rollforwardBlock (pindex : uint256) : CoinsProg Unit :=
  match files.readBlockFromDisk pindex with
  | none => CoinsProg.fail (.error "ReplayBlock(): ReadBlockFromDisk failed")
  | some block => rollforwardTxs (files.tree.height pindex) block.vtx

def rollbackBlock (pindexOld : uint256) : CoinsProg Unit :=
  if 0 < files.tree.height pindexOld then
    match files.readBlockFromDisk pindexOld with
    | none => CoinsProg.fail (.error "RollbackBlock(): ReadBlockFromDisk() failed")
    | some block => do
      match ← disconnectBlock block (files.tree.height pindexOld)
          (files.undoReadFromDisk pindexOld) with
      | .failed => CoinsProg.fail (.error "RollbackBlock(): DisconnectBlock failed")
      | _ => return ()
  else pure ()

/-- `while (pindexOld != pindexFork)`, with a bound on the rounds that are
left. -/
def rollback (pindexFork : Option uint256) : Nat → Option uint256 → CoinsProg Unit
  | 0, pindexOld =>
    if pindexOld = pindexFork then pure () else CoinsProg.fail (.assertion "pindexOld")
  | n + 1, pindexOld =>
    if pindexOld = pindexFork then pure ()
    else
      match pindexOld with
      | none => CoinsProg.fail (.assertion "pindexOld")
      | some pindex => do
        files.rollbackBlock pindex
        rollback pindexFork n (files.tree.parent pindex)

def rollforward (pindexNew : uint256) : List Nat → CoinsProg Unit
  | [] => pure ()
  | nHeight :: rest => do
    match files.tree.ancestor pindexNew nHeight with
    | none => CoinsProg.fail (.assertion "pindex")
    | some pindex => do
      files.rollforwardBlock pindex
      rollforward pindexNew rest

def replayChain (pindexOld pindexFork : Option uint256) (pindexNew : uint256) :
    CoinsProg Unit := do
  let nOldHeight := (pindexOld.map files.tree.height).getD 0
  let nForkHeight := (pindexFork.map files.tree.height).getD 0
  files.rollback pindexFork (nOldHeight + 1) pindexOld
  files.rollforward pindexNew
    (List.range' (nForkHeight + 1) (files.tree.height pindexNew - nForkHeight))

def findFork (hashNew hashOld : uint256) :
    Except Failure (Option uint256 × Option uint256) :=
  if hashOld == 0 then .ok (none, none)
  else if !files.count hashOld then
    .error (.error "ReplayBlocks(): reorganization from unknown block requested")
  else
    match files.tree.lastCommonAncestor hashOld hashNew with
    | none => .error (.assertion "pindexFork != nullptr")
    | some pindexFork => .ok (some hashOld, some pindexFork)

def topEntries : List CCoinsViewCache → CCoinsMap
  | [] => ∅
  | cache :: _ => cache.cacheCoins

def replayBlocks (full : List DbWrite → Bool) (db : CCoinsViewDB) :
    Except Failure (List (List DbWrite)) :=
  match db.getHeadBlocks with
  | [] => .ok []
  | [hashNew, hashOld] =>
    if !files.count hashNew then
      .error (.error "ReplayBlocks(): reorganization to unknown block requested")
    else do
      let (pindexOld, pindexFork) ← files.findFork hashNew hashOld
      let (_, caches) ← CacheStack.runProg CoinsView.base db.coins
        (files.replayChain pindexOld pindexFork hashNew) [CCoinsViewCache.fresh]
      db.batches full (topEntries caches) hashNew
  | _ => .error (.error "ReplayBlocks(): unknown inconsistent state")

end BlockFiles

open CoinsProg

/-! ## Rolling forward -/

theorem run_spendEach (vin : List CTxIn) (view : CoinsView) :
    (spendEach vin).run view = .ok ((), WriteLog.apply view (spends vin)) := by
  induction vin generalizing view with
  | nil => rfl
  | cons txin vin ih =>
    rw [spendEach, run_bind_of_ok (run_spendCoin txin.prevout view)]
    exact ih (view.erase txin.prevout)

theorem run_addCoinsFrom_check (tx : CTransaction) (nHeight i : Nat) {vout : List CTxOut}
    (houtputs : ∀ txout ∈ vout, txout.isNull = false) (view : CoinsView) :
    (addCoinsFrom tx nHeight true i vout).run view =
      .ok ((), WriteLog.apply view (creationsFrom tx nHeight i vout)) := by
  induction vout generalizing i view with
  | nil => rfl
  | cons txout vout ih =>
    have hnull : (⟨txout, tx.isCoinBase, nHeight, tx.nTime⟩ : Coin).isSpent = false :=
      houtputs txout mem_cons_self
    have hrest := ih (i + 1) fun t ht => houtputs t (mem_cons_of_mem _ ht)
    rw [addCoinsFrom, if_pos rfl, run_bind_of_ok (run_haveCoin (tx.outpoint i) view),
      creationsFrom]
    cases hspend : isUnspendable txout.scriptPubKey with
    | true =>
      have hadd : (CoinsProg.addCoin (tx.outpoint i)
          ⟨txout, tx.isCoinBase, nHeight, tx.nTime⟩
          (view.haveCoin (tx.outpoint i))).run view = .ok ((), view) := by
        simp [run_addCoin, CoinsView.addCoin, hnull, hspend, Except.map]
      rw [run_bind_of_ok hadd]
      exact hrest view
    | false =>
      have hadd : (CoinsProg.addCoin (tx.outpoint i)
          ⟨txout, tx.isCoinBase, nHeight, tx.nTime⟩
          (view.haveCoin (tx.outpoint i))).run view =
            .ok ((), view.insert (tx.outpoint i) (createdCoin tx nHeight txout)) := by
        simp [run_addCoin, CoinsView.addCoin, hnull, hspend, Except.map, createdCoin]
      rw [run_bind_of_ok hadd]
      exact hrest (view.insert (tx.outpoint i) (createdCoin tx nHeight txout))

def connectLogs (nHeight : Nat) (txs : List CTransaction) : CoinsLog :=
  txs.flatMap fun tx => connectLog tx nHeight

theorem run_rollforwardTxs (nHeight : Nat) {txs : List CTransaction}
    (houtputs : ∀ tx ∈ txs, ∀ txout ∈ tx.vout, txout.isNull = false) (view : CoinsView) :
    (rollforwardTxs nHeight txs).run view =
      .ok ((), WriteLog.apply view (connectLogs nHeight txs)) := by
  induction txs generalizing view with
  | nil => rfl
  | cons tx txs ih =>
    have hadd := run_addCoinsFrom_check tx nHeight 0 (houtputs tx mem_cons_self)
      (WriteLog.apply view (spends (spentInputs tx)))
    have hrest := ih (fun t ht => houtputs t (mem_cons_of_mem _ ht))
    rw [rollforwardTxs, run_bind_of_ok (run_spendEach (spentInputs tx) view), addCoins,
      run_bind_of_ok hadd, hrest, ← apply_append, ← apply_append,
      ← append_assoc]
    rfl

theorem ConnectedTxs.eq_apply {nHeight : Nat} {view view' : CoinsView}
    {txs : List CTransaction} {vtxundo : List CTxUndo} {nFees : Int}
    (h : ConnectedTxs nHeight view txs vtxundo nFees view') :
    view' = WriteLog.apply view (connectLogs nHeight txs) ∧
      ∀ tx ∈ txs, ∀ txout ∈ tx.vout, txout.isNull = false := by
  induction h with
  | nil => exact ⟨rfl, by simp⟩
  | @cons view view' tx rest _ _ _ _ _ connected _ ih =>
    obtain ⟨heq, houtputs⟩ := ih
    refine ⟨?_, forall_mem_cons.mpr ⟨connected.outputs, houtputs⟩⟩
    rw [heq, ← apply_append]
    rfl

theorem ConnectedBlock.eq_apply {consensusParams : ConsensusParams} {nHeight : Nat}
    {view view' : CoinsView} {block : CBlock} {blockUndo : CBlockUndo}
    (h : ConnectedBlock consensusParams nHeight view block blockUndo view') :
    view' = WriteLog.apply view (connectLogs nHeight block.vtx) ∧
      ∀ tx ∈ block.vtx, ∀ txout ∈ tx.vout, txout.isNull = false := by
  obtain ⟨coinbase, rest, fees, hvtx, hfirst, hrest, -⟩ := h.connected
  obtain ⟨heq, houtputs⟩ := hrest.eq_apply
  rw [hvtx]
  refine ⟨?_, forall_mem_cons.mpr ⟨hfirst.outputs, houtputs⟩⟩
  rw [heq, ← apply_append]
  rfl

/-! ## Views up to times -/

/-- The same coins, whatever their times: `out`, `nHeight` and `fCoinBase`
agree. -/
def SameUpToTime (view view' : CoinsView) : Prop :=
  ∀ o, (view.lookup o).map Coin.dropTime = (view'.lookup o).map Coin.dropTime

namespace SameUpToTime

variable {view view' : CoinsView}

theorem trans {view'' : CoinsView} (h : SameUpToTime view view')
    (h' : SameUpToTime view' view'') : SameUpToTime view view'' :=
  fun o => (h o).trans (h' o)

theorem apply (h : SameUpToTime view view') (log : CoinsLog) :
    SameUpToTime (WriteLog.apply view log) (WriteLog.apply view' log) := by
  intro o
  rw [lookup_apply, lookup_apply]
  cases WriteLog.last log o with
  | none => exact h o
  | some w => rfl

end SameUpToTime

theorem WellFormedView.unspent {view view' : CoinsView} (hview : WellFormedView view')
    {o : COutPoint}
    (hsame : (view.lookup o).map Coin.dropTime = (view'.lookup o).map Coin.dropTime)
    {coin : Coin} (hcoin : view.lookup o = some coin) : coin.isSpent = false := by
  rw [hcoin] at hsame
  obtain ⟨coin', hcoin', heq⟩ := map_eq_some_iff.mp hsame.symm
  have hunspent := (hview o coin' hcoin').1.unspent
  rwa [← Coin.isSpent_dropTime, heq] at hunspent

theorem RestoredUpTo.sameUpToTime {spent : List COutPoint} {restored view : CoinsView}
    (h : RestoredUpTo spent restored view) : SameUpToTime restored view :=
  h.map_dropTime

/-! ## Branches on disk -/

/-- A block that was connected on the coins of its parent, with its block and
undo data readable. -/
structure StoredBlock (files : BlockFiles) (consensusParams : ConsensusParams)
    (secp : Secp256k1) (utxo : uint256 → CoinsView) (pprev pindex : uint256) (rules : BlockRules)
    (block : CBlock) (blockUndo : CBlockUndo) : Prop where
  stored : files.readBlockFromDisk pindex = some block
  undo : files.undoReadFromDisk pindex = undoReadFromDisk secp (writeBlockUndo secp blockUndo)
  height : files.tree.height pindex < 2 ^ 31
  notGenesis : block.hash ≠ consensusParams.hashGenesisBlock
  passed : block.fChecked = true → PassedCheckBlock rules block
  bip30 : bip30Checked consensusParams block (files.tree.height pindex) = false →
    NoOverwrite (utxo pprev) block.vtx
  accepted : (connectBlock consensusParams rules block (files.tree.height pindex)).run
    (utxo pprev) = .ok (blockUndo, utxo pindex)

/-- All blocks of a chain are on disk, and `utxo` gives the coins after each of
them, starting from none at the genesis block. -/
structure StoredChain (files : BlockFiles) (consensusParams : ConsensusParams)
    (secp : Secp256k1) (utxo : uint256 → CoinsView) (tip : uint256) : Prop where
  genesis : utxo files.tree.root = ∅
  blocks : ∀ pprev pindex, files.tree.IsAncestor pindex tip →
    files.tree.parent pindex = some pprev →
    ∃ rules block blockUndo,
      StoredBlock files consensusParams secp utxo pprev pindex rules block blockUndo

section Stored

variable {files : BlockFiles} {consensusParams : ConsensusParams} {secp : Secp256k1}
  {utxo : uint256 → CoinsView} {pprev pindex tip : uint256}

section Block

variable {rules : BlockRules} {block : CBlock} {blockUndo : CBlockUndo}
  (h : StoredBlock files consensusParams secp utxo pprev pindex rules block blockUndo)

include h

theorem StoredBlock.connectedBlock :
    ConnectedBlock consensusParams (files.tree.height pindex) (utxo pprev) block blockUndo
      (utxo pindex) :=
  (@post_connectBlock False _ _ _ _ _ h.notGenesis h.passed False.elim).of_run h.accepted

theorem StoredBlock.noOverwrite : NoOverwrite (utxo pprev) block.vtx := by
  cases hchecked : bip30Checked consensusParams block (files.tree.height pindex) with
  | true => exact h.connectedBlock.bip30 hchecked
  | false => exact h.bip30 hchecked

theorem StoredBlock.wellFormedView (hview : WellFormedView (utxo pprev)) :
    WellFormedView (utxo pindex) := by
  have hconnected := h.connectedBlock
  obtain ⟨heq, houtputs⟩ := hconnected.eq_apply
  rw [heq]
  have hloop : ∀ (txs : List CTransaction) (view : CoinsView), WellFormedView view →
      (∀ tx ∈ txs, ∀ txout ∈ tx.vout, txout.isNull = false) →
      WellFormedView (WriteLog.apply view (connectLogs (files.tree.height pindex) txs)) := by
    intro txs
    induction txs with
    | nil => exact fun view hview _ => hview
    | cons tx txs ih =>
      intro view hview houtputs
      have hstep := hview.connect ⟨hconnected.height, h.height⟩
        (houtputs tx mem_cons_self)
      have hrest := ih _ hstep fun t ht => houtputs t (mem_cons_of_mem _ ht)
      rwa [← apply_append] at hrest
  exact hloop block.vtx _ hview houtputs

theorem StoredBlock.exists_rollforwardLog :
    ∃ log : CoinsLog, WriteLog.apply (utxo pprev) log = utxo pindex ∧
      ∀ view, (files.rollforwardBlock pindex).run view = .ok ((), WriteLog.apply view log) := by
  obtain ⟨heq, houtputs⟩ := h.connectedBlock.eq_apply
  refine ⟨_, heq.symm, fun view => ?_⟩
  rw [BlockFiles.rollforwardBlock, h.stored]
  exact run_rollforwardTxs _ houtputs view

theorem StoredBlock.exists_rollbackLog (hview : WellFormedView (utxo pprev)) :
    ∃ log : CoinsLog, SameUpToTime (WriteLog.apply (utxo pindex) log) (utxo pprev) ∧
      ∀ view, (files.rollbackBlock pindex).run view = .ok ((), WriteLog.apply view log) := by
  have hconnected := h.connectedBlock
  refine ⟨_, (hconnected.restores h.noOverwrite).2.sameUpToTime, fun view => ?_⟩
  obtain ⟨res, hrun, hfailed, -⟩ := hconnected.run_disconnectBlock hview h.height view
  rw [BlockFiles.rollbackBlock, if_pos hconnected.height, h.stored, h.undo,
    hconnected.undo_read hview h.height secp]
  dsimp only
  rw [run_bind_of_ok hrun]
  cases res with
  | failed => exact absurd rfl hfailed
  | ok => rfl
  | unclean => rfl

end Block

section Chain

variable (h : StoredChain files consensusParams secp utxo tip)

include h

theorem StoredChain.of_isAncestor {pindex : uint256} (ha : files.tree.IsAncestor pindex tip) :
    StoredChain files consensusParams secp utxo pindex :=
  ⟨h.genesis, fun pprev i hi => h.blocks pprev i (hi.trans ha)⟩

omit h in
theorem StoredChain.wellFormedView (h : StoredChain files consensusParams secp utxo tip) :
    WellFormedView (utxo tip) := by
  obtain ⟨path, hpath⟩ := (files.tree.isAncestor_root tip).exists_path
  induction path using List.reverseRecOn generalizing tip with
  | nil =>
    rw [← show files.tree.root = tip from hpath, h.genesis]
    intro o coin hcoin
    rw [AList.lookup_empty] at hcoin
    cases hcoin
  | append_singleton path i ih =>
    obtain ⟨rfl, j, hj, hpath⟩ := isPath_append_singleton.mp hpath
    obtain ⟨rules, block, blockUndo, hstored⟩ := h.blocks j i (.refl i) hj
    exact hstored.wellFormedView (ih (h.of_isAncestor (.of_parent hj)) hpath)

theorem StoredChain.exists_rollbackLog {fork : uint256} {path : List uint256}
    (hpath : files.tree.IsPath fork path tip) :
    ∃ log : CoinsLog, SameUpToTime (WriteLog.apply (utxo tip) log) (utxo fork) ∧
      ∀ n view, path.length ≤ n → (files.rollback (some fork) n (some tip)).run view =
        .ok ((), WriteLog.apply view log) := by
  induction path using List.reverseRecOn generalizing tip with
  | nil =>
    obtain rfl : fork = tip := hpath
    refine ⟨[], fun o => rfl, fun n view _ => ?_⟩
    cases n <;> simp [BlockFiles.rollback]
  | append_singleton path i ih =>
    have hlength := hpath.length_eq
    obtain ⟨rfl, j, hj, hpath⟩ := isPath_append_singleton.mp hpath
    obtain ⟨rules, block, blockUndo, hstored⟩ := h.blocks j i (.refl i) hj
    have hparent := h.of_isAncestor (.of_parent hj)
    obtain ⟨log, hsame, hrun⟩ := hstored.exists_rollbackLog hparent.wellFormedView
    obtain ⟨logs, hsames, hruns⟩ := ih hparent hpath
    refine ⟨log ++ logs, ?_, fun n view hn => ?_⟩
    · rw [apply_append]
      exact (hsame.apply logs).trans hsames
    · have hne : ¬some i = some fork := by
        rintro heq
        rw [Option.some.inj heq, length_append, length_singleton] at hlength
        omega
      rw [length_append, length_singleton] at hn
      obtain ⟨n, rfl⟩ : ∃ m, n = m + 1 := ⟨n - 1, by omega⟩
      rw [BlockFiles.rollback, if_neg hne, run_bind_of_ok (hrun view), hj, hruns n _ (by omega),
        apply_append]

theorem StoredChain.exists_rollforwardLog {fork : uint256} {path : List uint256}
    (hpath : files.tree.IsPath fork path tip) :
    ∃ log : CoinsLog, WriteLog.apply (utxo fork) log = utxo tip ∧
      ∀ view, (files.rollforward tip (List.range' (files.tree.height fork + 1) path.length)).run
        view = .ok ((), WriteLog.apply view log) := by
  induction path generalizing fork with
  | nil =>
    obtain rfl : fork = tip := hpath
    exact ⟨[], rfl, fun view => rfl⟩
  | cons i path ih =>
    have hheight := files.tree.height_parent hpath.1
    have hi : files.tree.IsAncestor i tip := hpath.isAncestor_of_mem mem_cons_self
    obtain ⟨rules, block, blockUndo, hstored⟩ := h.blocks fork i hi hpath.1
    obtain ⟨log, heq, hrun⟩ := hstored.exists_rollforwardLog
    obtain ⟨logs, heqs, hruns⟩ := ih hpath.2
    have hnode : files.tree.ancestor tip (files.tree.height fork + 1) = some i :=
      ancestor_eq_some.mpr ⟨hi, hheight⟩
    refine ⟨log ++ logs, ?_, fun view => ?_⟩
    · rw [apply_append, heq, heqs]
    · rw [length_cons, List.range'_succ, BlockFiles.rollforward, hnode]
      dsimp only
      rw [run_bind_of_ok (hrun view), ← hheight, hruns, apply_append]

end Chain

theorem exists_replayLog {pindexOld : Option uint256} {pindexNew : uint256}
    (hold : ∀ o, pindexOld = some o →
      o ≠ 0 ∧ files.count o = true ∧ StoredChain files consensusParams secp utxo o)
    (hnew : StoredChain files consensusParams secp utxo pindexNew) :
    ∃ pindexFork log,
      files.findFork pindexNew (pindexOld.getD 0) = .ok (pindexOld, pindexFork) ∧
      SameUpToTime (WriteLog.apply (utxo (pindexOld.getD files.tree.root)) log)
        (utxo pindexNew) ∧
      ∀ view, (files.replayChain pindexOld pindexFork pindexNew).run view =
        .ok ((), WriteLog.apply view log) := by
  cases pindexOld with
  | none =>
    obtain ⟨path, hpath⟩ := (files.tree.isAncestor_root pindexNew).exists_path
    have hlength := hpath.length_eq
    obtain ⟨log, heq, hrun⟩ := hnew.exists_rollforwardLog hpath
    refine ⟨none, log, rfl, fun o => by rw [← heq]; rfl, fun view => ?_⟩
    have hback : (files.rollback none 1 none).run view = .ok ((), view) := rfl
    rw [files.tree.height_root] at hlength hrun
    rw [BlockFiles.replayChain]
    simp only [map_none, getD_none, Nat.zero_add]
    rw [run_bind_of_ok hback, show files.tree.height pindexNew - 0 = path.length by omega]
    exact hrun view
  | some o =>
    obtain ⟨hzero, hcount, hstored⟩ := hold o rfl
    obtain ⟨fork, hfork, hlast⟩ := files.tree.exists_lastCommonAncestor o pindexNew
    obtain ⟨oldPath, holdPath⟩ := hlast.left.exists_path
    obtain ⟨newPath, hnewPath⟩ := hlast.right.exists_path
    have holdLength := holdPath.length_eq
    have hnewLength := hnewPath.length_eq
    obtain ⟨back, hsame, hback⟩ := hstored.exists_rollbackLog holdPath
    obtain ⟨forth, heq, hforth⟩ := hnew.exists_rollforwardLog hnewPath
    refine ⟨some fork, back ++ forth, ?_, ?_, fun view => ?_⟩
    · have hbeq : (o == 0) = false := beq_false_of_ne hzero
      rw [BlockFiles.findFork, getD_some, hbeq]
      simp [hcount, hfork]
    · rw [apply_append, ← heq]
      exact hsame.apply forth
    · rw [BlockFiles.replayChain]
      simp only [map_some, getD_some]
      rw [run_bind_of_ok (hback _ view (by omega)),
        show files.tree.height pindexNew - files.tree.height fork = newPath.length by omega,
        hforth, apply_append]

end Stored

/-! ## Recovery -/

def MixtureOf (old new view : CoinsView) : Prop :=
  ∀ o, (view.lookup o).map Coin.dropTime = (old.lookup o).map Coin.dropTime ∨
    (view.lookup o).map Coin.dropTime = (new.lookup o).map Coin.dropTime

theorem MixtureOf.apply {old new view : CoinsView} (h : MixtureOf old new view)
    {log : CoinsLog} (hlog : SameUpToTime (WriteLog.apply old log) new) :
    SameUpToTime (WriteLog.apply view log) new := by
  intro o
  have ho := hlog o
  rw [lookup_apply] at ho ⊢
  cases hlast : WriteLog.last log o with
  | some w =>
    rw [hlast] at ho
    exact ho
  | none =>
    rw [hlast] at ho
    rcases h o with hold | hnew
    · exact hold.trans ho
    · exact hnew

structure InTransition (utxoOld utxoNew : CoinsView) (hashNew hashOld : uint256)
    (db : CCoinsViewDB) : Prop where
  bestBlock : db.bestBlock = none
  headBlocks : db.headBlocks = some [hashNew, hashOld]
  coins : MixtureOf utxoOld utxoNew db.coins

/-- The process starts again and again, and each time `ReplayBlocks` is cut
short after some of the batches of its flush. -/
inductive Restarts (files : BlockFiles) (db : CCoinsViewDB) : CCoinsViewDB → Prop
  | start : Restarts files db db
  | interrupted {db' : CCoinsViewDB} {full : List DbWrite → Bool} {sent : List (List DbWrite)}
      {k : Nat} (before : Restarts files db db') (replay : files.replayBlocks full db' = .ok sent)
      (cut : k < sent.length) : Restarts files db (db'.writeBatches (sent.take k))

section Recovery

variable {files : BlockFiles} {consensusParams : ConsensusParams} {secp : Secp256k1}
  {utxo : uint256 → CoinsView} {pindexOld : Option uint256} {pindexNew : uint256}

theorem exists_runProg_fresh {coins coins' : CoinsView} {p : CoinsProg Unit}
    (hunspent : ∀ o coin, coins.lookup o = some coin → coin.isSpent = false)
    (hrun : p.run coins = .ok ((), coins')) :
    ∃ caches, CacheStack.runProg CoinsView.base coins p [CCoinsViewCache.fresh] =
        .ok ((), caches) ∧
      ∀ o, (coins.writeEntries (BlockFiles.topEntries caches)).lookup o = coins'.lookup o := by
  have hbase : ∀ o, (CoinsView.base.getCoin coins o).bind Coin.live = coins.lookup o := by
    intro o
    change (coins.lookup o).bind Coin.live = coins.lookup o
    cases hcoin : coins.lookup o with
    | none => rfl
    | some coin => exact Coin.live_of_not_spent (hunspent o coin hcoin)
  have hfresh := CacheStack.represents_fresh hbase 1
  obtain ⟨caches, hok, hinv, hviews⟩ := CacheStack.runProg_refines (cons_ne_nil _ [])
    hfresh.inv hfresh.views_eq p hrun
  refine ⟨caches, hok, fun o => ?_⟩
  have hlength := congrArg List.length hviews
  rw [CacheStack.length_views] at hlength
  obtain ⟨cache, rfl⟩ : ∃ cache, caches = [cache] :=
    length_eq_one_iff.mp (Nat.succ.inj hlength)
  have htop := congrFun (List.cons.inj hviews).1 o
  rw [CacheStack.view, CCoinsViewCache.layerView_eq_writes hinv.1] at htop
  rw [CoinsView.lookup_writeEntries, BlockFiles.topEntries]
  cases hentry : cache.cacheCoins.lookup o with
  | none =>
    rw [hentry] at htop
    exact (hbase o).symm.trans htop
  | some entry =>
    rw [hentry] at htop
    dsimp only at htop ⊢
    rw [← hbase o]
    exact htop

variable
  (hold : ∀ o, pindexOld = some o →
    o ≠ 0 ∧ files.count o = true ∧ StoredChain files consensusParams secp utxo o)
  (hnew : StoredChain files consensusParams secp utxo pindexNew)
  (hnewHash : pindexNew ≠ 0) (hcount : files.count pindexNew = true)

include hold hnew hnewHash hcount

theorem InTransition.exists_replay {db : CCoinsViewDB}
    (hdb : InTransition (utxo (pindexOld.getD files.tree.root)) (utxo pindexNew) pindexNew
      (pindexOld.getD 0) db) :
    ∃ mapCoins : CCoinsMap,
      SameUpToTime (db.coins.writeEntries mapCoins) (utxo pindexNew) ∧
      ∀ full, files.replayBlocks full db = .ok (batchLoop full pindexNew
        [.eraseBestBlock, .writeHeadBlocks [pindexNew, pindexOld.getD 0]] mapCoins.entries) := by
  obtain ⟨pindexFork, log, hfork, hlog, hrun⟩ := exists_replayLog hold hnew
  have holdView : WellFormedView (utxo (pindexOld.getD files.tree.root)) := by
    cases pindexOld with
    | none => exact (hnew.of_isAncestor (files.tree.isAncestor_root pindexNew)).wellFormedView
    | some o => exact (hold o rfl).2.2.wellFormedView
  have hunspent : ∀ o coin, db.coins.lookup o = some coin → coin.isSpent = false := by
    intro o coin hcoin
    rcases hdb.coins o with hsame | hsame
    · exact holdView.unspent hsame hcoin
    · exact hnew.wellFormedView.unspent hsame hcoin
  obtain ⟨caches, hprog, hcoins⟩ := exists_runProg_fresh hunspent (hrun db.coins)
  refine ⟨BlockFiles.topEntries caches, fun o => ?_, fun full => ?_⟩
  · rw [hcoins o]
    exact hdb.coins.apply hlog o
  · have hheads : db.getHeadBlocks = [pindexNew, pindexOld.getD 0] := by
      rw [getHeadBlocks, hdb.headBlocks]
      rfl
    have htip : db.oldTip pindexNew = .ok (pindexOld.getD 0) := by
      simp [oldTip, getBestBlock, hdb.bestBlock, hheads]
    rw [BlockFiles.replayBlocks, hheads]
    simp only [hcount, Bool.not_true, Bool.false_eq_true, if_false, hfork]
    change (do
      let (_, caches) ← CacheStack.runProg CoinsView.base db.coins
        (files.replayChain pindexOld pindexFork pindexNew) [CCoinsViewCache.fresh]
      db.batches full (BlockFiles.topEntries caches) pindexNew) = _
    rw [hprog]
    exact batches_eq hnewHash htip

theorem InTransition.restarts {db db' : CCoinsViewDB}
    (hdb : InTransition (utxo (pindexOld.getD files.tree.root)) (utxo pindexNew) pindexNew
      (pindexOld.getD 0) db) (hrestarts : Restarts files db db') :
    InTransition (utxo (pindexOld.getD files.tree.root)) (utxo pindexNew) pindexNew
      (pindexOld.getD 0) db' := by
  induction hrestarts with
  | start => exact hdb
  | @interrupted db' full sent k _ replay cut ih =>
    obtain ⟨mapCoins, hcoins, hsent⟩ := ih.exists_replay hold hnew hnewHash hcount
    cases (hsent full).symm.trans replay
    rcases Nat.eq_zero_or_pos k with rfl | hpos
    · exact ih
    · obtain ⟨coins, heq, hmixture⟩ := writeBatches_take full db' mapCoins
        pindexNew (pindexOld.getD 0) hpos cut
      rw [heq]
      refine ⟨rfl, rfl, fun o => ?_⟩
      rcases hmixture o with ho | ho
      · rw [ho]
        exact ih.coins o
      · rw [ho]
        exact .inr (hcoins o)

/-- `ReplayBlocks` recovers the coins of the new tip from a flush that was cut short, also
after any number of runs of its own that were. -/
theorem replayBlocks_recovers {db₀ : CCoinsViewDB}
    (hcoins : SameUpToTime db₀.coins (utxo (pindexOld.getD files.tree.root)))
    (hbest : db₀.bestBlock = pindexOld) (hheads : db₀.headBlocks = none)
    {mapCoins : CCoinsMap}
    (hflush : SameUpToTime (db₀.coins.writeEntries mapCoins) (utxo pindexNew))
    {full : List DbWrite → Bool} {sent : List (List DbWrite)}
    (hsent : db₀.batches full mapCoins pindexNew = .ok sent) {k : Nat} (hpos : 0 < k)
    (hcut : k < sent.length) {db : CCoinsViewDB}
    (hrestarts : Restarts files (db₀.writeBatches (sent.take k)) db)
    (full' : List DbWrite → Bool) :
    (db₀.writeBatches (sent.take k)).getHeadBlocks = [pindexNew, pindexOld.getD 0] ∧
    ∃ sent', files.replayBlocks full' db = .ok sent' ∧
      SameUpToTime (db.writeBatches sent').coins (utxo pindexNew) ∧
      (db.writeBatches sent').getBestBlock = pindexNew ∧
      (db.writeBatches sent').getHeadBlocks = [] := by
  have htip : db₀.oldTip pindexNew = .ok (pindexOld.getD 0) := by
    cases pindexOld with
    | none => simp [oldTip, getBestBlock, getHeadBlocks,
        hbest, hheads]
    | some o =>
      have hbeq : (o == 0) = false := beq_false_of_ne (hold o rfl).1
      rw [oldTip, getBestBlock, hbest, getD_some, hbeq]
      rfl
  cases (batches_eq hnewHash htip).symm.trans hsent
  obtain ⟨coins, heq, hmixture⟩ := writeBatches_take full db₀ mapCoins
    pindexNew (pindexOld.getD 0) hpos hcut
  rw [heq] at hrestarts ⊢
  refine ⟨rfl, ?_⟩
  have hstart : InTransition (utxo (pindexOld.getD files.tree.root)) (utxo pindexNew) pindexNew
      (pindexOld.getD 0) ⟨coins, none, some [pindexNew, pindexOld.getD 0]⟩ := by
    refine ⟨rfl, rfl, fun o => ?_⟩
    rcases hmixture o with ho | ho
    · exact .inl (ho ▸ hcoins o)
    · exact .inr (ho ▸ hflush o)
  have hdb := hstart.restarts hold hnew hnewHash hcount hrestarts
  obtain ⟨entries, hentries, hreplay⟩ := hdb.exists_replay hold hnew hnewHash hcount
  refine ⟨_, hreplay full', ?_⟩
  rw [writeBatches_all]
  exact ⟨hentries, rfl, rfl⟩

end Recovery

/-! ### Two branches of one block each -/

def starTree : Ancestry uint256 where
  root := 50
  parent i := if i = 50 then none else some 50
  height i := if i = 50 then 0 else 1
  parent_eq_none := by
    intro i h
    split at h
    case isTrue heq => exact heq
    case isFalse => cases h
  height_root := rfl
  height_parent := by
    intro i j h
    split at h
    case isTrue => cases h
    case isFalse hne =>
      cases h
      rw [if_neg hne, if_pos rfl]

def rewardBlock (hash txid : uint256) : CBlock :=
  { sampleBlock with hash := hash, vtx := [{ sampleCoinBase with hash := txid }] }

def rewardCoins (txid : uint256) : CoinsView :=
  (∅ : CoinsView).insert ⟨txid, 0⟩ ⟨⟨1, []⟩, true, 1, 9⟩

def starCoins (i : uint256) : CoinsView :=
  if i = 50 then ∅ else if i = 51 then rewardCoins 21 else rewardCoins 31

def starFiles : BlockFiles where
  tree := starTree
  count _ := true
  readBlockFromDisk i := some (if i = 51 then rewardBlock 51 21 else rewardBlock 52 31)
  undoReadFromDisk _ := undoReadFromDisk noCurve (writeBlockUndo noCurve ⟨[]⟩)

def starEntries : CCoinsMap :=
  ((∅ : CCoinsMap).insert ⟨21, 0⟩ ⟨Coin.empty, true, false⟩).insert ⟨31, 0⟩
    ⟨⟨⟨1, []⟩, true, 1, 9⟩, true, true⟩

theorem storedChain_star {i : uint256} (txid : uint256) (hi : i ≠ 50)
    (hblock : starFiles.readBlockFromDisk i = some (rewardBlock i txid)) (hhash : i ≠ 99)
    (hrun : (connectBlock sampleParams permissiveRules (rewardBlock i txid) 1).run ∅ =
      .ok (⟨[]⟩, starCoins i)) :
    StoredChain starFiles sampleParams noCurve starCoins i := by
  have hheight : starTree.height i = 1 := if_neg hi
  refine ⟨rfl, fun pprev pindex hancestor hparent => ?_⟩
  rcases isAncestor_iff.mp hancestor with rfl | ⟨j, hj, hbelow⟩
  · obtain rfl : pprev = 50 := by
      have hstar : starTree.parent pindex = some 50 := if_neg hi
      exact Option.some.inj (hparent.symm.trans hstar)
    have hchecked : bip30Checked sampleParams (rewardBlock pindex txid) 1 = true := rfl
    refine ⟨permissiveRules, rewardBlock pindex txid, ⟨[]⟩, hblock, rfl, ?_, hhash, ?_, ?_, ?_⟩
    · change starTree.height pindex < 2 ^ 31
      rw [hheight]
      decide
    · intro h
      cases h
    · intro h
      change bip30Checked sampleParams (rewardBlock pindex txid) (starTree.height pindex) = _ at h
      rw [hheight, hchecked] at h
      cases h
    · change (connectBlock sampleParams permissiveRules (rewardBlock pindex txid)
        (starTree.height pindex)).run ∅ = _
      rw [hheight]
      exact hrun
  · -- below the block there is only the genesis block, which has no parent
    have hstar : starTree.parent i = some 50 := if_neg hi
    obtain rfl : j = 50 := Option.some.inj (hj.symm.trans hstar)
    have hroot : pindex = 50 := hbelow.antisymm (starTree.isAncestor_root pindex)
    rw [hroot] at hparent
    cases hparent

theorem replayBlocks_recovers_sample :
    ∃ sent, starFiles.replayBlocks (fun _ => false)
        ⟨(rewardCoins 21).insert ⟨31, 0⟩ ⟨⟨1, []⟩, true, 1, 9⟩, none, some [52, 51]⟩ =
          .ok sent ∧
      SameUpToTime (CCoinsViewDB.writeBatches
        ⟨(rewardCoins 21).insert ⟨31, 0⟩ ⟨⟨1, []⟩, true, 1, 9⟩, none, some [52, 51]⟩ sent).coins
          (starCoins 52) := by
  have hold : ∀ o, some (51 : uint256) = some o → o ≠ 0 ∧ starFiles.count o = true ∧
      StoredChain starFiles sampleParams noCurve starCoins o := by
    intro o ho
    cases ho
    exact ⟨by decide, rfl, storedChain_star 21 (by decide) rfl (by decide) rfl⟩
  have hnew : StoredChain starFiles sampleParams noCurve starCoins 52 :=
    storedChain_star 31 (by decide) rfl (by decide) rfl
  have hflush : SameUpToTime ((starCoins 51).writeEntries starEntries) (starCoins 52) :=
    fun o => rfl
  obtain ⟨-, sent, hreplay, hcoins, -⟩ :=
    @replayBlocks_recovers starFiles sampleParams noCurve starCoins (some 51) 52 hold hnew
      (by decide) rfl ⟨starCoins 51, some 51, none⟩ (fun o => rfl) rfl rfl starEntries hflush
      (fun batch => batch.length == 3) _ rfl 1 (by decide) (by decide) _ .start (fun _ => false)
  exact ⟨sent, hreplay, hcoins⟩

end Verge
