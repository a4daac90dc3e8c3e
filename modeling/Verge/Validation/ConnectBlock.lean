import Verge.TxVerify
import Verge.Undo

/-!
# `CheckBlock` and `ConnectBlock`

The parts of `validation.cpp` that decide what a block does to the coins view.
Proof of work, merkle roots, signatures, scripts and lock times are left open:
`BlockRules` stands for whatever those checks answer.
-/

namespace Verge

open Foundation

structure ConsensusParams where
  hashGenesisBlock : uint256
  nSubsidyHalvingInterval : Int
  BIP34Height : Int

/-- The answers of the checks that are not modelled.  A header check that fails
gives its DoS score and reject reason. -/
structure BlockRules where
  checkHeader : CBlock → Option (Nat × String)
  maxClockDrift : Nat
  legacySigOpCount : CTransaction → Nat
  checkBlockSignature : CBlock → Bool
  sequenceLocks : CTransaction → List Nat → Bool
  transactionSigOpCost : CTransaction → List (Option Coin) → Nat
  checkInputs : CTransaction → List (Option Coin) → Option (Nat × String)
  controlWait : Bool

def getBlockSubsidy (nHeight : Int) (consensusParams : ConsensusParams) : Int :=
  if nHeight < 14001 ∧ nHeight > 0 then 200000 * COIN
  else if nHeight < 28001 ∧ nHeight > 14000 then 100000 * COIN
  else if nHeight < 42001 ∧ nHeight > 28000 then 50000 * COIN
  else if nHeight < 210001 ∧ nHeight > 42000 then 25000 * COIN
  else if nHeight < 378001 ∧ nHeight > 210000 then 12500 * COIN
  else if nHeight < 546001 ∧ nHeight > 378000 then 6250 * COIN
  else if nHeight < 714001 ∧ nHeight > 546000 then 3125 * COIN
  else if nHeight < 2124001 ∧ nHeight > 714000 then 1560 * COIN
  else if nHeight < 3700001 ∧ nHeight > 2124000 then 730 * COIN
  else
    let lastIrregularBlock := 3700001
    let newSubsidyHeight := nHeight - lastIrregularBlock
    let initialHalvingRewards := 400 * COIN
    let halvingCount := newSubsidyHeight.tdiv consensusParams.nSubsidyHalvingInterval
    -- the count is negative up to height 0; the machine shifts by the count modulo 64
    if halvingCount < 7 then initialHalvingRewards >>> (halvingCount % 64).toNat else 0

def CBlock.serializeSize (block : CBlock) : Nat :=
  80 + (compactSizeLength block.vtx.length + (block.vtx.map CTransaction.serializeSize).sum) +
    (compactSizeLength block.vchBlockSig.length + block.vchBlockSig.length)

def ensureAccepted : Option (Nat × String) → Except Failure Unit
  | none => .ok ()
  | some (nDoS, reason) => .error (.invalid nDoS reason)

def checkTransactions (nBlockTime : Nat) : List CTransaction → Except Failure Unit
  | [] => .ok ()
  | tx :: rest => do
    checkTransaction tx true
    ensure (tx.nTime ≤ nBlockTime) (.invalid 50 "transaction-time-too-new")
    checkTransactions nBlockTime rest

/-- `CheckBlock` with all its checks switched on.  A block that passed once
carries `fChecked` and is not looked at again. -/
def checkBlock (rules : BlockRules) (block : CBlock) : Except Failure Unit :=
  if block.fChecked then .ok ()
  else do
    ensureAccepted (rules.checkHeader block)
    ensure (!block.vtx.isEmpty &&
        decide (block.vtx.length * WITNESS_SCALE_FACTOR ≤ MAX_BLOCK_WEIGHT) &&
        decide (block.serializeSize * WITNESS_SCALE_FACTOR ≤ MAX_BLOCK_WEIGHT))
      (.invalid 100 "bad-blk-length")
    ensure ((block.vtx.head?).any CTransaction.isCoinBase) (.invalid 100 "bad-cb-missing")
    ensure (block.vtx.tail.all fun tx => !tx.isCoinBase) (.invalid 100 "bad-cb-multiple")
    ensure ((block.vtx.head?).any fun tx => decide (block.nTime ≤ tx.nTime + rules.maxClockDrift))
      (.invalid 50 "transaction-time-too-new")
    checkTransactions block.nTime block.vtx
    ensure (decide ((block.vtx.map rules.legacySigOpCount).sum * WITNESS_SCALE_FACTOR ≤
        MAX_BLOCK_SIGOPS_COST)) (.invalid 100 "bad-blk-sigops")
    ensure (rules.checkBlockSignature block) (.invalid 100 "bad-blk-signature")

def spendInputs : List CTxIn → CoinsProg (List Coin)
  | [] => pure []
  | txin :: rest => do
    match ← CoinsProg.spendCoin txin.prevout with
    | none => CoinsProg.fail (.assertion "is_spent")
    | some coin => do
      let coins ← spendInputs rest
      return coin :: coins

def spentInputs (tx : CTransaction) : List CTxIn := if tx.isCoinBase then [] else tx.vin

def updateCoins (tx : CTransaction) (nHeight : Nat) : CoinsProg CTxUndo := do
  let vprevout ← spendInputs (spentInputs tx)
  addCoins tx nHeight false
  return ⟨vprevout⟩

def BIP34_IMPLIES_BIP30_LIMIT : Nat := 1983702

/-- Whether the explicit BIP30 lookup is made.  `pprev->GetAncestor(BIP34Height)`
exists when that height is between 0 and the height of the parent. -/
def bip30Checked (consensusParams : ConsensusParams) (block : CBlock) (nHeight : Nat) : Bool :=
  let fEnforceBIP30 := !(
    (nHeight == 91842 &&
      block.hash == 0x00000000000a4d0a398161ffc163c503763b1f4360639393e0e4c8e300e0caec#256) ||
    (nHeight == 91880 &&
      block.hash == 0x00000000000743f190a18c5577a3c2d2a1f610ae9601ac046a38084ccb7cd721#256))
  let pindexBIP34height :=
    decide (0 ≤ consensusParams.BIP34Height ∧ consensusParams.BIP34Height ≤ (nHeight : Int) - 1)
  (fEnforceBIP30 && !pindexBIP34height) || decide (BIP34_IMPLIES_BIP30_LIMIT ≤ nHeight)

def checkNotOverwriting (tx : CTransaction) : Nat → List CTxOut → CoinsProg Unit
  | _, [] => pure ()
  | o, _ :: rest => do
    let present ← CoinsProg.haveCoin (tx.outpoint o)
    CoinsProg.require (!present) (.invalid 100 "bad-txns-BIP30")
    checkNotOverwriting tx (o + 1) rest

def checkBIP30 : List CTransaction → CoinsProg Unit
  | [] => pure ()
  | tx :: rest => do
    checkNotOverwriting tx 0 tx.vout
    checkBIP30 rest

def checkOverwrites (consensusParams : ConsensusParams) (block : CBlock) (nHeight : Nat) :
    CoinsProg Unit :=
  if bip30Checked consensusParams block nHeight then checkBIP30 block.vtx else pure ()

def accessInputs : List CTxIn → CoinsProg (List (Option Coin))
  | [] => pure []
  | txin :: rest => do
    let coin ← CoinsProg.accessCoin txin.prevout
    let coins ← accessInputs rest
    return coin :: coins

/-- The checks on a transaction that is not a coinbase, from its inputs to its
lock times; they return the fees so far. -/
def checkSpending (rules : BlockRules) (nHeight : Nat) (tx : CTransaction) (nFees : Int) :
    CoinsProg Int := do
  let txfee ← checkTxInputs tx nHeight
  let nFees' ← CoinsProg.ofExcept (addInt64 nFees txfee)
  CoinsProg.require (moneyRange nFees') (.invalid 100 "bad-txns-accumulated-fee-outofrange")
  let coins ← accessInputs tx.vin
  let prevheights := coins.map fun coin => (coin.map Coin.nHeight).getD 0
  CoinsProg.require (rules.sequenceLocks tx prevheights) (.invalid 100 "bad-txns-nonfinal")
  return nFees'

def checkFees (rules : BlockRules) (nHeight : Nat) (tx : CTransaction) (nFees : Int) :
    CoinsProg Int :=
  if tx.isCoinBase then pure nFees else checkSpending rules nHeight tx nFees

/-- `CheckInputs`, which a coinbase does not go through. -/
def checkScripts (rules : BlockRules) (tx : CTransaction) (coins : List (Option Coin)) :
    Except Failure Unit :=
  if tx.isCoinBase then .ok () else ensureAccepted (rules.checkInputs tx coins)

/-- Everything `ConnectBlock` checks about one transaction; returns the fees and
the signature operations so far. -/
def checkTx (rules : BlockRules) (nHeight : Nat) (tx : CTransaction) (nFees : Int)
    (nSigOpsCost : Nat) : CoinsProg (Int × Nat) := do
  let nFees' ← checkFees rules nHeight tx nFees
  let coins ← accessInputs (spentInputs tx)
  let nSigOpsCost' := nSigOpsCost + rules.transactionSigOpCost tx coins
  CoinsProg.require (nSigOpsCost' ≤ MAX_BLOCK_SIGOPS_COST) (.invalid 100 "bad-blk-sigops")
  CoinsProg.ofExcept (checkScripts rules tx coins)
  return (nFees', nSigOpsCost')

/-- The loop over the transactions from index `i` on; it returns the undo data of
all but the first transaction, and the fees. -/
def connectTxs (rules : BlockRules) (nHeight : Nat) :
    Nat → List CTransaction → Int → Nat → CoinsProg (List CTxUndo × Int)
  | _, [], nFees, _ => pure ([], nFees)
  | i, tx :: rest, nFees, nSigOpsCost => do
    let (nFees', nSigOpsCost') ← checkTx rules nHeight tx nFees nSigOpsCost
    let txundo ← updateCoins tx nHeight
    let (vtxundo, nFees'') ← connectTxs rules nHeight (i + 1) rest nFees' nSigOpsCost'
    return (if 0 < i then txundo :: vtxundo else vtxundo, nFees'')

/-- `ConnectBlock` on a block that is not the genesis block. -/
def connectTransactions (consensusParams : ConsensusParams) (rules : BlockRules)
    (block : CBlock) (nHeight : Nat) : CoinsProg CBlockUndo := do
  CoinsProg.require (0 < nHeight) (.assertion "pindex->pprev")
  checkOverwrites consensusParams block nHeight
  let (vtxundo, nFees) ← connectTxs rules nHeight 0 block.vtx 0 0
  let blockReward ←
    CoinsProg.ofExcept (addInt64 nFees (getBlockSubsidy nHeight consensusParams))
  match block.vtx with
  | [] => CoinsProg.fail (.assertion "block.vtx[0]")
  | coinbase :: _ => do
    let valueOut ← CoinsProg.ofExcept (getValueOut coinbase)
    CoinsProg.require (valueOut ≤ blockReward) (.invalid 100 "bad-cb-amount")
    CoinsProg.require rules.controlWait (.invalid 100 "block-validation-failed")
    return ⟨vtxundo⟩

def connectBlock (consensusParams : ConsensusParams) (rules : BlockRules)
    (block : CBlock) (nHeight : Nat) : CoinsProg CBlockUndo := do
  CoinsProg.ofExcept (checkBlock rules block)
  if block.hash = consensusParams.hashGenesisBlock then return ⟨[]⟩
  else connectTransactions consensusParams rules block nHeight

inductive DisconnectResult where
  | ok
  | unclean
  | failed
  deriving DecidableEq, Repr

def restoreMetadata (undo : Coin) (out : COutPoint) : CoinsProg (Option Coin) :=
  if undo.nHeight = 0 then do
    match ← accessByTxid out.hash with
    | some alternate =>
      return some { undo with nHeight := alternate.nHeight, fCoinBase := alternate.fCoinBase }
    | none => return none
  else pure (some undo)

def applyTxInUndo (undo : Coin) (out : COutPoint) : CoinsProg DisconnectResult := do
  let present ← CoinsProg.haveCoin out
  match ← restoreMetadata undo out with
  | none => return .failed
  | some coin => do
    CoinsProg.addCoin out coin present
    return if present then .unclean else .ok

/-- Spend one output and report whether it was there as the block created it. -/
def disconnectOutput (tx : CTransaction) (nHeight o : Nat) (txout : CTxOut) : CoinsProg Bool :=
  if isUnspendable txout.scriptPubKey then pure true
  else do
    match ← CoinsProg.spendCoin (tx.outpoint o) with
    | none => return false
    | some coin =>
      return txout == coin.out && nHeight == coin.nHeight && tx.isCoinBase == coin.fCoinBase

def disconnectOutputs (tx : CTransaction) (nHeight : Nat) : Nat → List CTxOut → CoinsProg Bool
  | _, [] => pure true
  | o, txout :: rest => do
    let clean ← disconnectOutput tx nHeight o txout
    let restClean ← disconnectOutputs tx nHeight (o + 1) rest
    return clean && restClean

def restoreInputs : List (CTxIn × Coin) → CoinsProg DisconnectResult
  | [] => pure .ok
  | (txin, undo) :: rest => do
    match ← applyTxInUndo undo txin.prevout with
    | .failed => return .failed
    | res => do
      match ← restoreInputs rest with
      | .failed => return .failed
      | .unclean => return .unclean
      | .ok => return res

def disconnectTx (nHeight : Nat) (tx : CTransaction) (txundo : Option CTxUndo) :
    CoinsProg DisconnectResult := do
  let clean ← disconnectOutputs tx nHeight 0 tx.vout
  let outputs := if clean then DisconnectResult.ok else .unclean
  match txundo with
  | none => return outputs
  | some txundo =>
    if txundo.vprevout.length ≠ tx.vin.length then return .failed
    else do
      match ← restoreInputs (tx.vin.zip txundo.vprevout).reverse with
      | .ok => return outputs
      | res => return res

def disconnectTxs (nHeight : Nat) :
    List (CTransaction × Option CTxUndo) → CoinsProg DisconnectResult
  | [] => pure .ok
  | (tx, txundo) :: rest => do
    match ← disconnectTx nHeight tx txundo with
    | .failed => return .failed
    | res => do
      match ← disconnectTxs nHeight rest with
      | .ok => return res
      | res' => return res'

def disconnectBlock (block : CBlock) (nHeight : Nat) (blockUndo : Option CBlockUndo) :
    CoinsProg DisconnectResult :=
  match blockUndo with
  | none => pure .failed
  | some blockUndo =>
    if blockUndo.vtxundo.length + 1 ≠ block.vtx.length then pure .failed
    else disconnectTxs nHeight
      (block.vtx.zip (none :: blockUndo.vtxundo.map some)).reverse

end Verge
