import Verge.Wallet.SelectCoins
import Verge.Wallet.StealthPayment

/-!
# `CWallet::CreateTransaction`

The loop that selects inputs, adds the change and raises the fee until it suffices,
and the signing of the result.  One pass of the loop is a function of its state; what
the wallet answers about keys and sizes and what is drawn at random belongs to the
call.
-/

namespace Verge

open Foundation

/-- A call of `CreateTransaction` with `sign = true`, and all that it reads. -/
structure CreateCall where
  vecSend : List CRecipient
  nChangePosRequest : Int
  coin_control : CoinControl
  limits : SpendLimits
  /-- `AvailableCoins` visits every output of the wallet once. -/
  vAvailableCoins : List COutput
  nodup : (vAvailableCoins.map COutput.outpoint).Nodup
  mapWallet : WalletOutputs
  m_min_fee : CFeeRate
  /-- The script for the change, unless the key pool ran out. -/
  scriptChange : Option CScript
  /-- `CalculateMaximumSignedInputSize` of the change. -/
  change_spend_size : Int
  /-- `CalculateMaximumSignedTxSize`, from the inputs and the scripts of the outputs. -/
  maximumSignedTxSize : List COutPoint → List CScript → Int
  /-- `ProduceSignature`: the script and the witness of an input. -/
  produceSignature : CTransaction → Nat → CInputCoin → Option (CScript × List (List UInt8))
  nLockTime : Nat
  nTime : Nat
  nSequence : Nat
  doubleSha256 : List UInt8 → uint256
  /-- The ancestor limits, where `-walletrejectlongchains` asks for them. -/
  withinChainLimits : CTransaction → Bool
  /-- The draws of a pass: those of coin selection, and the place of the change. -/
  random : Nat → Nat → SelectRandom
  nRandomPos : Nat → Nat
  shuffle : CoinShuffle

namespace CreateCall

variable (call : CreateCall)

def requiredFeeRate : CFeeRate := CFeeRate.max call.m_min_fee minRelayTxFee

def nSubtractFeeFromAmount : Nat := call.vecSend.countP CRecipient.fSubtractFeeFromAmount

end CreateCall

def sumAmounts : List CRecipient → Int → Except Halt Int
  | [], nValue => .ok nValue
  | recipient :: vecSend, nValue =>
    if nValue < 0 ∨ recipient.nAmount < 0 then
      .error (.fails "Transaction amounts must not be negative")
    else sumAmounts vecSend (nValue + recipient.nAmount)

structure PassState where
  nFeeRet : Int
  pick_new_inputs : Bool
  setCoins : List CInputCoin
  nValueIn : Int
  use_bnb : Bool
  nPass : Nat

def recipientValue (nFeeRet : Int) (nSubtract : Nat) (fFirst : Bool) (recipient : CRecipient) :
    Int :=
  if recipient.fSubtractFeeFromAmount then
    let nValue := recipient.nAmount - nFeeRet.tdiv nSubtract
    if fFirst then nValue - nFeeRet.tmod nSubtract else nValue
  else recipient.nAmount

def dustReason (nFeeRet : Int) (recipient : CRecipient) (txout : CTxOut) : String :=
  if recipient.fSubtractFeeFromAmount ∧ 0 < nFeeRet then
    if txout.nValue < 0 then "The transaction amount is too small to pay the fee"
    else "The transaction amount is too small to send after the fee has been deducted"
  else "Transaction amount too small"

def payRecipients (nFeeRet : Int) (nSubtract : Nat) :
    Bool → List CRecipient → Except Halt (List CTxOut)
  | _, [] => .ok []
  | fFirst, recipient :: vecSend =>
    let txout : CTxOut :=
      ⟨recipientValue nFeeRet nSubtract fFirst recipient, recipient.scriptPubKey⟩
    if isDust txout dustRelayFee then .error (.fails (dustReason nFeeRet recipient txout))
    else
      match payRecipients nFeeRet nSubtract (fFirst && !recipient.fSubtractFeeFromAmount)
          vecSend with
      | .error halt => .error halt
      | .ok vout => .ok (txout :: vout)

def selectionParams (call : CreateCall) (scriptChange : CScript) (use_bnb : Bool)
    (payees : List CTxOut) : CoinSelectionParams where
  use_bnb := use_bnb
  change_output_size := (CTxOut.mk 0 scriptChange).serialize.length
  change_spend_size := call.change_spend_size
  effective_fee := call.requiredFeeRate
  tx_noinputs_size := 11 + (payees.map fun txout => txout.serialize.length).sum

def pickInputs (call : CreateCall) (scriptChange : CScript) (s : PassState) (nValueToSelect : Int)
    (payees : List CTxOut) : Except Halt SelectOutcome :=
  if s.pick_new_inputs then
    selectCoins (call.random s.nPass) call.requiredFeeRate call.mapWallet call.coin_control
      call.limits call.vAvailableCoins nValueToSelect
      (selectionParams call scriptChange s.use_bnb payees)
  else .ok (.selected ⟨s.setCoins, s.nValueIn⟩)

structure Filled where
  vout : List CTxOut
  nChangePos : Option Nat
  nFeeRet : Int

def insertChange (call : CreateCall) (scriptChange : CScript) (nPass : Nat) (nFeeRet : Int)
    (payees : List CTxOut) (nChange : Int) : Except Halt Filled :=
  if 0 < nChange then
    let newTxOut : CTxOut := ⟨nChange, scriptChange⟩
    if isDust newTxOut dustRelayFee then .ok ⟨payees, none, nFeeRet + nChange⟩
    else if call.nChangePosRequest = -1 then
      let nChangePos := call.nRandomPos nPass % (payees.length + 1)
      .ok ⟨payees.insertIdx nChangePos newTxOut, some nChangePos, nFeeRet⟩
    else if call.nChangePosRequest < 0 ∨ (payees.length : Int) < call.nChangePosRequest then
      .error (.fails "Change index out of range")
    else
      .ok ⟨payees.insertIdx call.nChangePosRequest.toNat newTxOut,
        some call.nChangePosRequest.toNat, nFeeRet⟩
  else .ok ⟨payees, none, nFeeRet⟩

structure Draft where
  setCoins : List CInputCoin
  vout : List CTxOut
  nChangePos : Option Nat
  nFeeRet : Int

def addToOutput (vout : List CTxOut) (n : Nat) (nDelta : Int) : List CTxOut :=
  vout.modify n fun txout => { txout with nValue := txout.nValue + nDelta }

def settleFee (call : CreateCall) (scriptChange : CScript) (s : PassState) (filled : Filled)
    (nBytes : Nat) : Pass PassState (Except Halt Draft) :=
  let nFeeNeeded := call.requiredFeeRate.getFee nBytes
  let leave (vout : List CTxOut) (nFeeRet : Int) : Pass PassState (Except Halt Draft) :=
    .done (.ok ⟨s.setCoins, vout, filled.nChangePos, nFeeRet⟩)
  if nFeeNeeded < minRelayTxFee.getFee nBytes then
    .done (.error (.fails "Transaction too large for fee policy"))
  else if nFeeNeeded ≤ filled.nFeeRet then
    let tx_size_with_change := nBytes + (CTxOut.mk 0 scriptChange).serialize.length + 2
    let fee_needed_with_change := call.requiredFeeRate.getFee tx_size_with_change
    let minimum_value_for_change := getDustThreshold ⟨0, scriptChange⟩ dustRelayFee
    match filled.nChangePos with
    | none =>
      -- enough is left over for a change output, without new inputs
      if call.nSubtractFeeFromAmount = 0 ∧ s.pick_new_inputs ∧
          fee_needed_with_change + minimum_value_for_change ≤ filled.nFeeRet then
        .next { s with pick_new_inputs := false, nFeeRet := fee_needed_with_change }
      else leave filled.vout filled.nFeeRet
    | some nChangePos =>
      if nFeeNeeded < filled.nFeeRet ∧ call.nSubtractFeeFromAmount = 0 then
        leave (addToOutput filled.vout nChangePos (filled.nFeeRet - nFeeNeeded)) nFeeNeeded
      else leave filled.vout filled.nFeeRet
  else if !s.pick_new_inputs then
    .done (.error (.fails "Transaction fee and change calculation failed"))
  else
    let additionalFeeNeeded := nFeeNeeded - filled.nFeeRet
    let again : Pass PassState (Except Halt Draft) :=
      .next { s with
        pick_new_inputs := decide (call.nSubtractFeeFromAmount = 0)
        nFeeRet := nFeeNeeded
        use_bnb := false }
    match filled.nChangePos with
    | none => again
    | some nChangePos =>
      -- the change is reduced where enough of it remains
      match filled.vout[nChangePos]? with
      | none => again
      | some change =>
        if call.nSubtractFeeFromAmount = 0 ∧
            MIN_FINAL_CHANGE + additionalFeeNeeded ≤ change.nValue then
          leave (addToOutput filled.vout nChangePos (-additionalFeeNeeded))
            (filled.nFeeRet + additionalFeeNeeded)
        else again

def createPass (call : CreateCall) (scriptChange : CScript) (nValue : Int) (s : PassState) :
    Pass PassState (Except Halt Draft) :=
  let nValueToSelect := if call.nSubtractFeeFromAmount = 0 then nValue + s.nFeeRet else nValue
  match payRecipients s.nFeeRet call.nSubtractFeeFromAmount true call.vecSend with
  | .error halt => .done (.error halt)
  | .ok payees =>
    match pickInputs call scriptChange s nValueToSelect payees with
    | .error halt => .done (.error halt)
    | .ok (.insufficient true) => .next { s with use_bnb := false, nPass := s.nPass + 1 }
    | .ok (.insufficient false) => .done (.error (.fails "Insufficient funds"))
    | .ok (.selected selection) =>
      match insertChange call scriptChange s.nPass s.nFeeRet payees
          (selection.nValueRet - nValueToSelect) with
      | .error halt => .done (.error halt)
      | .ok filled =>
        let nBytes := call.maximumSignedTxSize (selection.coins.map CInputCoin.outpoint)
          (filled.vout.map CTxOut.scriptPubKey)
        if nBytes < 0 then .done (.error (.fails "Signing transaction failed"))
        else
          settleFee call scriptChange
            { s with
              setCoins := selection.coins
              nValueIn := selection.nValueRet
              nPass := s.nPass + 1 } filled nBytes.toNat

structure Created where
  tx : CTransaction
  nFeeRet : Int
  nChangePos : Option Nat
  selected_coins : List CInputCoin
  deriving DecidableEq

def unsignedTx (call : CreateCall) (coins : List CInputCoin) (vout : List CTxOut) : CTransaction where
  vin := coins.map fun coin => ⟨coin.outpoint, [], call.nSequence, []⟩
  vout := vout
  nVersion := 1
  nTime := call.nTime
  nLockTime := call.nLockTime
  hash := 0

def updateInput (tx : CTransaction) (nIn : Nat) (scriptSig : CScript)
    (scriptWitness : List (List UInt8)) : CTransaction :=
  { tx with vin := tx.vin.modify nIn fun txin => { txin with scriptSig, scriptWitness } }

def signInputs (call : CreateCall) : Nat → List CInputCoin → CTransaction → Option CTransaction
  | _, [], tx => some tx
  | nIn, coin :: coins, tx =>
    match call.produceSignature tx nIn coin with
    | none => none
    | some (scriptSig, scriptWitness) =>
      signInputs call (nIn + 1) coins (updateInput tx nIn scriptSig scriptWitness)

def finishTransaction (call : CreateCall) (draft : Draft) : Except Halt Created :=
  let selected_coins := call.shuffle.shuffle draft.setCoins
  match signInputs call 0 selected_coins (unsignedTx call selected_coins draft.vout) with
  | none => .error (.fails "Signing transaction failed")
  | some txNew =>
    let tx := { txNew with hash := call.doubleSha256 txNew.serialize }
    if MAX_STANDARD_TX_WEIGHT ≤ getTransactionWeight tx then
      .error (.fails "Transaction too large")
    else if call.limits.fRejectLongChains && !call.withinChainLimits tx then
      .error (.fails "Transaction has too long of a mempool chain")
    else .ok ⟨tx, draft.nFeeRet, draft.nChangePos, selected_coins⟩

def CreateCall.start (call : CreateCall) : PassState :=
  ⟨0, true, [], 0, decide (call.nSubtractFeeFromAmount = 0), 0⟩

def createTransaction (call : CreateCall) (fuel : Nat) : Option (Except Halt Created) :=
  match sumAmounts call.vecSend 0 with
  | .error halt => some (.error halt)
  | .ok nValue =>
    if call.vecSend.isEmpty then
      some (.error (.fails "Transaction must have at least one recipient"))
    else
      match call.scriptChange with
      | none =>
        some (.error (.fails "Keypool ran out, please call keypoolrefill first"))
      | some scriptChange =>
        (whileLoop (createPass call scriptChange nValue) fuel call.start).map fun result =>
          result.bind (finishTransaction call)

end Verge
