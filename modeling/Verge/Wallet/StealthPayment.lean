import Verge.Stealth

/-!
# Stealth payments

`SendStealthMoneyToDestination` on the wallet of the sender and
`FindStealthTransactions` on that of the recipient.  Random draws, the answers of
coin selection and of the node are parameters of a run.
-/

namespace Verge

variable {G : Type} [AddCommGroup G] [DecidableEq G]

def MIN_COIN_FEE : Int := 100000

structure CRecipient where
  scriptPubKey : CScript
  nAmount : Int
  fSubtractFeeFromAmount : Bool
  deriving DecidableEq, Repr

/-- `CScriptVisitor` on a stealth address.  Where it gives up early the script is
left empty. -/
def getScriptForStealthAddress (c : StealthCurve G) (draws : List valtype)
    (stealthID : CStealthAddress) : CScript :=
  match c.generateRandomSecret draws with
  | none => []
  | some ephem_secret =>
    match c.stealthSecret ephem_secret stealthID.scan_pubkey stealthID.spend_pubkey with
    | none => []
    | some (_, pkSendTo) =>
      if CPubKey.validSize pkSendTo then OP_RETURN :: pushData pkSendTo else []

/-- The destination that `GetDestinationForKey` makes for the change: the id of a
key, or a new stealth address. -/
inductive ChangeDestination where
  | legacy (key : valtype)
  | stealth (draws : List valtype) (sxAddr : CStealthAddress)

def ChangeDestination.script (c : StealthCurve G) : ChangeDestination → CScript
  | .legacy key => getScriptForDestination (.keyID (c.hash160 key))
  | .stealth draws sxAddr => getScriptForStealthAddress c draws sxAddr

/-- The choices made and the answers given during a call on a sending wallet. -/
structure SendRun where
  nBalance : Int
  fLocked : Bool
  /-- What `RAND_bytes` returns for the ephemeral secret. -/
  draws : List valtype
  /-- What `RAND_bytes` returns while the script is made. -/
  scriptDraws : List valtype
  /-- Whether the shuffle of the two recipients swaps them. -/
  fSwap : Bool
  /-- Whether `CreateTransaction` succeeds, and the fee it left. -/
  fCreated : Bool
  nFeeRequired : Int
  /-- The position, value and destination of the change. -/
  change : Option (Fin 3 × Int × ChangeDestination)

inductive SendError where
  | text (sError : String)
  | requiresFee (nFeeRequired : Int)
  deriving DecidableEq, Repr

/-- The outputs that `CreateTransaction` makes for recipients that do not pay the
fee: theirs in order, and the change at its place. -/
def createOutputs (vecSend : List CRecipient) (change : Option (Nat × CTxOut)) : List CTxOut :=
  let vout := vecSend.map fun recipient => CTxOut.mk recipient.nAmount recipient.scriptPubKey
  match change with
  | none => vout
  | some (nChangePos, txout) => vout.insertIdx nChangePos txout

def createStealthTransaction (c : StealthCurve G) (run : SendRun) (scriptPubKey : CScript)
    (nAmount : Int) (P : valtype) : Option (List CTxOut) :=
  let first : CRecipient := ⟨scriptPubKey, nAmount, false⟩
  let second : CRecipient := ⟨OP_RETURN :: pushData P, MIN_COIN_FEE, false⟩
  let vecSend := if run.fSwap then [second, first] else [first, second]
  if run.fCreated then
    some (createOutputs vecSend (run.change.map fun (nChangePos, nChange, dest) =>
      (nChangePos.val, ⟨nChange, dest.script c⟩)))
  else none

/-- `SendStealthMoney`.  `CommitTransaction` returns true also where the node does
not take the transaction. -/
def sendStealthMoney (c : StealthCurve G) (run : SendRun) (scriptPubKey : CScript) (nValue : Int)
    (P : valtype) : Except SendError (List CTxOut) :=
  if run.fLocked then
    .error (.text "Error: Wallet locked, unable to create transaction  ")
  else
    match createStealthTransaction c run scriptPubKey nValue P with
    | none =>
      if run.nBalance < nValue + run.nFeeRequired then .error (.requiresFee run.nFeeRequired)
      else .error (.text "Error: Transaction creation failed  ")
    | some vout => .ok vout

/-- `SendStealthMoneyToDestination`: the outputs of the transaction that was
committed.  The key id `ckidTo` that it computes is not used. -/
def sendStealthMoneyToDestination (c : StealthCurve G) (run : SendRun)
    (sxAddress : CStealthAddress) (nValue : Int) : Except SendError (List CTxOut) :=
  if nValue ≤ 0 then .error (.text "Invalid amount")
  else if run.nBalance < nValue + MIN_COIN_FEE then .error (.text "Insufficient funds")
  else
    match c.generateRandomSecret run.draws with
    | none => .error (.text "GenerateRandomSecret failed.")
    | some ephem_secret =>
      match c.stealthSecret ephem_secret sxAddress.scan_pubkey sxAddress.spend_pubkey with
      | none => .error (.text "Could not generate receiving public key.")
      | some (_, pkSendTo) =>
        if !CPubKey.validSize pkSendTo then .error (.text "Invalid public key generated.")
        else
          match c.secretToPublicKey ephem_secret with
          | none => .error (.text "Could not generate ephem public key.")
          | some ephem_pubkey =>
            sendStealthMoney c run (getScriptForStealthAddress c run.scriptDraws sxAddress)
              nValue ephem_pubkey

/-- The stealth addresses of a wallet in the order of the set, and its keys: their
ids, with the secret unless the key came while the wallet was locked.  A spend secret
of 32 bytes is that of the address; importing and unlocking check it. -/
structure StealthWallet (c : StealthCurve G) where
  stealthAddresses : List CStealthAddress
  keys : List (valtype × Option Nat)
  fLocked : Bool
  spend_pubkey : ∀ it ∈ stealthAddresses, it.spend_secret.length = ec_secret_size →
    c.secretToPublicKey (bin2bn it.spend_secret) = some it.spend_pubkey

namespace StealthWallet

variable {c : StealthCurve G}

def haveKey (w : StealthWallet c) (address : valtype) : Bool :=
  w.keys.any fun key => key.1 == address

def addKey (w : StealthWallet c) (key : valtype × Option Nat) : StealthWallet c :=
  { w with keys := key :: w.keys }

/-- The body of the loop over the addresses: the key that is added on a match. -/
def matchAddress (w : StealthWallet c) (ephem ckidMatch : valtype) (it : CStealthAddress) :
    Option (valtype × Option Nat) :=
  if it.scan_secret.length ≠ ec_secret_size then none
  else
    match c.stealthSecret (bin2bn it.scan_secret) ephem it.spend_pubkey with
    | none => none
    | some (sShared, pkExtracted) =>
      if !CPubKey.validSize pkExtracted then none
      else if ckidMatch ≠ c.hash160 pkExtracted then none
      else if w.fLocked then some (c.hash160 pkExtracted, none)
      else if it.spend_secret.length ≠ ec_secret_size then none
      else
        match c.stealthSharedToSecretSpend sShared (bin2bn it.spend_secret) with
        | none => none
        | some sSpendR =>
          (c.secretToPublicKey sSpendR).map fun cpkT => (c.hash160 cpkT, some sSpendR)

def firstAddress (w : StealthWallet c) (ephem ckidMatch : valtype) :
    Option (CStealthAddress × (valtype × Option Nat)) :=
  w.stealthAddresses.findSome? fun it => (w.matchAddress ephem ckidMatch it).map (it, ·)

end StealthWallet

structure StealthMatch where
  nOutputId : Nat
  address : CStealthAddress
  deriving DecidableEq

/-- The first `GetOp` on an output gets an iterator into its script and the end of a copy of
that script: the bytes from the one to the other as the copy happens to lie in memory, and
the byte that is read where the script is empty. -/
structure ForeignEnd where
  distance : Int
  beyond : UInt8

-- An opcode that pushes data is not `OP_RETURN`, whatever `GetOp` makes of its data.
def stealthCode (copy : ForeignEnd) (scriptPubKey : CScript) : Option valtype :=
  if copy.distance < 1 then none
  else if scriptPubKey.headD copy.beyond ≠ OP_RETURN then none
  else
    match getScriptOp scriptPubKey.tail with
    | some (_, vectorPubKey, _) =>
      if vectorPubKey.length = ec_compressed_size then some vectorPubKey else none
    | none => none

namespace StealthWallet

variable {c : StealthCurve G}

/-- The loop over the outputs other than `nOutputIdOuter`, which publishes `ephem`. -/
def matchOutputs (w : StealthWallet c) (ephem : valtype) (nOutputIdOuter : Nat)
    (vout : List (CTxOut × Nat)) : Option (StealthMatch × (valtype × Option Nat)) :=
  vout.findSome? fun (txoutB, nOutputId) =>
    if nOutputId = nOutputIdOuter then none
    else
      match extractDestination c.hash160 txoutB.scriptPubKey with
      | some (.keyID ckidMatch) =>
        if w.haveKey ckidMatch then none
        else (w.firstAddress ephem ckidMatch).map fun found => (⟨nOutputId, found.1⟩, found.2)
      | _ => none

def scanOutput (copies : Nat → ForeignEnd) (vout : List CTxOut)
    (found : StealthWallet c × List StealthMatch) (txout : CTxOut × Nat) :
    StealthWallet c × List StealthMatch :=
  match stealthCode (copies txout.2) txout.1.scriptPubKey with
  | none => found
  | some ephem =>
    match found.1.matchOutputs ephem txout.2 vout.zipIdx with
    | none => found
    | some (hit, key) => (found.1.addKey key, found.2 ++ [hit])

/-- `FindStealthTransactions` but for narrations: the wallet afterwards and the
matches. -/
def findStealthTransactions (copies : Nat → ForeignEnd) (w : StealthWallet c)
    (vout : List CTxOut) : StealthWallet c × List StealthMatch :=
  vout.zipIdx.foldl (scanOutput copies vout) (w, [])

end StealthWallet

end Verge
