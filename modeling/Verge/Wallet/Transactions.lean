import Mathlib.Data.List.Lex
import Verge.Foundation.AssocMap
import Verge.Foundation.Worklist
import Verge.Primitives

/-!
# The transactions of a wallet

`CWallet::mapWallet` and `mapTxSpends` as `AbandonTransaction` reads and writes them.
Whether a transaction is confirmed, conflicted or unconfirmed is not stored:
`GetDepthInMainChain` works it out from the remembered `hashBlock` and `nIndex` and the
active chain.

A wallet transaction carries the amounts that the balance queries remember until it is
marked dirty.  Its other metadata (times, order, comments) is not modelled.
-/

namespace Verge

open Foundation

def ABANDON_HASH : uint256 := 1

inductive AmountSlot where
  | nDebitCached
  | nWatchDebitCached
  | nAvailableCreditCached
  | nAvailableWatchCreditCached
  deriving DecidableEq

/-- The cached amounts that the balances read, `none` while the flag beside the amount
is false. -/
abbrev CachedAmounts := AmountSlot → Option Int

def CachedAmounts.none : CachedAmounts := fun _ => .none

structure CWalletTx where
  tx : CTransaction
  hashBlock : uint256
  nIndex : Int
  fInMempool : Bool
  cached : CachedAmounts

namespace CWalletTx

def ofTx (tx : CTransaction) : CWalletTx := ⟨tx, 0, -1, false, .none⟩

def markDirty (wtx : CWalletTx) : CWalletTx := { wtx with cached := .none }

def hashUnset (wtx : CWalletTx) : Bool := wtx.hashBlock == 0 || wtx.hashBlock == ABANDON_HASH

def isAbandoned (wtx : CWalletTx) : Bool := wtx.hashBlock == ABANDON_HASH

def setAbandoned (wtx : CWalletTx) : CWalletTx := { wtx with hashBlock := ABANDON_HASH }

end CWalletTx

/-- `chainActive.Height() - pindex->nHeight`, if the active chain, here its blocks from the
tip down, contains the block. -/
def blocksBelowTip (chainActive : List CBlock) (hashBlock : uint256) : Option Nat :=
  chainActive.findIdx? fun block => block.hash == hashBlock

def getDepthInMainChain (chainActive : List CBlock) (wtx : CWalletTx) : Int :=
  if wtx.hashUnset then 0
  else
    match blocksBelowTip chainActive wtx.hashBlock with
    | none => 0
    | some below => (if wtx.nIndex == -1 then -1 else 1) * (below + 1)

structure CWallet where
  mapWallet : AssocMap uint256 CWalletTx
  mapTxSpends : List (COutPoint × uint256)

inductive WalletHalt where
  | assertion
  deriving DecidableEq

/-- The outpoints a transaction spends.  A coinbase has an input, but spends nothing. -/
def CTransaction.spentBy (tx : CTransaction) : List COutPoint :=
  if tx.isCoinBase then [] else tx.vin.map CTxIn.prevout

namespace CWallet

def spenders (wallet : CWallet) (outpoint : COutPoint) : List uint256 :=
  (wallet.mapTxSpends.filter fun spend => spend.1 = outpoint).map Prod.snd

/-- The walk from `mapTxSpends.lower_bound(COutPoint(hash, 0))` while the outpoint is one
of `hash`. -/
def children (wallet : CWallet) (hash : uint256) : List uint256 :=
  (wallet.mapTxSpends.filter fun spend => spend.1.hash = hash).map Prod.snd

def isSpent (wallet : CWallet) (chainActive : List CBlock) (outpoint : COutPoint) : Bool :=
  (wallet.spenders outpoint).any fun wtxid =>
    match wallet.mapWallet.lookup wtxid with
    | none => false
    | some wtx =>
      let depth := getDepthInMainChain chainActive wtx
      decide (0 < depth) || (depth == 0 && !wtx.isAbandoned)

def markDirtyAt (mapWallet : AssocMap uint256 CWalletTx) (hash : uint256) :
    AssocMap uint256 CWalletTx :=
  match mapWallet.lookup hash with
  | none => mapWallet
  | some wtx => mapWallet.insert hash wtx.markDirty

def markInputsDirty (mapWallet : AssocMap uint256 CWalletTx) (vin : List CTxIn) :
    AssocMap uint256 CWalletTx :=
  vin.foldl (fun mapWallet txin => markDirtyAt mapWallet txin.prevout.hash) mapWallet

/-- The order of `std::set<uint256>`: `memcmp` of the bytes, the lowest one first. -/
def hashBytes (hash : uint256) : List Nat :=
  (List.range 32).map fun i => hash.toNat / 256 ^ i % 256

def hashLE (a b : uint256) : Prop := hashBytes a ≤ hashBytes b

instance : DecidableRel hashLE := fun a b => inferInstanceAs (Decidable (hashBytes a ≤ hashBytes b))

end CWallet

end Verge
