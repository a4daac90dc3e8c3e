import Verge.Foundation.AssocMap
import Verge.Primitives

/-!
# Coins and programs over a coins view

`Coin` of `coins.h`, the ways a call can end other than by returning, and the
programs that validation runs against a `CCoinsViewCache`.  A program only
touches the view through `HaveCoin`, `AccessCoin`, `AddCoin` and `SpendCoin`,
so it is kept as a tree of those calls and can be run both on a plain map and
on a stack of caches.
-/

namespace Verge

open Foundation

structure Coin where
  out : CTxOut
  fCoinBase : Bool
  nHeight : Nat
  nOriginTransactionTime : Nat
  deriving DecidableEq, Repr

namespace Coin

/-- `Coin::Clear`, also what the empty constructor leaves. -/
def empty : Coin := ⟨CTxOut.null, false, 0, 0⟩

def isSpent (coin : Coin) : Bool := coin.out.isNull

def isCoinBase (coin : Coin) : Bool := coin.fCoinBase

def live (coin : Coin) : Option Coin := if coin.isSpent then none else some coin

@[simp] theorem isSpent_empty : empty.isSpent = true := rfl

@[simp] theorem live_empty : empty.live = none := rfl

theorem live_eq_some {coin c : Coin} :
    coin.live = some c ↔ coin = c ∧ coin.isSpent = false := by
  unfold live
  cases h : coin.isSpent <;> simp

theorem live_eq_none {coin : Coin} : coin.live = none ↔ coin.isSpent = true := by
  unfold live
  cases h : coin.isSpent <;> simp

theorem live_of_not_spent {coin : Coin} (h : coin.isSpent = false) :
    coin.live = some coin := by
  simp [live, h]

theorem live_bind_live (coin : Coin) : coin.live.bind live = coin.live := by
  cases h : coin.live with
  | none => rfl
  | some c =>
    obtain ⟨rfl, hspent⟩ := live_eq_some.mp h
    exact live_of_not_spent hspent

def mallocUsage (alloc : Nat) : Nat :=
  if alloc = 0 then 0 else (alloc + 31) / 16 * 16

def dynamicMemoryUsage (coin : Coin) : Nat :=
  if coin.out.scriptPubKey.length ≤ 28 then 0
  else mallocUsage coin.out.scriptPubKey.length

end Coin

/-- How a call ends without returning: a failed `assert`, an exception, signed
overflow of an `int64_t`, a rejection recorded in the `CValidationState`, or an
`error(..)` that is reported by its message only. -/
inductive Failure where
  | assertion (expression : String)
  | throws (what : String)
  | overflow
  | invalid (nDoS : Nat) (strRejectReason : String)
  | error (message : String)
  deriving DecidableEq, Repr

/-- Spent entries answer like missing ones: `accessCoin` and `spendCoin` hand
on `none` for both. -/
inductive CoinsProg (α : Type) where
  | pure (a : α)
  | callHaveCoin (outpoint : COutPoint) (k : Bool → CoinsProg α)
  | callAccessCoin (outpoint : COutPoint) (k : Option Coin → CoinsProg α)
  | callAddCoin (outpoint : COutPoint) (coin : Coin) (possibleOverwrite : Bool)
      (k : Unit → CoinsProg α)
  | callSpendCoin (outpoint : COutPoint) (k : Option Coin → CoinsProg α)
  | fail (failure : Failure)

namespace CoinsProg

def bind {α β : Type} : CoinsProg α → (α → CoinsProg β) → CoinsProg β
  | pure a, f => f a
  | callHaveCoin o k, f => callHaveCoin o fun b => (k b).bind f
  | callAccessCoin o k, f => callAccessCoin o fun c => (k c).bind f
  | callAddCoin o coin w k, f => callAddCoin o coin w fun u => (k u).bind f
  | callSpendCoin o k, f => callSpendCoin o fun c => (k c).bind f
  | fail e, _ => fail e

instance : Monad CoinsProg where
  pure := pure
  bind := bind

def haveCoin (outpoint : COutPoint) : CoinsProg Bool := callHaveCoin outpoint pure

def accessCoin (outpoint : COutPoint) : CoinsProg (Option Coin) :=
  callAccessCoin outpoint pure

def addCoin (outpoint : COutPoint) (coin : Coin) (possibleOverwrite : Bool) :
    CoinsProg Unit :=
  callAddCoin outpoint coin possibleOverwrite pure

def spendCoin (outpoint : COutPoint) : CoinsProg (Option Coin) :=
  callSpendCoin outpoint pure

def require (condition : Bool) (failure : Failure) : CoinsProg Unit :=
  if condition then pure () else fail failure

def ofExcept {α : Type} : Except Failure α → CoinsProg α
  | .ok a => pure a
  | .error e => fail e

end CoinsProg

abbrev CoinsView := AssocMap COutPoint Coin

namespace CoinsView

def haveCoin (view : CoinsView) (outpoint : COutPoint) : Bool :=
  (view.lookup outpoint).isSome

/-- `AddCoin` on a plain map.  Replacing a coin without `possibleOverwrite`
breaks the contract of the call. -/
def addCoin (view : CoinsView) (outpoint : COutPoint) (coin : Coin)
    (possibleOverwrite : Bool) : Except Failure CoinsView :=
  if coin.isSpent then .error (.assertion "!coin.IsSpent()")
  else if isUnspendable coin.out.scriptPubKey then .ok view
  else if !possibleOverwrite && view.haveCoin outpoint then
    .error (.throws "Adding new coin that replaces non-pruned entry")
  else .ok (view.insert outpoint coin)

end CoinsView

namespace CoinsProg

variable {α β : Type}

def run : CoinsProg α → CoinsView → Except Failure (α × CoinsView)
  | pure a, view => .ok (a, view)
  | callHaveCoin o k, view => (k (view.haveCoin o)).run view
  | callAccessCoin o k, view => (k (view.lookup o)).run view
  | callAddCoin o coin w k, view =>
    match view.addCoin o coin w with
    | .ok view' => (k ()).run view'
    | .error e => .error e
  | callSpendCoin o k, view => (k (view.lookup o)).run (view.erase o)
  | fail e, _ => .error e

theorem run_bind (p : CoinsProg α) (f : α → CoinsProg β) (view : CoinsView) :
    (p >>= f).run view = p.run view >>= fun r => (f r.1).run r.2 := by
  change (p.bind f).run view = _
  induction p generalizing view with
  | pure a => rfl
  | callHaveCoin o k ih => exact ih _ _
  | callAccessCoin o k ih => exact ih _ _
  | callAddCoin o coin w k ih =>
    simp only [bind, run]
    cases view.addCoin o coin w with
    | ok view' => exact ih _ _
    | error e => rfl
  | callSpendCoin o k ih => exact ih _ _
  | fail e => rfl

theorem run_bind_of_ok {p : CoinsProg α} {f : α → CoinsProg β} {view view' : CoinsView}
    {a : α} (h : p.run view = .ok (a, view')) : (p >>= f).run view = (f a).run view' := by
  rw [run_bind, h]
  rfl

@[simp] theorem run_pure (a : α) (view : CoinsView) :
    (Pure.pure a : CoinsProg α).run view = .ok (a, view) := rfl

variable (o : COutPoint) (coin : Coin) (w : Bool) (view : CoinsView)

@[simp] theorem run_haveCoin : (haveCoin o).run view = .ok (view.haveCoin o, view) := rfl

@[simp] theorem run_accessCoin : (accessCoin o).run view = .ok (view.lookup o, view) := rfl

@[simp] theorem run_spendCoin : (spendCoin o).run view = .ok (view.lookup o, view.erase o) := rfl

theorem run_addCoin :
    (addCoin o coin w).run view = (view.addCoin o coin w).map fun view' => ((), view') := by
  simp only [addCoin, run]
  cases view.addCoin o coin w <;> rfl

end CoinsProg

def addCoinsFrom (tx : CTransaction) (nHeight : Nat) (check : Bool) :
    Nat → List CTxOut → CoinsProg Unit
  | _, [] => pure ()
  | i, out :: rest => do
    let overwrite ←
      if check then CoinsProg.haveCoin (tx.outpoint i) else pure tx.isCoinBase
    CoinsProg.addCoin (tx.outpoint i) ⟨out, tx.isCoinBase, nHeight, tx.nTime⟩ overwrite
    addCoinsFrom tx nHeight check (i + 1) rest

def addCoins (tx : CTransaction) (nHeight : Nat) (check : Bool) : CoinsProg Unit :=
  addCoinsFrom tx nHeight check 0 tx.vout

def haveInputsFrom : List CTxIn → CoinsProg Bool
  | [] => pure true
  | txin :: rest => do
    if ← CoinsProg.haveCoin txin.prevout then haveInputsFrom rest else pure false

def haveInputs (tx : CTransaction) : CoinsProg Bool :=
  if tx.isCoinBase then pure true else haveInputsFrom tx.vin

/-- `MAX_BLOCK_WEIGHT / MIN_TRANSACTION_OUTPUT_WEIGHT`: an empty output takes
nine bytes. -/
def MAX_OUTPUTS_PER_BLOCK : Nat := MAX_BLOCK_WEIGHT / (WITNESS_SCALE_FACTOR * 9)

/-- The loop of `AccessByTxid`, over the outputs `n`, `n + 1`, .. -/
def accessByTxidFrom (txid : uint256) : Nat → Nat → CoinsProg (Option Coin)
  | 0, _ => pure none
  | fuel + 1, n => do
    match ← CoinsProg.accessCoin ⟨txid, n⟩ with
    | some alternate => pure (some alternate)
    | none => accessByTxidFrom txid fuel (n + 1)

def accessByTxid (txid : uint256) : CoinsProg (Option Coin) :=
  accessByTxidFrom txid MAX_OUTPUTS_PER_BLOCK 0

end Verge
