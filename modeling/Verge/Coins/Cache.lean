import Verge.Coins.Coin

/-!
# `CCoinsViewCache`

The cache of `coins.cpp`, one layer at a time, and stacks of layers over a base
view.  Every call returns the state it leaves behind together with the
exception it threw, if any, because a throwing call has already changed the
cache.
-/

namespace Verge

open Foundation

structure CCoinsCacheEntry where
  coin : Coin
  dirty : Bool
  fresh : Bool
  deriving DecidableEq, Repr

namespace CCoinsCacheEntry

def empty : CCoinsCacheEntry := ⟨Coin.empty, false, false⟩

def unflagged (entry : CCoinsCacheEntry) : Bool := !entry.dirty && !entry.fresh

end CCoinsCacheEntry

abbrev CCoinsMap := AssocMap COutPoint CCoinsCacheEntry

/-- `cachedCoinsUsage` is a `size_t` in the source; as an integer an underflow
shows as a negative value. -/
structure CCoinsViewCache where
  cacheCoins : CCoinsMap
  hashBlock : uint256
  cachedCoinsUsage : Int

namespace CCoinsViewCache

def fresh : CCoinsViewCache := ⟨∅, 0, 0⟩

def fetchedEntry (coin : Coin) : CCoinsCacheEntry := ⟨coin, false, coin.isSpent⟩

/-- `FetchCoin` after a miss, given what the parent's `GetCoin` found. -/
def fetchMissing (cache : CCoinsViewCache) (outpoint : COutPoint) :
    Option Coin → Option CCoinsCacheEntry × CCoinsViewCache
  | none => (none, cache)
  | some coin =>
    (some (fetchedEntry coin),
      { cache with
        cacheCoins := cache.cacheCoins.insert outpoint (fetchedEntry coin)
        cachedCoinsUsage := cache.cachedCoinsUsage + coin.dynamicMemoryUsage })

def addCoin (cache : CCoinsViewCache) (outpoint : COutPoint) (coin : Coin)
    (possibleOverwrite : Bool) : CCoinsViewCache × Option Failure :=
  if coin.isSpent then (cache, some (.assertion "!coin.IsSpent()"))
  else if isUnspendable coin.out.scriptPubKey then (cache, none)
  else
    let found := cache.cacheCoins.lookup outpoint
    let entry := found.getD CCoinsCacheEntry.empty
    let usage := match found with
      | some e => cache.cachedCoinsUsage - e.coin.dynamicMemoryUsage
      | none => cache.cachedCoinsUsage
    if !possibleOverwrite && !entry.coin.isSpent then
      ({ cache with
          cacheCoins := cache.cacheCoins.insert outpoint entry
          cachedCoinsUsage := usage },
        some (.throws "Adding new coin that replaces non-pruned entry"))
    else
      let becomesFresh := !possibleOverwrite && !entry.dirty
      ({ cache with
          cacheCoins := cache.cacheCoins.insert outpoint
            ⟨coin, true, entry.fresh || becomesFresh⟩
          cachedCoinsUsage := usage + coin.dynamicMemoryUsage },
        none)

def spendEntry (cache : CCoinsViewCache) (outpoint : COutPoint)
    (entry : CCoinsCacheEntry) : CCoinsViewCache :=
  let usage := cache.cachedCoinsUsage - entry.coin.dynamicMemoryUsage
  if entry.fresh then
    { cache with
      cacheCoins := cache.cacheCoins.erase outpoint
      cachedCoinsUsage := usage }
  else
    { cache with
      cacheCoins := cache.cacheCoins.insert outpoint ⟨Coin.empty, true, entry.fresh⟩
      cachedCoinsUsage := usage }

def uncache (cache : CCoinsViewCache) (outpoint : COutPoint) : CCoinsViewCache :=
  match cache.cacheCoins.lookup outpoint with
  | some entry =>
    if entry.unflagged then
      { cache with
        cacheCoins := cache.cacheCoins.erase outpoint
        cachedCoinsUsage := cache.cachedCoinsUsage - entry.coin.dynamicMemoryUsage }
    else cache
  | none => cache

/-- One round of the loop in `BatchWrite`: the child's entry at `outpoint`. -/
def writeEntry (cache : CCoinsViewCache) (outpoint : COutPoint)
    (child : CCoinsCacheEntry) : Except Failure CCoinsViewCache :=
  if !child.dirty then .ok cache
  else
    match cache.cacheCoins.lookup outpoint with
    | none =>
      if child.fresh && child.coin.isSpent then .ok cache
      else .ok
        { cache with
          cacheCoins := cache.cacheCoins.insert outpoint ⟨child.coin, true, child.fresh⟩
          cachedCoinsUsage := cache.cachedCoinsUsage + child.coin.dynamicMemoryUsage }
    | some us =>
      if child.fresh && !us.coin.isSpent then
        .error (.throws "FRESH flag misapplied to cache entry for base transaction with spendable outputs")
      else if us.fresh && child.coin.isSpent then .ok
        { cache with
          cacheCoins := cache.cacheCoins.erase outpoint
          cachedCoinsUsage := cache.cachedCoinsUsage - us.coin.dynamicMemoryUsage }
      else .ok
        { cache with
          cacheCoins := cache.cacheCoins.insert outpoint ⟨child.coin, true, us.fresh⟩
          cachedCoinsUsage := cache.cachedCoinsUsage - us.coin.dynamicMemoryUsage +
            child.coin.dynamicMemoryUsage }

/-- The loop in `BatchWrite`.  It erases each child entry after writing it, so
a throw leaves the entries not yet reached in the child. -/
def writeEntries : CCoinsViewCache → List (Sigma fun _ : COutPoint => CCoinsCacheEntry) →
    CCoinsViewCache × List (Sigma fun _ : COutPoint => CCoinsCacheEntry) × Option Failure
  | cache, [] => (cache, [], none)
  | cache, e :: rest =>
    match cache.writeEntry e.1 e.2 with
    | .ok cache' => writeEntries cache' rest
    | .error failure => (cache, e :: rest, some failure)

def cleared (cache : CCoinsViewCache) : CCoinsViewCache :=
  { cache with cacheCoins := ∅, cachedCoinsUsage := 0 }

end CCoinsViewCache

/-- A `CCoinsView` at the bottom of a stack, such as `CCoinsViewDB`.  `GetCoin` may find an
entry that is itself spent; `BatchWrite` stores the dirty entries only. -/
structure BaseView (σ : Type) where
  getCoin : σ → COutPoint → Option Coin
  batchWrite : σ → CCoinsMap → uint256 → σ
  getCoin_batchWrite : ∀ s mapCoins hashBlock o,
    (getCoin (batchWrite s mapCoins hashBlock) o).bind Coin.live =
      match mapCoins.lookup o with
      | some entry =>
        if entry.dirty then entry.coin.live else (getCoin s o).bind Coin.live
      | none => (getCoin s o).bind Coin.live

namespace CacheStack

variable {σ : Type} (base : BaseView σ) (s : σ)

/-- `FetchCoin` of the top layer, given the parent's `GetCoin`. -/
def fetchThrough (parent : Option Coin × List CCoinsViewCache) (cache : CCoinsViewCache)
    (below : List CCoinsViewCache) (o : COutPoint) :
    Option CCoinsCacheEntry × List CCoinsViewCache :=
  match cache.cacheCoins.lookup o with
  | some entry => (some entry, cache :: below)
  | none =>
    let fetched := cache.fetchMissing o parent.1
    (fetched.1, fetched.2 :: parent.2)

def getCoin : List CCoinsViewCache → COutPoint → Option Coin × List CCoinsViewCache
  | [], o => (base.getCoin s o, [])
  | cache :: below, o =>
    let fetched := fetchThrough (getCoin below o) cache below o
    (fetched.1.bind fun entry => entry.coin.live, fetched.2)

def fetchCoin : List CCoinsViewCache → COutPoint →
    Option CCoinsCacheEntry × List CCoinsViewCache
  | [], _ => (none, [])
  | cache :: below, o => fetchThrough (getCoin base s below o) cache below o

def haveCoin (caches : List CCoinsViewCache) (o : COutPoint) :
    Bool × List CCoinsViewCache :=
  let fetched := fetchCoin base s caches o
  (fetched.1.any fun entry => !entry.coin.isSpent, fetched.2)

def accessCoin (caches : List CCoinsViewCache) (o : COutPoint) :
    Coin × List CCoinsViewCache :=
  let fetched := fetchCoin base s caches o
  ((fetched.1.map fun entry => entry.coin).getD Coin.empty, fetched.2)

def addCoin (caches : List CCoinsViewCache) (o : COutPoint) (coin : Coin)
    (possibleOverwrite : Bool) : List CCoinsViewCache × Option Failure :=
  match caches with
  | [] => ([], none)
  | cache :: below =>
    let added := cache.addCoin o coin possibleOverwrite
    (added.1 :: below, added.2)

/-- `SpendCoin` with `moveout`: the coin moved out, if the call returned true.
An entry that is spent already is found and moved out like any other. -/
def spendCoin (caches : List CCoinsViewCache) (o : COutPoint) :
    Option Coin × List CCoinsViewCache :=
  match fetchCoin base s caches o with
  | (some entry, cache :: below) =>
    (some entry.coin, cache.spendEntry o entry :: below)
  | (_, caches') => (none, caches')

def flush : List CCoinsViewCache → σ × List CCoinsViewCache × Option Failure
  | [] => (s, [], none)
  | [cache] => (base.batchWrite s cache.cacheCoins cache.hashBlock, [cache.cleared], none)
  | cache :: parent :: below =>
    match parent.writeEntries cache.cacheCoins.entries with
    | (parent', _, none) =>
      (s, cache.cleared :: { parent' with hashBlock := cache.hashBlock } :: below, none)
    | (parent', left, some failure) =>
      (s, { cache with cacheCoins := left.toAList } :: parent' :: below, some failure)

end CacheStack

end Verge
