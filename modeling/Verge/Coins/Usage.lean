import Mathlib.Algebra.Order.BigOperators.Group.List
import Verge.Coins.Cache
import Verge.Foundation.Runs

/-!
# The memory a cache accounts for

`cachedCoinsUsage` is adjusted beside every change of `cacheCoins`.  It is the memory
of the coins held, after any run of calls, unless `AddCoin` throws over a coin that
owns memory or a `Flush` is left by an exception of its parent.
-/

namespace Verge.CCoinsViewCache

open Foundation AssocMap List

/-- A call on one cache.  `found` is what the parent's `GetCoin` answers if it is asked;
a `Flush` whose parent throws has had the entries taken from it that are not `left`. -/
inductive Operation where
  | fetchCoin (o : COutPoint) (found : Option Coin)
  | addCoin (o : COutPoint) (coin : Coin) (possibleOverwrite : Bool)
  | spendCoin (o : COutPoint) (found : Option Coin)
  | setBestBlock (hashBlock : uint256)
  | batchWrite (mapCoins : CCoinsMap) (hashBlock : uint256)
  | flush
  | flushThrows (left : COutPoint → Bool)
  | uncache (o : COutPoint)

def fetch (cache : CCoinsViewCache) (o : COutPoint) (found : Option Coin) :
    Option CCoinsCacheEntry × CCoinsViewCache :=
  match cache.cacheCoins.lookup o with
  | some entry => (some entry, cache)
  | none => cache.fetchMissing o found

/-- What `BatchWrite` leaves of a map, from which it erases each entry it is done with. -/
def leaveEntries (mapCoins : CCoinsMap) (left : COutPoint → Bool) : CCoinsMap where
  entries := mapCoins.entries.filter fun e => left e.1
  nodupKeys := mapCoins.nodupKeys.sublist filter_sublist

def perform (cache : CCoinsViewCache) : Operation → CCoinsViewCache
  | .fetchCoin o found => (cache.fetch o found).2
  | .addCoin o coin possibleOverwrite => (cache.addCoin o coin possibleOverwrite).1
  | .spendCoin o found =>
    match cache.fetch o found with
    | (some entry, cache') => cache'.spendEntry o entry
    | (none, cache') => cache'
  | .setBestBlock hashBlock => { cache with hashBlock }
  | .batchWrite mapCoins hashBlock =>
    match cache.writeEntries mapCoins.entries with
    | (cache', _, none) => { cache' with hashBlock }
    | (cache', _, some _) => cache'
  | .flush => cache.cleared
  | .flushThrows left =>
    { cache with cacheCoins := leaveEntries cache.cacheCoins left }
  | .uncache o => cache.uncache o

def usageOf (entry : CCoinsCacheEntry) : Int := entry.coin.dynamicMemoryUsage

def Accounted (cache : CCoinsViewCache) : Prop :=
  cache.cachedCoinsUsage = total usageOf cache.cacheCoins

/-- The calls that keep the account: no `AddCoin` that throws over a coin with memory
of its own, and no `Flush` that throws after such a coin was taken. -/
def Harmless (cache : CCoinsViewCache) : Operation → Prop
  | .addCoin o coin possibleOverwrite =>
    coin.isSpent = true ∨ isUnspendable coin.out.scriptPubKey = true ∨ possibleOverwrite = true ∨
      ∀ entry, cache.cacheCoins.lookup o = some entry →
        entry.coin.isSpent = true ∨ entry.coin.dynamicMemoryUsage = 0
  | .flushThrows left =>
    ∀ e ∈ cache.cacheCoins.entries, left e.1 = false → e.2.coin.dynamicMemoryUsage = 0
  | _ => True

def usageAt (cache : CCoinsViewCache) (o : COutPoint) : Int :=
  (cache.cacheCoins.lookup o).elim 0 usageOf

variable {cache : CCoinsViewCache} {o : COutPoint}

theorem total_usage_nonneg (mapCoins : CCoinsMap) : 0 ≤ total usageOf mapCoins := by
  refine sum_nonneg fun usage hmem => ?_
  obtain ⟨e, -, rfl⟩ := mem_map.mp hmem
  exact Int.natCast_nonneg _

section

variable (h : cache.Accounted)

include h

theorem Accounted.remove :
    cache.cachedCoinsUsage - cache.usageAt o = total usageOf (cache.cacheCoins.erase o) := by
  unfold usageAt
  cases hlookup : cache.cacheCoins.lookup o with
  | none => rw [total_erase_of_lookup_none _ hlookup, h, Option.elim_none, Int.sub_zero]
  | some entry =>
    rw [h, total_of_lookup_some _ hlookup, Option.elim_some]
    omega

theorem Accounted.put {entry : CCoinsCacheEntry} {hashBlock : uint256} {usage : Int}
    (husage : usage = cache.cachedCoinsUsage - cache.usageAt o + usageOf entry) :
    Accounted ⟨cache.cacheCoins.insert o entry, hashBlock, usage⟩ := by
  rw [Accounted, total_insert, husage, h.remove]
  exact Int.add_comm _ _

theorem Accounted.fetch (found : Option Coin) :
    (cache.fetch o found).2.Accounted ∧ ∀ entry, (cache.fetch o found).1 = some entry →
      (cache.fetch o found).2.cacheCoins.lookup o = some entry := by
  unfold CCoinsViewCache.fetch
  split
  case h_1 entry hlookup => exact ⟨h, fun e he => he ▸ hlookup⟩
  case h_2 hlookup =>
    cases found with
    | none => exact ⟨h, fun e he => by cases he⟩
    | some coin =>
      refine ⟨h.put ?_, fun e he => he ▸ AList.lookup_insert _⟩
      rw [usageAt, hlookup, Option.elim_none, Int.sub_zero]
      rfl

theorem Accounted.spendEntry {entry : CCoinsCacheEntry}
    (hlookup : cache.cacheCoins.lookup o = some entry) : (cache.spendEntry o entry).Accounted := by
  have hat : cache.usageAt o = entry.coin.dynamicMemoryUsage := by
    rw [usageAt, hlookup]
    rfl
  unfold CCoinsViewCache.spendEntry
  rw [← hat]
  split
  · exact h.remove
  · exact h.put (Int.add_zero _).symm

theorem Accounted.uncache : (cache.uncache o).Accounted := by
  have hremove := h.remove (o := o)
  unfold CCoinsViewCache.uncache
  split
  case h_1 entry hlookup =>
    rw [usageAt, hlookup] at hremove
    split
    · exact hremove
    · exact h
  case h_2 => exact h

theorem Accounted.addCoin {coin : Coin} {w : Bool}
    (hharmless : cache.Harmless (.addCoin o coin w)) : (cache.addCoin o coin w).1.Accounted := by
  have husage : (match cache.cacheCoins.lookup o with
      | some e => cache.cachedCoinsUsage - e.coin.dynamicMemoryUsage
      | none => cache.cachedCoinsUsage) = cache.cachedCoinsUsage - cache.usageAt o := by
    unfold usageAt
    cases cache.cacheCoins.lookup o with
    | none => exact (Int.sub_zero _).symm
    | some entry => rfl
  unfold CCoinsViewCache.addCoin
  dsimp only
  split_ifs with hspent hunspendable hthrow
  · exact h
  · exact h
  · -- the entry stays in the map although its usage was taken off
    rw [Bool.and_eq_true, Bool.not_eq_true', Bool.not_eq_true'] at hthrow
    refine h.put (husage.trans (Int.add_zero _).symm |>.trans (congrArg _ ?_))
    cases hlookup : cache.cacheCoins.lookup o with
    | none => rfl
    | some entry =>
      rw [hlookup] at hthrow
      rcases hharmless with hcoin | hcoin | hw | hentry
      · exact absurd hcoin hspent
      · exact absurd hcoin hunspendable
      · exact absurd (hthrow.1.symm.trans hw) Bool.false_ne_true
      · rcases hentry entry hlookup with hcoin | hfree
        · exact absurd (hthrow.2.symm.trans hcoin) Bool.false_ne_true
        · exact (Int.ofNat_eq_zero.mpr hfree).symm
  · exact h.put (congrArg (· + _) husage)

theorem Accounted.writeEntry {child : CCoinsCacheEntry} {cache' : CCoinsViewCache}
    (hwrite : cache.writeEntry o child = .ok cache') : cache'.Accounted := by
  have hremove := h.remove (o := o)
  have hput : ∀ {entry : CCoinsCacheEntry}, Accounted ⟨cache.cacheCoins.insert o entry,
      cache.hashBlock, cache.cachedCoinsUsage - cache.usageAt o + usageOf entry⟩ := h.put rfl
  unfold usageAt at hremove hput
  unfold CCoinsViewCache.writeEntry at hwrite
  split at hwrite
  · cases hwrite
    exact h
  split at hwrite
  case h_1 hlookup =>
    rw [hlookup, Option.elim_none, Int.sub_zero] at hput
    split at hwrite
    · cases hwrite
      exact h
    · cases hwrite
      exact hput
  case h_2 us hlookup =>
    rw [hlookup] at hremove hput
    split at hwrite
    · cases hwrite
    split at hwrite
    · cases hwrite
      exact hremove
    · cases hwrite
      exact hput

theorem Accounted.writeEntries (entries : List (Sigma fun _ : COutPoint => CCoinsCacheEntry)) :
    (cache.writeEntries entries).1.Accounted := by
  induction entries generalizing cache with
  | nil => exact h
  | cons e rest ih =>
    rw [CCoinsViewCache.writeEntries]
    split
    case h_1 cache' hwrite => exact ih (h.writeEntry hwrite)
    case h_2 => exact h

theorem Accounted.perform {op : Operation} (hop : cache.Harmless op) :
    (cache.perform op).Accounted := by
  cases op with
  | fetchCoin o found => exact (h.fetch found).1
  | addCoin o coin w => exact h.addCoin hop
  | spendCoin o found =>
    obtain ⟨haccounted, hfound⟩ := h.fetch (o := o) found
    dsimp only [CCoinsViewCache.perform]
    split
    case h_1 entry cache' hfetch =>
      rw [hfetch] at haccounted hfound
      exact haccounted.spendEntry (hfound entry rfl)
    case h_2 cache' hfetch =>
      rw [hfetch] at haccounted
      exact haccounted
  | setBestBlock hashBlock => exact h
  | batchWrite mapCoins hashBlock =>
    have hwritten := h.writeEntries mapCoins.entries
    dsimp only [CCoinsViewCache.perform]
    split
    all_goals
      rename_i hrun
      rw [hrun] at hwritten
      exact hwritten
  | flush => exact rfl
  | flushThrows left =>
    have hsplit := sum_map_filter_add_sum_map_filter_not (fun e => left e.1 = true)
      (fun e => usageOf e.2) cache.cacheCoins.entries
    have hfree : ((cache.cacheCoins.entries.filter fun e => ¬left e.1 = true).map
        fun e => usageOf e.2).sum = 0 := by
      refine sum_eq_zero fun usage hmem => ?_
      obtain ⟨e, he, rfl⟩ := mem_map.mp hmem
      obtain ⟨hmem, htaken⟩ := mem_filter.mp he
      exact Int.ofNat_eq_zero.mpr (hop e hmem (by simpa using htaken))
    rw [hfree, add_zero] at hsplit
    simp only [Bool.decide_eq_true] at hsplit
    exact h.trans hsplit.symm
  | uncache o => exact h.uncache

end

/-- After every call of a harmless run the counter is the memory of the coins held, and it
covers the usage of each of them, which is all that a call takes off. -/
theorem cachedCoinsUsage_exact (ops : List Operation) (hrun : Along perform Harmless fresh ops) :
    Along perform (fun cache op =>
      (cache.perform op).cachedCoinsUsage = total usageOf (cache.perform op).cacheCoins ∧
      0 ≤ (cache.perform op).cachedCoinsUsage ∧
      ∀ o, (cache.perform op).usageAt o ≤ (cache.perform op).cachedCoinsUsage) fresh ops := by
  have hfresh : fresh.Accounted := rfl
  refine Along.of_invariant (fun cache op h hop => ?_) (fun _ _ h hop => h.perform hop) hfresh hrun
  have hnext := h.perform hop
  refine ⟨hnext, hnext ▸ total_usage_nonneg _, fun o => ?_⟩
  have hrest := total_usage_nonneg ((cache.perform op).cacheCoins.erase o)
  rw [← hnext.remove] at hrest
  omega

def longCoin : Coin := ⟨⟨5, List.replicate 40 0x51⟩, false, 7, 3⟩

/-- A coin is overwritten and spent, another one is added, flushed and fetched again. -/
def sampleRun : List Operation :=
  [.addCoin ⟨1, 0⟩ longCoin false, .addCoin ⟨1, 0⟩ ⟨⟨6, List.replicate 90 0x51⟩, false, 8, 4⟩ true,
    .addCoin ⟨2, 0⟩ longCoin false, .spendCoin ⟨1, 0⟩ none, .flush,
    .fetchCoin ⟨2, 0⟩ (some longCoin)]

theorem cachedCoinsUsage_exact_sample :
    Along perform (fun cache op =>
        (cache.perform op).cachedCoinsUsage = total usageOf (cache.perform op).cacheCoins ∧
        0 ≤ (cache.perform op).cachedCoinsUsage ∧
        ∀ o, (cache.perform op).usageAt o ≤ (cache.perform op).cachedCoinsUsage) fresh sampleRun ∧
      ((sampleRun.take 3).foldl perform fresh).cachedCoinsUsage = 176 ∧
      ((sampleRun.take 5).foldl perform fresh).cachedCoinsUsage = 0 ∧
      (sampleRun.foldl perform fresh).cachedCoinsUsage = 64 := by
  have hadd : ∀ {cache : CCoinsViewCache} {o : COutPoint}, cache.cacheCoins.lookup o = none →
      Harmless cache (.addCoin o longCoin false) := fun hnone =>
    .inr (.inr (.inr fun entry h => by rw [hnone] at h; cases h))
  refine ⟨cachedCoinsUsage_exact sampleRun ?_, by decide, by decide, by decide⟩
  exact ⟨hadd (by decide), .inr (.inr (.inl rfl)), hadd (by decide), trivial, trivial, trivial,
    trivial⟩

/-- The second call throws, and leaves the coin of the first in the cache uncounted. -/
theorem cachedCoinsUsage_lost :
    let call : Operation := .addCoin ⟨1, 0⟩ longCoin false
    let cache := (fresh.perform call).perform call
    cache.cachedCoinsUsage = 0 ∧ total usageOf cache.cacheCoins = 64 := by
  decide

end Verge.CCoinsViewCache
