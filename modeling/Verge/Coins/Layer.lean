import Verge.Coins.Cache

/-!
# One cache layer over its parent's logical map

The map a layer stands for over a parent map, the invariant that ties its flags
to the parent, and what each call does to both.  Nothing here depends on what
the parent is made of.
-/

namespace Verge

open Foundation List AssocMap

abbrev CoinsMap := COutPoint → Option Coin

def CoinsMap.update (m : CoinsMap) (o : COutPoint) (c : Option Coin) : CoinsMap :=
  fun a => if a = o then c else m a

theorem CoinsMap.update_self (m : CoinsMap) (o : COutPoint) {c : Option Coin}
    (h : m o = c) : CoinsMap.update m o c = m := by
  funext a
  unfold CoinsMap.update
  by_cases ha : a = o
  · simp [ha, h]
  · simp [ha]

namespace CCoinsViewCache

def layerView (cache : CCoinsViewCache) (parent : CoinsMap) : CoinsMap := fun o =>
  match cache.cacheCoins.lookup o with
  | some entry => entry.coin.live
  | none => parent o

/-- An entry without `DIRTY` agrees with the parent; an entry with `FRESH` has
no unspent coin in the parent. -/
def LayerInv (cache : CCoinsViewCache) (parent : CoinsMap) : Prop :=
  ∀ o entry, cache.cacheCoins.lookup o = some entry →
    (entry.dirty = false → entry.coin.live = parent o) ∧
    (entry.fresh = true → parent o = none)

variable (cache cache' : CCoinsViewCache) (parent : CoinsMap) (o : COutPoint)
  (entry : CCoinsCacheEntry)

theorem layerView_insert (h : cache'.cacheCoins = cache.cacheCoins.insert o entry) :
    cache'.layerView parent = (cache.layerView parent).update o entry.coin.live := by
  funext a
  simp only [layerView, CoinsMap.update, h, lookup_insert_ite]
  by_cases ha : a = o <;> simp [ha]

theorem layerView_erase (h : cache'.cacheCoins = cache.cacheCoins.erase o) :
    cache'.layerView parent = (cache.layerView parent).update o (parent o) := by
  funext a
  simp only [layerView, CoinsMap.update, h, lookup_erase_ite]
  by_cases ha : a = o <;> simp [ha]

variable {cache cache' parent o entry}

theorem layerInv_of_empty (parent : CoinsMap) (h : cache.cacheCoins = ∅) :
    cache.LayerInv parent := by
  intro o entry ho
  simp [h] at ho

@[simp] theorem layerView_fresh (parent : CoinsMap) :
    CCoinsViewCache.fresh.layerView parent = parent := by
  funext o
  simp [layerView, CCoinsViewCache.fresh]

@[simp] theorem layerView_cleared (cache : CCoinsViewCache) (parent : CoinsMap) :
    cache.cleared.layerView parent = parent := by
  funext o
  simp [layerView, cleared]

section Fetch

variable {found : Option Coin} (hfound : found.bind Coin.live = parent o)
  (hmiss : cache.cacheCoins.lookup o = none)

include hfound hmiss

theorem fetchMissing_entry :
    ((cache.fetchMissing o found).1.bind fun entry => entry.coin.live) =
      cache.layerView parent o := by
  cases found with
  | none => simpa [fetchMissing, layerView, hmiss] using hfound
  | some coin => simpa [fetchMissing, fetchedEntry, layerView, hmiss] using hfound

theorem layerView_fetchMissing :
    (cache.fetchMissing o found).2.layerView parent = cache.layerView parent := by
  cases found with
  | none => rfl
  | some coin =>
    rw [layerView_insert cache _ parent o (fetchedEntry coin) rfl]
    apply CoinsMap.update_self
    simpa [layerView, hmiss, fetchedEntry] using hfound.symm

end Fetch

section

variable (inv : cache.LayerInv parent)

include inv

theorem LayerInv.insert (h : cache'.cacheCoins = cache.cacheCoins.insert o entry)
    (hdirty : entry.dirty = false → entry.coin.live = parent o)
    (hfresh : entry.fresh = true → parent o = none) : cache'.LayerInv parent := by
  intro a e ha
  rw [h] at ha
  rcases of_lookup_insert ha with ⟨rfl, rfl⟩ | ⟨-, ha⟩
  · exact ⟨hdirty, hfresh⟩
  · exact inv a e ha

theorem LayerInv.erase (h : cache'.cacheCoins = cache.cacheCoins.erase o) :
    cache'.LayerInv parent := by
  intro a e ha
  rw [h] at ha
  exact inv a e (of_lookup_erase ha).2

theorem layerView_eq_writes (o : COutPoint) :
    cache.layerView parent o =
      match cache.cacheCoins.lookup o with
      | some entry => if entry.dirty then entry.coin.live else parent o
      | none => parent o := by
  unfold layerView
  cases h : cache.cacheCoins.lookup o with
  | none => rfl
  | some entry =>
    cases hd : entry.dirty with
    | true => simp [hd]
    | false => simp [hd, (inv o entry h).1 hd]

theorem LayerInv.fetchMissing {found : Option Coin} (hfound : found.bind Coin.live = parent o) :
    (cache.fetchMissing o found).2.LayerInv parent := by
  cases found with
  | none => exact inv
  | some coin =>
    have hlive : coin.live = parent o := hfound
    refine inv.insert rfl (fun _ => hlive) fun hfresh => ?_
    rw [← hlive]
    exact Coin.live_eq_none.mpr hfresh

theorem addCoin_spec {coin : Coin} {w : Bool} (hcoin : coin.isSpent = false)
    (hspendable : isUnspendable coin.out.scriptPubKey = false)
    (hcontract : w = false → cache.layerView parent o = none) :
    (cache.addCoin o coin w).2 = none ∧
      (cache.addCoin o coin w).1.layerView parent =
        (cache.layerView parent).update o (some coin) ∧
      (cache.addCoin o coin w).1.LayerInv parent := by
  set entry := (cache.cacheCoins.lookup o).getD CCoinsCacheEntry.empty with hentry
  have hspent : w = false → entry.coin.isSpent = true := by
    intro hw
    have hnone := hcontract hw
    cases h : cache.cacheCoins.lookup o with
    | none => simp [hentry, h, CCoinsCacheEntry.empty]
    | some e =>
      simp only [layerView, h] at hnone
      simpa [hentry, h] using Coin.live_eq_none.mp hnone
  -- FRESH is kept from the old entry or newly set; either way the parent has
  -- no unspent coin here
  have hfresh : (entry.fresh || (!w && !entry.dirty)) = true → parent o = none := by
    intro hf
    cases h : cache.cacheCoins.lookup o with
    | none =>
      have hw : w = false := by
        simpa [hentry, h, CCoinsCacheEntry.empty] using hf
      simpa [layerView, h] using hcontract hw
    | some e =>
      have he : entry = e := by simp [hentry, h]
      rw [he] at hf hspent
      rcases Bool.or_eq_true_iff.mp hf with hf | hf
      · exact (inv o e h).2 hf
      · simp only [Bool.and_eq_true, Bool.not_eq_true'] at hf
        rw [← (inv o e h).1 hf.2]
        exact Coin.live_eq_none.mpr (hspent hf.1)
  have hguard : (!w && !entry.coin.isSpent) = false := by
    cases w with
    | true => rfl
    | false => simp [hspent rfl]
  have hcalc : ∃ cache', cache.addCoin o coin w = (cache', none) ∧
      cache'.cacheCoins = cache.cacheCoins.insert o
        ⟨coin, true, entry.fresh || (!w && !entry.dirty)⟩ := by
    simp only [addCoin, hcoin, hspendable, Bool.false_eq_true, if_false]
    rw [← hentry, if_neg (by simp [hguard])]
    exact ⟨_, rfl, rfl⟩
  obtain ⟨cache', hadd, hcoins⟩ := hcalc
  rw [hadd]
  refine ⟨rfl, ?_, inv.insert hcoins (by simp) hfresh⟩
  rw [layerView_insert cache cache' parent o _ hcoins, Coin.live_of_not_spent hcoin]

theorem spendEntry_spec (hentry : cache.cacheCoins.lookup o = some entry) :
    (cache.spendEntry o entry).layerView parent =
        (cache.layerView parent).update o none ∧
      (cache.spendEntry o entry).LayerInv parent := by
  unfold spendEntry
  cases hf : entry.fresh with
  | true =>
    constructor
    · rw [if_pos rfl, layerView_erase cache _ parent o rfl, (inv o entry hentry).2 hf]
    · exact inv.erase rfl
  | false =>
    constructor
    · rw [if_neg (by simp), layerView_insert cache _ parent o _ rfl]
      rfl
    · exact inv.insert rfl (by simp) (by simp)

theorem uncache_spec (o : COutPoint) :
    (cache.uncache o).layerView parent = cache.layerView parent ∧
      (cache.uncache o).LayerInv parent := by
  unfold uncache
  cases h : cache.cacheCoins.lookup o with
  | none => exact ⟨rfl, inv⟩
  | some entry =>
    cases hu : entry.unflagged with
    | false => simpa [hu] using inv
    | true =>
      have hd : entry.dirty = false := by
        simp only [CCoinsCacheEntry.unflagged, Bool.and_eq_true,
          Bool.not_eq_true'] at hu
        exact hu.1
      simp only [hu, if_true]
      refine ⟨?_, inv.erase rfl⟩
      rw [layerView_erase cache _ parent o rfl]
      apply CoinsMap.update_self
      simp [layerView, h, (inv o entry h).1 hd]

/-- One child entry: a dirty one is written, any other ignored.  `FRESH` in the
child promises that this layer has no unspent coin there. -/
theorem writeEntry_spec {child : CCoinsCacheEntry}
    (hchild : child.fresh = true → cache.layerView parent o = none) :
    ∃ cache', cache.writeEntry o child = .ok cache' ∧
      cache'.layerView parent = (cache.layerView parent).update o
        (if child.dirty then child.coin.live else cache.layerView parent o) ∧
      cache'.LayerInv parent := by
  unfold writeEntry
  cases hd : child.dirty with
  | false =>
    refine ⟨cache, by simp, ?_, inv⟩
    exact (CoinsMap.update_self _ o (by simp)).symm
  | true =>
    simp only [Bool.not_true, Bool.false_eq_true, if_false, if_true]
    cases h : cache.cacheCoins.lookup o with
    | none =>
      have hview : cache.layerView parent o = parent o := by simp [layerView, h]
      cases hig : child.fresh && child.coin.isSpent with
      | true =>
        obtain ⟨hf, hs⟩ := Bool.and_eq_true_iff.mp hig
        refine ⟨cache, by simp, ?_, inv⟩
        refine (CoinsMap.update_self _ o ?_).symm
        rw [hchild hf, Coin.live_eq_none.mpr hs]
      | false =>
        refine ⟨_, by simp only [Bool.false_eq_true, if_false]; rfl, ?_, ?_⟩
        · exact layerView_insert cache _ parent o ⟨child.coin, true, child.fresh⟩ rfl
        · refine inv.insert rfl (by simp) fun hf => ?_
          rw [← hview]
          exact hchild hf
    | some us =>
      have hview : cache.layerView parent o = us.coin.live := by simp [layerView, h]
      have hnothrow : (child.fresh && !us.coin.isSpent) = false := by
        cases hf : child.fresh with
        | false => rfl
        | true =>
          have hnone := hchild hf
          rw [hview, Coin.live_eq_none] at hnone
          simp [hnone]
      simp only [hnothrow, Bool.false_eq_true, if_false]
      cases hig : us.fresh && child.coin.isSpent with
      | true =>
        obtain ⟨hf, hs⟩ := Bool.and_eq_true_iff.mp hig
        refine ⟨_, by simp only [if_true]; rfl, ?_, inv.erase rfl⟩
        rw [layerView_erase cache _ parent o rfl, (inv o us h).2 hf,
          Coin.live_eq_none.mpr hs]
      | false =>
        refine ⟨_, by simp only [Bool.false_eq_true, if_false]; rfl, ?_, ?_⟩
        · exact layerView_insert cache _ parent o ⟨child.coin, true, us.fresh⟩ rfl
        · exact inv.insert rfl (by simp) fun hf => (inv o us h).2 hf

end

/-- The whole loop.  Keys are distinct, so what `FRESH` promises about an entry
still holds when the loop reaches it. -/
theorem writeEntries_spec (entries : List (Sigma fun _ : COutPoint => CCoinsCacheEntry))
    (hnodup : entries.NodupKeys) (inv : cache.LayerInv parent)
    (hfresh : ∀ o child, entries.dlookup o = some child → child.fresh = true →
      cache.layerView parent o = none) :
    ∃ cache', cache.writeEntries entries = (cache', [], none) ∧
      (∀ o, cache'.layerView parent o =
        match entries.dlookup o with
        | some child => if child.dirty then child.coin.live else cache.layerView parent o
        | none => cache.layerView parent o) ∧
      cache'.LayerInv parent := by
  induction entries generalizing cache with
  | nil => exact ⟨cache, rfl, fun o => rfl, inv⟩
  | cons e rest ih =>
    obtain ⟨k, child⟩ := e
    obtain ⟨hk, hrest⟩ := nodupKeys_cons.mp hnodup
    obtain ⟨mid, hwrite, hmid, hinv⟩ :=
      writeEntry_spec inv (hfresh k child (dlookup_cons_eq _ _ _))
    have hne : ∀ o child', rest.dlookup o = some child' → o ≠ k := by
      rintro o child' ho rfl
      rw [dlookup_eq_none.mpr hk] at ho
      cases ho
    obtain ⟨cache', hloop, hview, hinv'⟩ := ih hrest hinv (by
      intro o child' ho hf
      have hok := hne o child' ho
      rw [hmid, CoinsMap.update, if_neg hok]
      refine hfresh o child' ?_ hf
      rwa [dlookup_cons_ne _ _ hok])
    refine ⟨cache', ?_, fun o => ?_, hinv'⟩
    · simp only [writeEntries, hwrite, hloop]
    · rw [hview o, hmid]
      by_cases ho : o = k
      · subst ho
        have hnone : rest.dlookup o = none := dlookup_eq_none.mpr hk
        simp [hnone, CoinsMap.update]
      · rw [dlookup_cons_ne _ _ ho]
        simp [CoinsMap.update, ho]

end CCoinsViewCache

end Verge
