import Verge.Coins.Layer

/-!
# Cache stacks behave as plain maps

The logical maps of a stack, what every call on it does to them, and runs of
arbitrary calls against one plain finite map per layer.
-/

namespace Verge

open Foundation List CCoinsViewCache

namespace CacheStack

section Views

variable {σ : Type} (base : BaseView σ) (s : σ)

def view : List CCoinsViewCache → CoinsMap
  | [] => fun o => (base.getCoin s o).bind Coin.live
  | cache :: below => cache.layerView (view below)

def views : List CCoinsViewCache → List CoinsMap
  | [] => [view base s []]
  | cache :: below => view base s (cache :: below) :: views below

def StackInv : List CCoinsViewCache → Prop
  | [] => True
  | cache :: below => cache.LayerInv (view base s below) ∧ StackInv below

end Views

section Calls

variable {σ : Type} {base : BaseView σ} {s s' : σ}

theorem views_eq_cons (caches : List CCoinsViewCache) :
    views base s caches = view base s caches :: (views base s caches).tail := by
  cases caches <;> rfl

variable {caches below : List CCoinsViewCache} {cache : CCoinsViewCache}

theorem view_eq_of_views_eq {caches' : List CCoinsViewCache}
    (h : views base s' caches' = views base s caches) :
    view base s' caches' = view base s caches := by
  rw [views_eq_cons caches, views_eq_cons caches'] at h
  exact (List.cons.inj h).1

@[simp] theorem length_views (caches : List CCoinsViewCache) :
    (views base s caches).length = caches.length + 1 := by
  induction caches with
  | nil => rfl
  | cons cache below ih => simp [views, ih]

theorem views_cons_of_layerView {cache' : CCoinsViewCache} {below' : List CCoinsViewCache}
    (hbelow : views base s' below' = views base s below)
    (h : cache'.layerView (view base s below) = cache.layerView (view base s below)) :
    views base s' (cache' :: below') = views base s (cache :: below) := by
  simp only [views, view, view_eq_of_views_eq hbelow, h, hbelow]

section

variable (hinv : StackInv base s (cache :: below))

include hinv

private theorem fetchThrough_spec {parent : Option Coin × List CCoinsViewCache} {o : COutPoint}
    (hfound : parent.1.bind Coin.live = view base s below o)
    (hviews : views base s parent.2 = views base s below) (hparent : StackInv base s parent.2) :
    ((fetchThrough parent cache below o).1.bind fun entry => entry.coin.live) =
        view base s (cache :: below) o ∧
      views base s (fetchThrough parent cache below o).2 = views base s (cache :: below) ∧
      StackInv base s (fetchThrough parent cache below o).2 ∧
      ∀ entry, (fetchThrough parent cache below o).1 = some entry →
        ∃ cache' below', (fetchThrough parent cache below o).2 = cache' :: below' ∧
          cache'.cacheCoins.lookup o = some entry := by
  obtain ⟨hlayer, hbelow⟩ := hinv
  unfold fetchThrough
  cases h : cache.cacheCoins.lookup o with
  | some entry =>
    refine ⟨?_, rfl, ⟨hlayer, hbelow⟩, ?_⟩
    · simp [view, CCoinsViewCache.layerView, h]
    · rintro e he
      exact ⟨cache, below, rfl, h.trans he⟩
  | none =>
    refine ⟨?_, ?_, ⟨?_, hparent⟩, ?_⟩
    · exact fetchMissing_entry hfound h
    · exact views_cons_of_layerView hviews
        (layerView_fetchMissing hfound h)
    · rw [view_eq_of_views_eq hviews]
      exact hlayer.fetchMissing hfound
    · intro entry he
      refine ⟨_, _, rfl, ?_⟩
      cases hp : parent.1 with
      | none => simp [hp, CCoinsViewCache.fetchMissing] at he
      | some coin =>
        simp only [hp, CCoinsViewCache.fetchMissing] at he ⊢
        simpa using he

omit hinv in
theorem getCoin_spec (hinv : StackInv base s caches) (o : COutPoint) :
    (getCoin base s caches o).1.bind Coin.live = view base s caches o ∧
      views base s (getCoin base s caches o).2 = views base s caches ∧
      StackInv base s (getCoin base s caches o).2 := by
  induction caches with
  | nil => exact ⟨rfl, rfl, trivial⟩
  | cons cache below ih =>
    obtain ⟨hfound, hviews, hbelow⟩ := ih hinv.2
    obtain ⟨hentry, hviews', hinv', -⟩ := fetchThrough_spec hinv hfound hviews hbelow
    refine ⟨?_, hviews', hinv'⟩
    rw [← hentry]
    simp only [getCoin]
    cases (fetchThrough (getCoin base s below o) cache below o).1 with
    | none => rfl
    | some entry => exact Coin.live_bind_live entry.coin

variable (o : COutPoint)

theorem getCoin_eq_view :
    (getCoin base s (cache :: below) o).1 = view base s (cache :: below) o := by
  obtain ⟨hfound, hviews, hbelow⟩ := getCoin_spec hinv.2 o
  exact (fetchThrough_spec hinv hfound hviews hbelow).1

theorem fetchCoin_spec :
    ((fetchCoin base s (cache :: below) o).1.bind fun entry => entry.coin.live) =
        view base s (cache :: below) o ∧
      views base s (fetchCoin base s (cache :: below) o).2 =
        views base s (cache :: below) ∧
      StackInv base s (fetchCoin base s (cache :: below) o).2 ∧
      ∀ entry, (fetchCoin base s (cache :: below) o).1 = some entry →
        ∃ cache' below', (fetchCoin base s (cache :: below) o).2 = cache' :: below' ∧
          cache'.cacheCoins.lookup o = some entry := by
  obtain ⟨hfound, hviews, hbelow⟩ := getCoin_spec hinv.2 o
  exact fetchThrough_spec hinv hfound hviews hbelow

theorem haveCoin_eq_view :
    (haveCoin base s (cache :: below) o).1 = (view base s (cache :: below) o).isSome := by
  rw [← (fetchCoin_spec hinv o).1]
  simp only [haveCoin]
  cases (fetchCoin base s (cache :: below) o).1 with
  | none => rfl
  | some entry =>
    simp only [Option.any_some, Option.bind_some, Coin.live]
    cases entry.coin.isSpent <;> rfl

theorem accessCoin_live_eq_view :
    (accessCoin base s (cache :: below) o).1.live = view base s (cache :: below) o := by
  rw [← (fetchCoin_spec hinv o).1]
  simp only [accessCoin]
  cases (fetchCoin base s (cache :: below) o).1 <;> rfl

theorem addCoin_spec {o : COutPoint} {coin : Coin} {w : Bool} (hcoin : coin.isSpent = false)
    (hspendable : isUnspendable coin.out.scriptPubKey = false)
    (hcontract : w = false → view base s (cache :: below) o = none) :
    ∃ caches', addCoin (cache :: below) o coin w = (caches', none) ∧
      views base s caches' =
        (view base s (cache :: below)).update o (some coin) :: views base s below ∧
      StackInv base s caches' := by
  obtain ⟨hok, hview, hlayer⟩ :=
    CCoinsViewCache.addCoin_spec hinv.1 hcoin hspendable hcontract
  refine ⟨(cache.addCoin o coin w).1 :: below, ?_, ?_, hlayer, hinv.2⟩
  · simp only [addCoin, hok]
  · simp only [views, view, hview]

theorem spendCoin_spec :
    (spendCoin base s (cache :: below) o).1.bind Coin.live =
        view base s (cache :: below) o ∧
      views base s (spendCoin base s (cache :: below) o).2 =
        (view base s (cache :: below)).update o none :: views base s below ∧
      StackInv base s (spendCoin base s (cache :: below) o).2 := by
  obtain ⟨hentry, hviews, hinv', htop⟩ := fetchCoin_spec hinv o
  simp only [spendCoin]
  cases hf : fetchCoin base s (cache :: below) o with
  | mk found caches' =>
    rw [hf] at hentry hviews hinv' htop
    cases found with
    | none =>
      refine ⟨hentry, ?_, hinv'⟩
      have hnone : view base s (cache :: below) o = none := hentry.symm
      rw [CoinsMap.update_self _ _ hnone]
      exact hviews
    | some entry =>
      obtain ⟨cache', below', rfl, hlookup⟩ := htop entry rfl
      obtain ⟨hview, hlayer⟩ := spendEntry_spec hinv'.1 hlookup
      obtain ⟨htopEq, hbelowEq⟩ := List.cons.inj hviews
      refine ⟨hentry, ?_, hlayer, hinv'.2⟩
      simp only [views, view] at htopEq hbelowEq ⊢
      rw [hview, htopEq, hbelowEq]

end

def uncacheTop : List CCoinsViewCache → COutPoint → List CCoinsViewCache
  | [], _ => []
  | cache :: below, o => cache.uncache o :: below

theorem uncacheTop_spec (hinv : StackInv base s caches) (o : COutPoint) :
    views base s (uncacheTop caches o) = views base s caches ∧
      StackInv base s (uncacheTop caches o) := by
  cases caches with
  | nil => exact ⟨rfl, trivial⟩
  | cons cache below =>
    obtain ⟨hview, hlayer⟩ := uncache_spec hinv.1 o
    exact ⟨views_cons_of_layerView rfl hview, hlayer, hinv.2⟩

theorem flush_spec (hinv : StackInv base s (cache :: below)) :
    ∃ s' caches', flush base s (cache :: below) = (s', caches', none) ∧
      views base s' caches' = view base s (cache :: below) ::
        view base s (cache :: below) :: (views base s below).tail ∧
      StackInv base s' caches' := by
  cases below with
  | nil =>
    have hbase : view base (base.batchWrite s cache.cacheCoins cache.hashBlock) [] =
        view base s [cache] := by
      funext o
      exact (base.getCoin_batchWrite s _ _ o).trans
        (layerView_eq_writes hinv.1 o).symm
    refine ⟨_, _, rfl, ?_, ?_, trivial⟩
    · simp only [views, view, layerView_cleared, tail_cons]
      simp only [view] at hbase
      rw [hbase]
    · exact layerInv_of_empty _ rfl
  | cons parent below =>
    obtain ⟨hlayer, hparent, hbelow⟩ := hinv
    obtain ⟨parent', hloop, hview, hinv'⟩ := writeEntries_spec
      cache.cacheCoins.entries cache.cacheCoins.nodupKeys hparent
      (fun o child ho hf => (hlayer o child ho).2 hf)
    have hmap : parent'.layerView (view base s below) =
        view base s (cache :: parent :: below) := by
      funext o
      rw [hview o]
      exact (layerView_eq_writes hlayer o).symm
    refine ⟨s, cache.cleared :: { parent' with hashBlock := cache.hashBlock } :: below,
      ?_, ?_, layerInv_of_empty _ rfl, hinv', hbelow⟩
    · simp only [flush, hloop]
    · simp only [views, view, layerView_cleared, tail_cons]
      have hcongr : CCoinsViewCache.layerView { parent' with hashBlock := cache.hashBlock }
          (view base s below) = parent'.layerView (view base s below) := rfl
      rw [hcongr, hmap]
      rfl

end Calls

end CacheStack

end Verge
