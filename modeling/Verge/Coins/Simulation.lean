import Verge.Coins.Stack
import Verge.Coins.DB

/-!
# Runs of calls on a cache stack

Programs run on the top of a stack, and arbitrary sequences of calls on its
layers, are compared with the same run on plain finite maps: one map per layer,
where `Flush` copies a child's map to its parent.
-/

namespace Verge

open Foundation List AssocMap CCoinsViewCache

def CoinsView.toMap (view : CoinsView) : CoinsMap := fun o => view.lookup o

theorem CoinsView.toMap_insert (view : CoinsView) (o : COutPoint) (coin : Coin) :
    CoinsView.toMap (view.insert o coin) = view.toMap.update o (some coin) := by
  funext a
  simp only [toMap, CoinsMap.update, lookup_insert_ite]

theorem CoinsView.toMap_erase (view : CoinsView) (o : COutPoint) :
    CoinsView.toMap (view.erase o) = view.toMap.update o none := by
  funext a
  simp only [toMap, CoinsMap.update, lookup_erase_ite]

namespace CacheStack

variable {σ : Type} (base : BaseView σ)

/-! ## Programs on the top layer -/

def runProg {α : Type} (s : σ) :
    CoinsProg α → List CCoinsViewCache → Except Failure (α × List CCoinsViewCache)
  | .pure a, caches => .ok (a, caches)
  | .callHaveCoin o k, caches =>
    let r := haveCoin base s caches o
    runProg s (k r.1) r.2
  | .callAccessCoin o k, caches =>
    let r := accessCoin base s caches o
    runProg s (k r.1.live) r.2
  | .callAddCoin o coin w k, caches =>
    match addCoin caches o coin w with
    | (caches', none) => runProg s (k ()) caches'
    | (_, some failure) => .error failure
  | .callSpendCoin o k, caches =>
    let r := spendCoin base s caches o
    runProg s (k (r.1.bind Coin.live)) r.2
  | .fail e, _ => .error e

variable {base} {s : σ} {caches : List CCoinsViewCache} {lower : List CoinsMap} {m : CoinsView}
  {depth : Nat} {maps : List CoinsView}

private theorem exists_cons_of_views {top : CoinsMap} (hlower : lower ≠ [])
    (h : views base s caches = top :: lower) :
    ∃ cache below, caches = cache :: below ∧ view base s caches = top ∧
      views base s below = lower := by
  cases caches with
  | nil =>
    simp only [views, List.cons.injEq] at h
    exact absurd h.2.symm hlower
  | cons cache below =>
    obtain ⟨htop, hbelow⟩ := List.cons.inj h
    exact ⟨cache, below, rfl, htop, hbelow⟩

section

variable (hlower : lower ≠ []) (hinv : StackInv base s caches)
  (hviews : views base s caches = m.toMap :: lower) {m' : CoinsView}

include hlower hinv hviews

theorem addCoin_refines {o : COutPoint} {coin : Coin} {w : Bool}
    (hadd : m.addCoin o coin w = .ok m') :
    ∃ caches', addCoin caches o coin w = (caches', none) ∧ StackInv base s caches' ∧
      views base s caches' = m'.toMap :: lower := by
  obtain ⟨cache, below, rfl, htop, hbelow⟩ := exists_cons_of_views hlower hviews
  unfold CoinsView.addCoin at hadd
  cases hcoin : coin.isSpent with
  | true => simp [hcoin] at hadd
  | false =>
    simp only [hcoin, Bool.false_eq_true, if_false] at hadd
    cases hspend : isUnspendable coin.out.scriptPubKey with
    | true =>
      simp only [hspend, if_true, Except.ok.injEq] at hadd
      subst hadd
      refine ⟨cache :: below, ?_, hinv, hviews⟩
      simp [addCoin, CCoinsViewCache.addCoin, hcoin, hspend]
    | false =>
      simp only [hspend, Bool.false_eq_true, if_false] at hadd
      cases hw : !w && m.haveCoin o with
      | true => simp [hw] at hadd
      | false =>
        simp only [hw, Bool.false_eq_true, if_false, Except.ok.injEq] at hadd
        subst hadd
        obtain ⟨caches', hok, hviews', hinv'⟩ := addCoin_spec hinv hcoin hspend
          (w := w) (o := o) (by
            rintro rfl
            rw [htop]
            simpa [CoinsView.haveCoin, CoinsView.toMap] using hw)
        refine ⟨caches', hok, hinv', ?_⟩
        rw [hviews', htop, hbelow, CoinsView.toMap_insert]

theorem runProg_refines {α : Type} (p : CoinsProg α) {a : α} (hrun : p.run m = .ok (a, m')) :
    ∃ caches', runProg base s p caches = .ok (a, caches') ∧ StackInv base s caches' ∧
      views base s caches' = m'.toMap :: lower := by
  induction p generalizing caches m with
  | pure b =>
    simp only [CoinsProg.run, Except.ok.injEq, Prod.mk.injEq] at hrun
    obtain ⟨rfl, rfl⟩ := hrun
    exact ⟨caches, rfl, hinv, hviews⟩
  | callHaveCoin o k ih =>
    obtain ⟨cache, below, rfl, htop, hbelow⟩ := exists_cons_of_views hlower hviews
    obtain ⟨-, hviews', hinv', -⟩ := fetchCoin_spec hinv o
    have hans : (haveCoin base s (cache :: below) o).1 = m.haveCoin o := by
      rw [haveCoin_eq_view hinv, htop]
      rfl
    simp only [CoinsProg.run, ← hans] at hrun
    exact ih _ hinv' (hviews'.trans hviews) hrun
  | callAccessCoin o k ih =>
    obtain ⟨cache, below, rfl, htop, hbelow⟩ := exists_cons_of_views hlower hviews
    obtain ⟨-, hviews', hinv', -⟩ := fetchCoin_spec hinv o
    have hans : (accessCoin base s (cache :: below) o).1.live = m.lookup o := by
      rw [accessCoin_live_eq_view hinv, htop]
      rfl
    simp only [CoinsProg.run, ← hans] at hrun
    exact ih _ hinv' (hviews'.trans hviews) hrun
  | callAddCoin o coin w k ih =>
    simp only [CoinsProg.run] at hrun
    cases hadd : m.addCoin o coin w with
    | error e => simp [hadd] at hrun
    | ok mid =>
      simp only [hadd] at hrun
      obtain ⟨caches', hok, hinv', hviews'⟩ := addCoin_refines hlower hinv hviews hadd
      simp only [runProg, hok]
      exact ih _ hinv' hviews' hrun
  | callSpendCoin o k ih =>
    obtain ⟨cache, below, rfl, htop, hbelow⟩ := exists_cons_of_views hlower hviews
    obtain ⟨hans, hviews', hinv'⟩ := spendCoin_spec hinv o
    rw [htop, hbelow, ← CoinsView.toMap_erase] at hviews'
    have hlookup : (spendCoin base s (cache :: below) o).1.bind Coin.live = m.lookup o := by
      rw [hans, htop]
      rfl
    simp only [CoinsProg.run, ← hlookup] at hrun
    exact ih _ hinv' hviews' hrun
  | fail e => simp [CoinsProg.run] at hrun

end

/-! ## Calls on any layer -/

def onLayer {α : Type} (f : List CCoinsViewCache → α × List CCoinsViewCache) :
    Nat → List CCoinsViewCache → α × List CCoinsViewCache
  | 0, caches => f caches
  | _ + 1, [] => f []
  | depth + 1, cache :: below =>
    let r := onLayer f depth below
    (r.1, cache :: r.2)

theorem onLayer_spec {α : Type} {s' : σ} (f : List CCoinsViewCache → α × List CCoinsViewCache)
    (hdepth : depth ≤ caches.length) (hinv : StackInv base s caches)
    (hview : view base s' (f (caches.drop depth)).2 = view base s (caches.drop depth))
    (hinv' : StackInv base s' (f (caches.drop depth)).2) :
    (onLayer f depth caches).1 = (f (caches.drop depth)).1 ∧
      views base s' (onLayer f depth caches).2 =
        (views base s caches).take depth ++ views base s' (f (caches.drop depth)).2 ∧
      view base s' (onLayer f depth caches).2 = view base s caches ∧
      StackInv base s' (onLayer f depth caches).2 := by
  induction depth generalizing caches with
  | zero => exact ⟨rfl, by simp [onLayer], hview, hinv'⟩
  | succ depth ih =>
    cases caches with
    | nil => simp at hdepth
    | cons cache below =>
      obtain ⟨hans, hviews, hbelow, hinvBelow⟩ :=
        ih (Nat.le_of_succ_le_succ hdepth) hinv.2 hview hinv'
      refine ⟨hans, ?_, ?_, ?_, hinvBelow⟩
      · simp only [onLayer, views, view, hbelow, hviews, drop_succ_cons,
          take_succ_cons, cons_append]
      · simp only [onLayer, view, hbelow]
      · rw [hbelow]
        exact hinv.1

/-! ## Runs of calls -/

/-- `Uncache`, `Flush` and reads at a layer given by its depth from the top; changes at the
top, since a layer must not change under its children; a layer added or dropped. -/
inductive Call where
  | getCoin (depth : Nat) (outpoint : COutPoint)
  | haveCoin (depth : Nat) (outpoint : COutPoint)
  | accessCoin (depth : Nat) (outpoint : COutPoint)
  | addCoin (outpoint : COutPoint) (coin : Coin) (possibleOverwrite : Bool)
  | addCoins (tx : CTransaction) (nHeight : Nat) (check : Bool)
  | spendCoin (outpoint : COutPoint)
  | uncache (depth : Nat) (outpoint : COutPoint)
  | flush (depth : Nat)
  | push
  | pop
  deriving DecidableEq, Repr

inductive Answer where
  | coin (found : Option Coin)
  | found (present : Bool)
  | done
  deriving DecidableEq, Repr

/-- One call on the stack.  A spent coin handed out by `AccessCoin` or moved
out by `SpendCoin` is the answer that there is none. -/
def step (base : BaseView σ) (s : σ) (caches : List CCoinsViewCache) :
    Call → Except Failure (Answer × σ × List CCoinsViewCache)
  | .getCoin depth o =>
    let r := onLayer (fun below => CacheStack.getCoin base s below o) depth caches
    .ok (.coin r.1, s, r.2)
  | .haveCoin depth o =>
    let r := onLayer (fun below => CacheStack.haveCoin base s below o) depth caches
    .ok (.found r.1, s, r.2)
  | .accessCoin depth o =>
    let r := onLayer (fun below => CacheStack.accessCoin base s below o) depth caches
    .ok (.coin r.1.live, s, r.2)
  | .addCoin o coin w =>
    match CacheStack.addCoin caches o coin w with
    | (caches', none) => .ok (.done, s, caches')
    | (_, some failure) => .error failure
  | .addCoins tx nHeight check =>
    match runProg base s (Verge.addCoins tx nHeight check) caches with
    | .ok r => .ok (.done, s, r.2)
    | .error failure => .error failure
  | .spendCoin o =>
    let r := CacheStack.spendCoin base s caches o
    .ok (.coin (r.1.bind Coin.live), s, r.2)
  | .uncache depth o =>
    let r := onLayer (fun below => ((), uncacheTop below o)) depth caches
    .ok (.done, s, r.2)
  | .flush depth =>
    let r := onLayer (fun below =>
      let flushed := CacheStack.flush base s below
      ((flushed.1, flushed.2.2), flushed.2.1)) depth caches
    match r.1.2 with
    | none => .ok (.done, r.1.1, r.2)
    | some failure => .error failure
  | .push => .ok (.done, s, CCoinsViewCache.fresh :: caches)
  | .pop => .ok (.done, s, caches.tail)

def runCalls (base : BaseView σ) (s : σ) (caches : List CCoinsViewCache) :
    List Call → Except Failure (List Answer × σ × List CCoinsViewCache)
  | [] => .ok ([], s, caches)
  | call :: calls =>
    match step base s caches call with
    | .error failure => .error failure
    | .ok (answer, s', caches') =>
      match runCalls base s' caches' calls with
      | .error failure => .error failure
      | .ok (answers, s'', caches'') => .ok (answer :: answers, s'', caches'')

/-! ## The same calls on plain maps -/

/-- One call on plain finite maps, one per layer with the base last.  `none` means that
there is no such layer, or that `AddCoin` would overwrite an unspent coin. -/
def planStep (maps : List CoinsView) : Call → Option (Answer × List CoinsView)
  | .getCoin depth o =>
    if depth + 1 < maps.length then
      (maps[depth]?).map fun m => (.coin (m.lookup o), maps)
    else none
  | .haveCoin depth o =>
    if depth + 1 < maps.length then
      (maps[depth]?).map fun m => (.found (m.haveCoin o), maps)
    else none
  | .accessCoin depth o =>
    if depth + 1 < maps.length then
      (maps[depth]?).map fun m => (.coin (m.lookup o), maps)
    else none
  | .addCoin o coin w =>
    match maps with
    | m :: parent :: lower =>
      match m.addCoin o coin w with
      | .ok m' => some (.done, m' :: parent :: lower)
      | .error _ => none
    | _ => none
  | .addCoins tx nHeight check =>
    match maps with
    | m :: parent :: lower =>
      match (Verge.addCoins tx nHeight check).run m with
      | .ok (_, m') => some (.done, m' :: parent :: lower)
      | .error _ => none
    | _ => none
  | .spendCoin o =>
    match maps with
    | m :: parent :: lower => some (.coin (m.lookup o), m.erase o :: parent :: lower)
    | _ => none
  | .uncache depth _ => if depth + 1 < maps.length then some (.done, maps) else none
  | .flush depth =>
    if depth + 1 < maps.length then
      (maps[depth]?).map fun m => (.done, maps.set (depth + 1) m)
    else none
  | .push =>
    match maps with
    | m :: lower => some (.done, m :: m :: lower)
    | [] => none
  | .pop =>
    match maps with
    | _ :: parent :: lower => some (.done, parent :: lower)
    | _ => none

def planCalls (maps : List CoinsView) : List Call → Option (List Answer × List CoinsView)
  | [] => some ([], maps)
  | call :: calls => do
    let (answer, maps') ← planStep maps call
    let (answers, maps'') ← planCalls maps' calls
    return (answer :: answers, maps'')

structure Represents (base : BaseView σ) (s : σ) (caches : List CCoinsViewCache)
    (maps : List CoinsView) : Prop where
  views_eq : views base s caches = maps.map CoinsView.toMap
  inv : StackInv base s caches

/-! ## Refinement -/

theorem views_drop (base : BaseView σ) (s : σ) (h : depth ≤ caches.length) :
    (views base s caches).drop depth = views base s (caches.drop depth) := by
  induction depth generalizing caches with
  | zero => simp
  | succ depth ih =>
    cases caches with
    | nil => simp at h
    | cons cache below =>
      simp only [views, drop_succ_cons]
      exact ih (Nat.le_of_succ_le_succ h)

theorem StackInv.drop (depth : Nat) (hinv : StackInv base s caches) :
    StackInv base s (caches.drop depth) := by
  induction depth generalizing caches with
  | zero => exact hinv
  | succ depth ih =>
    cases caches with
    | nil => trivial
    | cons cache below => exact ih hinv.2

section

variable (hrep : Represents base s caches maps)

include hrep

private theorem Represents.layer (hdepth : depth + 1 < maps.length) (hm : maps[depth]? = some m) :
    ∃ cache below pre parent lower, caches.drop depth = cache :: below ∧
      depth ≤ caches.length ∧ maps = pre ++ m :: parent :: lower ∧ pre.length = depth ∧
      (views base s caches).take depth = pre.map CoinsView.toMap ∧
      view base s (cache :: below) = m.toMap ∧
      views base s below = parent.toMap :: lower.map CoinsView.toMap := by
  have hlen : caches.length + 1 = maps.length := by
    have h := congrArg List.length hrep.views_eq
    simpa using h
  have hcaches : depth < caches.length := by omega
  obtain ⟨hlt, hget⟩ := List.getElem?_eq_some_iff.mp hm
  have hsplit : maps = maps.take depth ++ m :: maps[depth + 1] :: maps.drop (depth + 2) := by
    rw [getElem_cons_drop, ← hget, getElem_cons_drop, take_append_drop]
  have hbelow := views_drop base s hcaches.le
  rw [hrep.views_eq] at hbelow
  cases hdrop : caches.drop depth with
  | nil =>
    have h := congrArg List.length hdrop
    simp at h
    omega
  | cons cache below =>
    refine ⟨cache, below, maps.take depth, maps[depth + 1], maps.drop (depth + 2), rfl,
      hcaches.le, hsplit, by simp; omega, ?_, ?_⟩
    · rw [hrep.views_eq, map_take]
    · rw [hdrop, hsplit, map_append, drop_left' (by simp; omega)] at hbelow
      obtain ⟨htop, hlower⟩ := List.cons.inj hbelow
      exact ⟨htop.symm, hlower.symm⟩

private theorem Represents.read {α : Type} (hdepth : depth + 1 < maps.length)
    (hm : maps[depth]? = some m) (f : List CCoinsViewCache → α × List CCoinsViewCache)
    (hf : ∀ {cache below}, StackInv base s (cache :: below) →
      views base s (f (cache :: below)).2 = views base s (cache :: below) ∧
        StackInv base s (f (cache :: below)).2) :
    ∃ cache below, StackInv base s (cache :: below) ∧ view base s (cache :: below) = m.toMap ∧
      (onLayer f depth caches).1 = (f (cache :: below)).1 ∧
      Represents base s (onLayer f depth caches).2 maps := by
  obtain ⟨cache, below, -, -, -, hdrop, hle, -, -, -, hview, -⟩ := hrep.layer hdepth hm
  have hinv := hrep.inv.drop depth
  rw [hdrop] at hinv
  have hkept := hf hinv
  rw [← hdrop] at hkept
  obtain ⟨hans, hviews, -, hinv'⟩ :=
    onLayer_spec f hle hrep.inv (view_eq_of_views_eq hkept.1) hkept.2
  refine ⟨cache, below, hinv, hview, hdrop ▸ hans, ?_, hinv'⟩
  rw [hviews, hkept.1, ← views_drop base s hle, take_append_drop]
  exact hrep.views_eq

omit hrep in
private theorem Represents.top {parent : CoinsView} {lower : List CoinsView}
    (hrep : Represents base s caches (m :: parent :: lower)) :
    ∃ cache below, caches = cache :: below ∧ view base s caches = m.toMap ∧
      views base s below = parent.toMap :: lower.map CoinsView.toMap :=
  exists_cons_of_views (by simp) (by simpa using hrep.views_eq)

omit hrep in
private theorem planned {α β : Type} {g : CoinsView → α × β} {a : α} {b : β}
    (h : (if depth + 1 < maps.length then (maps[depth]?).map g else none) = some (a, b)) :
    ∃ m, depth + 1 < maps.length ∧ maps[depth]? = some m ∧ (g m).1 = a ∧ (g m).2 = b := by
  split at h
  case isFalse => cases h
  case isTrue hdepth =>
    obtain ⟨m, hm, heq⟩ := Option.map_eq_some_iff.mp h
    exact ⟨m, hdepth, hm, Prod.mk.inj heq⟩

theorem step_refines {maps' : List CoinsView} {call : Call} {answer : Answer}
    (hplan : planStep maps call = some (answer, maps')) :
    ∃ s' caches', step base s caches call = .ok (answer, s', caches') ∧
      Represents base s' caches' maps' := by
  cases call with
  | getCoin depth o =>
    obtain ⟨m, hdepth, hm, rfl, rfl⟩ := planned hplan
    obtain ⟨cache, below, hinv, hview, hans, hrep'⟩ := hrep.read hdepth hm
      (fun below => CacheStack.getCoin base s below o) fun hinv => (getCoin_spec hinv o).2
    refine ⟨s, _, ?_, hrep'⟩
    rw [getCoin_eq_view hinv, hview] at hans
    simp only [step, hans, CoinsView.toMap]
  | haveCoin depth o =>
    obtain ⟨m, hdepth, hm, rfl, rfl⟩ := planned hplan
    obtain ⟨cache, below, hinv, hview, hans, hrep'⟩ := hrep.read hdepth hm
      (fun below => CacheStack.haveCoin base s below o) fun hinv =>
        ⟨(fetchCoin_spec hinv o).2.1, (fetchCoin_spec hinv o).2.2.1⟩
    refine ⟨s, _, ?_, hrep'⟩
    rw [haveCoin_eq_view hinv, hview] at hans
    simp only [step, hans, CoinsView.toMap, CoinsView.haveCoin]
  | accessCoin depth o =>
    obtain ⟨m, hdepth, hm, rfl, rfl⟩ := planned hplan
    obtain ⟨cache, below, hinv, hview, hans, hrep'⟩ := hrep.read hdepth hm
      (fun below => CacheStack.accessCoin base s below o) fun hinv =>
        ⟨(fetchCoin_spec hinv o).2.1, (fetchCoin_spec hinv o).2.2.1⟩
    refine ⟨s, _, ?_, hrep'⟩
    simp only [step]
    rw [hans, accessCoin_live_eq_view hinv, hview]
    rfl
  | addCoin o coin w =>
    obtain _ | ⟨m, _ | ⟨parent, lower⟩⟩ := maps
    · cases hplan
    · cases hplan
    · simp only [planStep] at hplan
      cases hadd : m.addCoin o coin w with
      | error e => simp [hadd] at hplan
      | ok m' =>
        simp only [hadd, Option.some.injEq, Prod.mk.injEq] at hplan
        obtain ⟨rfl, rfl⟩ := hplan
        obtain ⟨caches', hok, hinv, hviews⟩ := addCoin_refines
          (cons_ne_nil _ _) hrep.inv hrep.views_eq hadd
        exact ⟨s, caches', by simp only [step, hok], hviews, hinv⟩
  | addCoins tx nHeight check =>
    obtain _ | ⟨m, _ | ⟨parent, lower⟩⟩ := maps
    · cases hplan
    · cases hplan
    · simp only [planStep] at hplan
      cases hrun : (Verge.addCoins tx nHeight check).run m with
      | error e => simp [hrun] at hplan
      | ok r =>
        obtain ⟨u, m'⟩ := r
        simp only [hrun, Option.some.injEq, Prod.mk.injEq] at hplan
        obtain ⟨rfl, rfl⟩ := hplan
        obtain ⟨caches', hok, hinv, hviews⟩ := runProg_refines
          (cons_ne_nil _ _) hrep.inv hrep.views_eq _ hrun
        exact ⟨s, caches', by simp only [step, hok], hviews, hinv⟩
  | spendCoin o =>
    obtain _ | ⟨m, _ | ⟨parent, lower⟩⟩ := maps
    · cases hplan
    · cases hplan
    · simp only [planStep, Option.some.injEq, Prod.mk.injEq] at hplan
      obtain ⟨rfl, rfl⟩ := hplan
      obtain ⟨cache, below, rfl, htop, hbelow⟩ := hrep.top
      obtain ⟨hans, hviews, hinv⟩ := spendCoin_spec hrep.inv o
      refine ⟨s, _, ?_, ?_, hinv⟩
      · simp only [step]
        rw [hans, htop]
        rfl
      · rw [hviews, htop, hbelow, ← CoinsView.toMap_erase]
        rfl
  | uncache depth o =>
    simp only [planStep] at hplan
    split at hplan
    case isFalse => cases hplan
    case isTrue hdepth =>
      simp only [Option.some.injEq, Prod.mk.injEq] at hplan
      obtain ⟨rfl, rfl⟩ := hplan
      obtain ⟨m, hm⟩ : ∃ m, maps[depth]? = some m :=
        ⟨_, List.getElem?_eq_getElem (by omega)⟩
      obtain ⟨-, -, -, -, -, hrep'⟩ := hrep.read hdepth hm
        (fun below => ((), uncacheTop below o)) fun hinv => uncacheTop_spec hinv o
      exact ⟨s, _, rfl, hrep'⟩
  | flush depth =>
    obtain ⟨m, hdepth, hm, rfl, rfl⟩ := planned hplan
    obtain ⟨cache, below, pre, parent, lower, hdrop, hle, rfl, rfl, hpre, hview, hlower⟩ :=
      hrep.layer hdepth hm
    have hinv := hrep.inv.drop pre.length
    rw [hdrop] at hinv
    obtain ⟨s', caches', hflush, hviews', hinv'⟩ := flush_spec hinv
    rw [hview, hlower, tail_cons] at hviews'
    obtain ⟨hans, hviews, -, hinvAll⟩ := onLayer_spec (fun below =>
        let flushed := CacheStack.flush base s below
        ((flushed.1, flushed.2.2), flushed.2.1)) hle hrep.inv
      (by simp only [hdrop, hflush, hview]
          rw [views_eq_cons] at hviews'
          exact (List.cons.inj hviews').1)
      (by simpa only [hdrop, hflush] using hinv')
    simp only [hdrop, hflush] at hans hviews
    refine ⟨s', _, by simp only [step, hans], ?_, hinvAll⟩
    rw [hviews, hviews', hpre]
    simp
  | push =>
    obtain _ | ⟨m, lower⟩ := maps
    · cases hplan
    · simp only [planStep, Option.some.injEq, Prod.mk.injEq] at hplan
      obtain ⟨rfl, rfl⟩ := hplan
      refine ⟨s, _, rfl, ?_, layerInv_of_empty _ rfl, hrep.inv⟩
      have hviews := hrep.views_eq
      rw [views_eq_cons] at hviews
      simp only [views, view, layerView_fresh, hrep.views_eq]
      rw [(List.cons.inj hviews).1]
      rfl
  | pop =>
    obtain _ | ⟨m, _ | ⟨parent, lower⟩⟩ := maps
    · cases hplan
    · cases hplan
    · simp only [planStep, Option.some.injEq, Prod.mk.injEq] at hplan
      obtain ⟨rfl, rfl⟩ := hplan
      obtain ⟨cache, below, rfl, -, hbelow⟩ := hrep.top
      exact ⟨s, below, rfl, hbelow, hrep.inv.2⟩

theorem runCalls_refines {maps' : List CoinsView} {calls : List Call} {answers : List Answer}
    (hplan : planCalls maps calls = some (answers, maps')) :
    ∃ s' caches', runCalls base s caches calls = .ok (answers, s', caches') ∧
      Represents base s' caches' maps' := by
  induction calls generalizing s caches maps answers with
  | nil =>
    simp only [planCalls, Option.some.injEq, Prod.mk.injEq] at hplan
    obtain ⟨rfl, rfl⟩ := hplan
    exact ⟨s, caches, rfl, hrep⟩
  | cons call calls ih =>
    simp only [planCalls, Option.bind_eq_bind, Option.pure_def] at hplan
    obtain ⟨⟨answer, mid⟩, hstep, hplan⟩ := Option.bind_eq_some_iff.mp hplan
    obtain ⟨⟨rest, last⟩, hrest, hplan⟩ := Option.bind_eq_some_iff.mp hplan
    simp only [Option.some.injEq, Prod.mk.injEq] at hplan
    obtain ⟨rfl, rfl⟩ := hplan
    obtain ⟨s₁, caches₁, hok, hrep₁⟩ := step_refines hrep hstep
    obtain ⟨s₂, caches₂, hoks, hrep₂⟩ := ih hrep₁ hrest
    exact ⟨s₂, caches₂, by simp only [runCalls, hok, hoks], hrep₂⟩

end

theorem represents_fresh (hm : ∀ o, (base.getCoin s o).bind Coin.live = m.lookup o) (layers : Nat) :
    Represents base s (List.replicate layers CCoinsViewCache.fresh)
      (List.replicate (layers + 1) m) := by
  induction layers with
  | zero =>
    refine ⟨?_, trivial⟩
    simp only [List.replicate, views, view, map_cons, map_nil]
    rw [show (fun o => (base.getCoin s o).bind Coin.live) = m.toMap from funext hm]
  | succ layers ih =>
    refine ⟨?_, layerInv_of_empty _ rfl, ih.inv⟩
    have htop : view base s (List.replicate layers CCoinsViewCache.fresh) = m.toMap := by
      have hviews := ih.views_eq
      rw [views_eq_cons] at hviews
      exact (List.cons.inj hviews).1
    simp only [replicate_succ, views, view, layerView_fresh, htop,
      map_cons, ih.views_eq]

/-- Every run of allowed calls on a stack of caches answers as the plain maps do, throws
nothing, and ends in a stack that stands for those maps. -/
theorem runCalls_eq_planCalls (base : BaseView σ) (s : σ) (m : CoinsView)
    (hm : ∀ o, (base.getCoin s o).bind Coin.live = m.lookup o) (layers : Nat)
    (calls : List Call) (answers : List Answer) (maps : List CoinsView)
    (hplan : planCalls (List.replicate (layers + 1) m) calls = some (answers, maps)) :
    ∃ s' caches,
      runCalls base s (List.replicate layers CCoinsViewCache.fresh) calls =
        .ok (answers, s', caches) ∧
      views base s' caches = maps.map CoinsView.toMap ∧
      StackInv base s' caches := by
  obtain ⟨s', caches, hrun, hrep⟩ := runCalls_refines (represents_fresh hm layers) hplan
  exact ⟨s', caches, hrun, hrep.views_eq, hrep.inv⟩

/-- Two layers: add, spend and add again over a flushed coin, then flush both. -/
def sampleCalls : List Call :=
  let coin : Coin := ⟨⟨5, [0x51]⟩, false, 7, 3⟩
  [.addCoin ⟨1, 0⟩ coin false, .haveCoin 0 ⟨1, 0⟩, .flush 0, .spendCoin ⟨1, 0⟩,
    .getCoin 0 ⟨1, 0⟩, .getCoin 1 ⟨1, 0⟩, .addCoin ⟨1, 0⟩ coin false, .uncache 0 ⟨1, 0⟩,
    .flush 0, .flush 1, .accessCoin 0 ⟨1, 0⟩]

theorem runCalls_eq_planCalls_sample :
    ∃ s' caches,
      runCalls CoinsView.base ∅ (List.replicate 2 CCoinsViewCache.fresh) sampleCalls =
        .ok ([.done, .found true, .done, .coin (some ⟨⟨5, [0x51]⟩, false, 7, 3⟩), .coin none,
          .coin (some ⟨⟨5, [0x51]⟩, false, 7, 3⟩), .done, .done, .done, .done,
          .coin (some ⟨⟨5, [0x51]⟩, false, 7, 3⟩)], s', caches) ∧
      views CoinsView.base s' caches =
        (List.replicate 3 ((∅ : CoinsView).insert ⟨1, 0⟩ ⟨⟨5, [0x51]⟩, false, 7, 3⟩)).map
          CoinsView.toMap ∧
      StackInv CoinsView.base s' caches :=
  runCalls_eq_planCalls CoinsView.base ∅ ∅ (fun _ => rfl) 2 sampleCalls _ _ rfl

end CacheStack

end Verge
