import Mathlib.Data.List.Sort
import Verge.Foundation.Loop
import Verge.Policy

/-!
# Coin selection

`wallet/coinselection.cpp`: the branch and bound search and the knapsack solver.
The pool of coins has no coin twice, so the sets of the source are lists here.
Random choices and the order that `std::sort` leaves among equal coins are
parameters.
-/

namespace Verge

open Foundation List

structure CInputCoin where
  outpoint : COutPoint
  txout : CTxOut
  effective_value : Int
  fee : Int
  long_term_fee : Int
  deriving DecidableEq, Repr

def CInputCoin.ofTxOut (outpoint : COutPoint) (txout : CTxOut) : CInputCoin :=
  ⟨outpoint, txout, txout.nValue, 0, 0⟩

def MIN_CHANGE : Int := CENT

def MIN_FINAL_CHANGE : Int := MIN_CHANGE / 2

/-- How a call can end without a result: with a reason for the user, or in an
assertion or an exception that nobody catches. -/
inductive Halt where
  | fails (strFailReason : String)
  | aborts
  deriving DecidableEq, Repr

structure Selection where
  coins : List CInputCoin
  nValueRet : Int
  deriving DecidableEq, Repr

def coinSum (coins : List CInputCoin) : Int := (coins.map fun coin => coin.txout.nValue).sum

def effectiveSum (coins : List CInputCoin) : Int := (coins.map CInputCoin.effective_value).sum

/-- The outcome of `std::sort` with the comparator `descending`. -/
structure CoinSort where
  sort : List CInputCoin → List CInputCoin
  perm : ∀ coins, (sort coins).Perm coins
  sorted : ∀ coins, (sort coins).Pairwise fun a b => b.effective_value ≤ a.effective_value

structure CoinShuffle where
  shuffle : List CInputCoin → List CInputCoin
  perm : ∀ coins, (shuffle coins).Perm coins

/-! ## Branch and bound -/

def TOTAL_TRIES : Nat := 100000

/-- The search state.  `curr_selection` is `walked` with the last decision first, and
`ahead` is the part of the pool that is not decided. -/
structure BnB where
  walked : List (CInputCoin × Bool)
  ahead : List CInputCoin
  curr_value : Int
  curr_available_value : Int
  curr_waste : Int
  best_selection : List (CInputCoin × Bool)
  best_waste : Int
  /-- Set where `utxo_pool.at` throws. -/
  fThrown : Bool

namespace BnB

def start (utxo_pool : List CInputCoin) : BnB :=
  ⟨[], utxo_pool, 0, effectiveSum utxo_pool, 0, [], MAX_MONEY, false⟩

def chosen (selection : List (CInputCoin × Bool)) : List CInputCoin :=
  (selection.filter Prod.snd).map Prod.fst

def record (actual_target : Int) (s : BnB) : BnB :=
  let waste := s.curr_waste + (s.curr_value - actual_target)
  if waste ≤ s.best_waste then
    { s with
      best_selection := s.walked.reverse ++ s.ahead.map (·, false)
      best_waste := waste }
  else s

/-- Walks back to the last coin that is included: the decisions that stay, the part of
the pool ahead and its value. -/
def walkBack : List (CInputCoin × Bool) → List CInputCoin → Int →
    List (CInputCoin × Bool) × List CInputCoin × Int
  | (utxo, false) :: walked, ahead, curr_available_value =>
    walkBack walked (utxo :: ahead) (curr_available_value + utxo.effective_value)
  | walked, ahead, curr_available_value => (walked, ahead, curr_available_value)

def backtrack (s : BnB) : Pass BnB BnB :=
  match walkBack s.walked s.ahead s.curr_available_value with
  | ([], ahead, curr_available_value) =>
    .done { s with walked := [], ahead, curr_available_value }
  | ((utxo, _) :: walked, ahead, curr_available_value) =>
    .next { s with
      walked := (utxo, false) :: walked
      ahead
      curr_available_value
      curr_value := s.curr_value - utxo.effective_value
      curr_waste := s.curr_waste - (utxo.fee - utxo.long_term_fee) }

def repeatsOmitted (s : BnB) (utxo : CInputCoin) : Bool :=
  match s.walked with
  | (previous, false) :: _ =>
    utxo.effective_value == previous.effective_value && utxo.fee == previous.fee
  | _ => false

def forward (s : BnB) : Pass BnB BnB :=
  match s.ahead with
  | [] => .done { s with fThrown := true }
  | utxo :: ahead =>
    let s' := { s with
      ahead := ahead
      curr_available_value := s.curr_available_value - utxo.effective_value }
    if s.repeatsOmitted utxo then .next { s' with walked := (utxo, false) :: s.walked }
    else
      .next { s' with
        walked := (utxo, true) :: s.walked
        curr_value := s.curr_value + utxo.effective_value
        curr_waste := s.curr_waste + (utxo.fee - utxo.long_term_fee) }

def tryNext (actual_target cost_of_change nFirstWaste : Int) (s : BnB) : Pass BnB BnB :=
  if s.curr_value + s.curr_available_value < actual_target ∨
      actual_target + cost_of_change < s.curr_value ∨
      (s.best_waste < s.curr_waste ∧ 0 < nFirstWaste) then s.backtrack
  else if actual_target ≤ s.curr_value then (s.record actual_target).backtrack
  else s.forward

end BnB

def selectCoinsBnB (order : CoinSort) (utxo_pool : List CInputCoin)
    (target_value cost_of_change not_input_fees : Int) : Except Halt (Option Selection) :=
  let actual_target := not_input_fees + target_value
  if utxo_pool.any fun utxo => decide (utxo.effective_value ≤ 0) then .error .aborts
  else if effectiveSum utxo_pool < actual_target then .ok none
  else
    let utxo_pool := order.sort utxo_pool
    let nFirstWaste := match utxo_pool with
      | [] => 0
      | utxo :: _ => utxo.fee - utxo.long_term_fee
    let s := forLoop (BnB.tryNext actual_target cost_of_change nFirstWaste) TOTAL_TRIES
      (BnB.start utxo_pool)
    if s.fThrown then .error .aborts
    else if s.best_selection.isEmpty then .ok none
    else .ok (some ⟨BnB.chosen s.best_selection, coinSum (BnB.chosen s.best_selection)⟩)

/-! ## Knapsack -/

/-- Coins together with their places in a vector.  A vector of flags is the list of
the places that are set. -/
abbrev Flags := List (CInputCoin × Nat)

def Flags.coins (flags : Flags) : List CInputCoin := flags.map Prod.fst

structure Subset where
  nTotal : Int
  vfIncluded : Flags
  fReachedTarget : Bool
  nBest : Int
  vfBest : Flags

namespace Subset

def tryCoin (nTargetValue : Int) (s : Subset) (coin : CInputCoin × Nat) : Subset :=
  let nTotal := s.nTotal + coin.1.txout.nValue
  let vfIncluded := coin :: s.vfIncluded
  if nTargetValue ≤ nTotal then
    if nTotal < s.nBest then
      { s with fReachedTarget := true, nBest := nTotal, vfBest := vfIncluded }
    else { s with fReachedTarget := true }
  else { s with nTotal := nTotal, vfIncluded := vfIncluded }

def firstPass (randbool : Nat → Bool) (nTargetValue : Int) (s : Subset) (vValue : Flags) : Subset :=
  vValue.foldl (fun s coin => if randbool coin.2 then s.tryCoin nTargetValue coin else s) s

def secondPass (nTargetValue : Int) (s : Subset) (vValue : Flags) : Subset :=
  vValue.foldl
    (fun s coin => if !s.vfIncluded.contains coin then s.tryCoin nTargetValue coin else s) s

def repetition (randbool : Nat → Bool) (nTargetValue : Int) (vValue : Flags)
    (best : Int × Flags) : Int × Flags :=
  let s := firstPass randbool nTargetValue ⟨0, [], false, best.1, best.2⟩ vValue
  let s := if s.fReachedTarget then s else secondPass nTargetValue s vValue
  (s.nBest, s.vfBest)

end Subset

def approximateBestSubset (randbool : Nat → Nat → Bool) (vValue : List CInputCoin)
    (nTotalLower nTargetValue : Int) (iterations : Nat) : Int × Flags :=
  (forLoop (fun (s : Nat × (Int × Flags)) =>
      if s.2.1 = nTargetValue then .done s
      else .next (s.1 + 1, Subset.repetition (randbool s.1) nTargetValue vValue.zipIdx s.2))
    iterations (0, (nTotalLower, vValue.zipIdx))).2

structure KnapsackRandom where
  shuffle : CoinShuffle
  order : CoinSort
  randbool : Nat → Nat → Bool
  randbool' : Nat → Nat → Bool

inductive KnapsackScan where
  | exact (coin : CInputCoin)
  | lower (coinLowestLarger : Option CInputCoin) (vValue : List CInputCoin)

def knapsackScan (nTargetValue : Int) :
    List CInputCoin → Option CInputCoin → List CInputCoin → KnapsackScan
  | [], coinLowestLarger, vValue => .lower coinLowestLarger vValue
  | coin :: vCoins, coinLowestLarger, vValue =>
    if coin.txout.nValue = nTargetValue then .exact coin
    else if coin.txout.nValue < nTargetValue + MIN_CHANGE then
      knapsackScan nTargetValue vCoins coinLowestLarger (vValue ++ [coin])
    else if coinLowestLarger.all fun larger => decide (coin.txout.nValue < larger.txout.nValue)
      then knapsackScan nTargetValue vCoins (some coin) vValue
    else knapsackScan nTargetValue vCoins coinLowestLarger vValue

/-- The end of `KnapsackSolver`: the bigger coin where it is closer. -/
def closerSelection (nTargetValue : Int) (coinLowestLarger : Option CInputCoin)
    (best : Int × Flags) : Selection :=
  match coinLowestLarger with
  | some larger =>
    if (best.1 ≠ nTargetValue ∧ best.1 < nTargetValue + MIN_CHANGE) ∨
        larger.txout.nValue ≤ best.1 then ⟨[larger], larger.txout.nValue⟩
    else ⟨best.2.coins, coinSum best.2.coins⟩
  | none => ⟨best.2.coins, coinSum best.2.coins⟩

def knapsackSolver (random : KnapsackRandom) (nTargetValue : Int) (vCoins : List CInputCoin) :
    Option Selection :=
  match knapsackScan nTargetValue (random.shuffle.shuffle vCoins) none [] with
  | .exact coin => some ⟨[coin], coin.txout.nValue⟩
  | .lower coinLowestLarger vValue =>
    let nTotalLower := coinSum vValue
    if nTotalLower = nTargetValue then some ⟨vValue, nTotalLower⟩
    else if nTotalLower < nTargetValue then
      coinLowestLarger.map fun larger => ⟨[larger], larger.txout.nValue⟩
    else
      let vValue := random.order.sort vValue
      let best := approximateBestSubset random.randbool vValue nTotalLower nTargetValue 1000
      let best :=
        if best.1 ≠ nTargetValue ∧ nTargetValue + MIN_CHANGE ≤ nTotalLower then
          approximateBestSubset random.randbool' vValue nTotalLower
            (nTargetValue + MIN_CHANGE) 1000
        else best
      some (closerSelection nTargetValue coinLowestLarger best)

/-! ## What the searches return -/

@[simp] theorem coinSum_nil : coinSum [] = 0 := rfl

@[simp] theorem coinSum_cons (coin : CInputCoin) (coins : List CInputCoin) :
    coinSum (coin :: coins) = coin.txout.nValue + coinSum coins := by
  simp [coinSum]

@[simp] theorem coinSum_append (coins coins' : List CInputCoin) :
    coinSum (coins ++ coins') = coinSum coins + coinSum coins' := by
  simp [coinSum]

theorem coinSum_perm {coins coins' : List CInputCoin} (h : coins.Perm coins') :
    coinSum coins = coinSum coins' :=
  (h.map _).sum_eq

@[simp] theorem effectiveSum_nil : effectiveSum [] = 0 := rfl

@[simp] theorem effectiveSum_cons (coin : CInputCoin) (coins : List CInputCoin) :
    effectiveSum (coin :: coins) = coin.effective_value + effectiveSum coins := by
  simp [effectiveSum]

namespace BnB

section

variable (coin : CInputCoin) (selection : List (CInputCoin × Bool))

@[simp] theorem chosen_cons_true : chosen ((coin, true) :: selection) = coin :: chosen selection := rfl

@[simp] theorem chosen_cons_false : chosen ((coin, false) :: selection) = chosen selection := rfl

theorem chosen_sublist : (chosen selection).Sublist (selection.map Prod.fst) := filter_sublist.map _

end

structure Sound (utxo_pool : List CInputCoin) (actual_target : Int) (s : BnB) : Prop where
  pool : (s.walked.map Prod.fst).reverse ++ s.ahead = utxo_pool
  value : s.curr_value = effectiveSum (chosen s.walked)
  available : s.curr_available_value = effectiveSum s.ahead
  best : s.best_selection = [] ∨ (s.best_selection.map Prod.fst = utxo_pool ∧
    actual_target ≤ effectiveSum (chosen s.best_selection))
  thrown : s.fThrown = false

variable {utxo_pool : List CInputCoin} {actual_target : Int}

theorem Sound.start (utxo_pool : List CInputCoin) (actual_target : Int) :
    (BnB.start utxo_pool).Sound utxo_pool actual_target :=
  ⟨rfl, rfl, rfl, .inl rfl, rfl⟩

theorem walkBack_spec (walked : List (CInputCoin × Bool)) (ahead : List CInputCoin) :
    ∃ walked' ahead', walkBack walked ahead (effectiveSum ahead) =
        (walked', ahead', effectiveSum ahead') ∧
      (walked'.map Prod.fst).reverse ++ ahead' = (walked.map Prod.fst).reverse ++ ahead ∧
      chosen walked' = chosen walked ∧ ∀ utxo walked'', walked' ≠ (utxo, false) :: walked'' := by
  induction walked generalizing ahead with
  | nil => exact ⟨[], ahead, rfl, rfl, rfl, by simp⟩
  | cons decision walked ih =>
    obtain ⟨utxo, included⟩ := decision
    cases included with
    | true => exact ⟨_, ahead, rfl, rfl, rfl, by simp⟩
    | false =>
      obtain ⟨walked', ahead', hwalk, hpool, hchosen, hlast⟩ := ih (utxo :: ahead)
      refine ⟨walked', ahead', ?_, ?_, hchosen, hlast⟩
      · rw [walkBack, Int.add_comm, ← effectiveSum_cons, hwalk]
      · rw [hpool]
        simp

variable {s s' : BnB} (hs : s.Sound utxo_pool actual_target)

include hs

theorem Sound.backtrack (h : s.backtrack = .next s' ∨ s.backtrack = .done s') :
    s'.Sound utxo_pool actual_target := by
  obtain ⟨walked, ahead, hwalk, hpool, hchosen, hlast⟩ := walkBack_spec s.walked s.ahead
  rw [← hs.available] at hwalk
  unfold BnB.backtrack at h
  rw [hwalk] at h
  match walked, hlast with
  | [], _ =>
    rcases h with h | h
    · cases h
    · obtain rfl := Pass.done.inj h
      exact ⟨hpool.trans hs.pool, hs.value.trans (by rw [← hchosen]), rfl, hs.best, hs.thrown⟩
  | (utxo, true) :: walked, _ =>
    rcases h with h | h
    · obtain rfl := Pass.next.inj h
      refine ⟨hpool.trans hs.pool, ?_, rfl, hs.best, hs.thrown⟩
      have hvalue := hs.value
      rw [← hchosen, chosen_cons_true, effectiveSum_cons] at hvalue
      simp only [chosen_cons_false]
      omega
    · cases h
  | (utxo, false) :: walked, hlast => exact absurd rfl (hlast utxo walked)

theorem Sound.record (h : actual_target ≤ s.curr_value) :
    (s.record actual_target).Sound utxo_pool actual_target := by
  unfold BnB.record
  simp only
  split
  case isFalse => exact hs
  case isTrue =>
    refine ⟨hs.pool, hs.value, hs.available, .inr ⟨?_, ?_⟩, hs.thrown⟩
    · have hahead : (s.ahead.map (·, false)).map Prod.fst = s.ahead := by
        rw [map_map]
        exact map_id _
      rw [map_append, map_reverse, hahead]
      exact hs.pool
    · have hahead : chosen (s.ahead.map (·, false)) = [] := by
        simp [chosen, filter_map]
      have hchosen : chosen (s.walked.reverse ++ s.ahead.map (·, false)) =
          (chosen s.walked).reverse := by
        rw [show chosen (s.walked.reverse ++ s.ahead.map (·, false)) =
          chosen s.walked.reverse ++ chosen (s.ahead.map (·, false)) by simp [chosen], hahead]
        simp [chosen]
      have hsum : effectiveSum (chosen s.walked).reverse = effectiveSum (chosen s.walked) := by
        simp [effectiveSum]
      rw [hchosen, hsum, ← hs.value]
      exact h

theorem Sound.forward (hreach : actual_target ≤ s.curr_value + s.curr_available_value)
    (hbelow : s.curr_value < actual_target) (h : s.forward = .next s' ∨ s.forward = .done s') :
    s'.Sound utxo_pool actual_target := by
  have havailable := hs.available
  have hpool := hs.pool
  unfold BnB.forward at h
  match hahead : s.ahead with
  | [] =>
    -- nothing is left, so the value cannot still be below the target
    rw [hahead, effectiveSum_nil] at havailable
    omega
  | utxo :: ahead =>
    rw [hahead] at h havailable hpool
    rw [effectiveSum_cons] at havailable
    simp only at h
    have hpool' : (utxo :: s.walked.map Prod.fst).reverse ++ ahead = utxo_pool := by
      rw [reverse_cons, append_assoc]
      exact hpool
    split at h
    · rcases h with h | h
      · obtain rfl := Pass.next.inj h
        exact ⟨hpool', hs.value, by simp only; omega, hs.best, hs.thrown⟩
      · cases h
    · rcases h with h | h
      · obtain rfl := Pass.next.inj h
        refine ⟨hpool', ?_, by simp only; omega, hs.best, hs.thrown⟩
        simp only [chosen_cons_true, effectiveSum_cons, hs.value]
        omega
      · cases h

theorem Sound.tryNext {cost_of_change nFirstWaste : Int}
    (h : s.tryNext actual_target cost_of_change nFirstWaste = .next s' ∨
      s.tryNext actual_target cost_of_change nFirstWaste = .done s') :
    s'.Sound utxo_pool actual_target := by
  unfold BnB.tryNext at h
  split at h
  case isTrue => exact hs.backtrack h
  case isFalse hgo =>
    split at h
    case isTrue hreached => exact (hs.record hreached).backtrack h
    case isFalse hbelow =>
      refine hs.forward ?_ (not_le.mp hbelow) h
      exact not_lt.mp fun hlt => hgo (.inl hlt)

end BnB

theorem selectCoinsBnB_spec (order : CoinSort) {utxo_pool : List CInputCoin}
    (target_value cost_of_change not_input_fees : Int)
    (hpos : ∀ utxo ∈ utxo_pool, 0 < utxo.effective_value) :
    ∃ found, selectCoinsBnB order utxo_pool target_value cost_of_change not_input_fees = .ok found ∧
      ∀ selection ∈ found, selection.coins.Subperm utxo_pool ∧
        selection.nValueRet = coinSum selection.coins ∧
        not_input_fees + target_value ≤ effectiveSum selection.coins := by
  unfold selectCoinsBnB
  have hassert : (utxo_pool.any fun utxo => decide (utxo.effective_value ≤ 0)) = false := by
    simpa using hpos
  simp only [hassert, Bool.false_eq_true, if_false]
  split
  case isTrue => exact ⟨none, rfl, by simp⟩
  case isFalse =>
    set nFirstWaste : Int := match order.sort utxo_pool with
      | [] => 0
      | utxo :: _ => utxo.fee - utxo.long_term_fee
    have hsound := forLoop_invariant
      (BnB.tryNext (not_input_fees + target_value) cost_of_change nFirstWaste)
      (fun s s' hs h => BnB.Sound.tryNext hs h) TOTAL_TRIES
      (BnB.Sound.start (order.sort utxo_pool) (not_input_fees + target_value))
    set s := forLoop (BnB.tryNext (not_input_fees + target_value) cost_of_change nFirstWaste)
      TOTAL_TRIES (BnB.start (order.sort utxo_pool))
    rw [hsound.thrown, if_neg (by decide)]
    split
    case isTrue => exact ⟨none, rfl, by simp⟩
    case isFalse hbest =>
      refine ⟨some _, rfl, ?_⟩
      rintro selection ⟨⟩
      rcases hsound.best with hempty | ⟨hpool, htarget⟩
      · simp [hempty] at hbest
      · refine ⟨?_, rfl, htarget⟩
        have hsub := BnB.chosen_sublist s.best_selection
        rw [hpool] at hsub
        exact hsub.subperm.trans (order.perm utxo_pool).subperm

namespace Subset

/-- What holds between two coins: both vectors of flags name coins of the pool at
most once, with their sums, and the best one reaches the target. -/
structure Sound (vValue : Flags) (nTargetValue : Int) (s : Subset) : Prop where
  nodup : s.vfIncluded.Nodup
  subset : ∀ coin ∈ s.vfIncluded, coin ∈ vValue
  total : s.nTotal = coinSum s.vfIncluded.coins
  best_nodup : s.vfBest.Nodup
  best_subset : ∀ coin ∈ s.vfBest, coin ∈ vValue
  best_total : s.nBest = coinSum s.vfBest.coins
  best_reaches : nTargetValue ≤ s.nBest

variable {vValue : Flags} {nTargetValue : Int}

theorem Sound.tryCoin {s : Subset} (hs : s.Sound vValue nTargetValue) {coin : CInputCoin × Nat}
    (hmem : coin ∈ vValue) (hnew : coin ∉ s.vfIncluded) :
    (s.tryCoin nTargetValue coin).Sound vValue nTargetValue := by
  have hnodup : (coin :: s.vfIncluded).Nodup := nodup_cons.mpr ⟨hnew, hs.nodup⟩
  have hsubset : ∀ coin' ∈ coin :: s.vfIncluded, coin' ∈ vValue :=
    forall_mem_cons.mpr ⟨hmem, hs.subset⟩
  have htotal : s.nTotal + coin.1.txout.nValue = coinSum (Flags.coins (coin :: s.vfIncluded)) := by
    simp only [Flags.coins, map_cons, coinSum_cons, hs.total]
    omega
  unfold Subset.tryCoin
  simp only
  split
  case isTrue hreached =>
    split
    · exact ⟨hs.nodup, hs.subset, hs.total, hnodup, hsubset, htotal, hreached⟩
    · exact ⟨hs.nodup, hs.subset, hs.total, hs.best_nodup, hs.best_subset, hs.best_total,
        hs.best_reaches⟩
  case isFalse =>
    exact ⟨hnodup, hsubset, htotal, hs.best_nodup, hs.best_subset, hs.best_total, hs.best_reaches⟩

theorem mem_tryCoin {s : Subset} {coin coin' : CInputCoin × Nat}
    (h : coin' ∈ (s.tryCoin nTargetValue coin).vfIncluded) :
    coin' = coin ∨ coin' ∈ s.vfIncluded := by
  unfold Subset.tryCoin at h
  simp only at h
  split at h
  · split at h <;> exact .inr h
  · exact mem_cons.mp h

theorem Sound.firstPass (randbool : Nat → Bool) {rest : Flags} :
    ∀ {s : Subset}, s.Sound vValue nTargetValue → rest.Nodup → (∀ coin ∈ rest, coin ∈ vValue) →
      (∀ coin ∈ rest, coin ∉ s.vfIncluded) →
      (s.firstPass randbool nTargetValue rest).Sound vValue nTargetValue := by
  induction rest with
  | nil => exact fun hs _ _ _ => hs
  | cons coin rest ih =>
    intro s hs hnodup hsubset hnew
    obtain ⟨hcoin, hnodup⟩ := nodup_cons.mp hnodup
    obtain ⟨hmem, hsubset⟩ := forall_mem_cons.mp hsubset
    obtain ⟨hcoinNew, hnew⟩ := forall_mem_cons.mp hnew
    rw [Subset.firstPass, foldl_cons]
    split
    · refine ih (hs.tryCoin hmem hcoinNew) hnodup hsubset fun coin' hcoin' hin => ?_
      rcases mem_tryCoin hin with rfl | hin
      · exact hcoin hcoin'
      · exact hnew coin' hcoin' hin
    · exact ih hs hnodup hsubset hnew

theorem Sound.secondPass {rest : Flags} :
    ∀ {s : Subset}, s.Sound vValue nTargetValue → (∀ coin ∈ rest, coin ∈ vValue) →
      (s.secondPass nTargetValue rest).Sound vValue nTargetValue := by
  induction rest with
  | nil => exact fun hs _ => hs
  | cons coin rest ih =>
    intro s hs hsubset
    obtain ⟨hmem, hsubset⟩ := forall_mem_cons.mp hsubset
    rw [Subset.secondPass, foldl_cons]
    split
    case isTrue hnew => exact ih (hs.tryCoin hmem (by simpa using hnew)) hsubset
    case isFalse => exact ih hs hsubset

/-- A vector of flags that names coins of the pool once and reaches the target. -/
def Reaches (vValue : Flags) (nTargetValue : Int) (best : Int × Flags) : Prop :=
  best.2.Nodup ∧ (∀ coin ∈ best.2, coin ∈ vValue) ∧ best.1 = coinSum best.2.coins ∧
    nTargetValue ≤ best.1

theorem Reaches.repetition {randbool : Nat → Bool} {best : Int × Flags} (hvalue : vValue.Nodup)
    (h : Reaches vValue nTargetValue best) :
    Reaches vValue nTargetValue (Subset.repetition randbool nTargetValue vValue best) := by
  obtain ⟨hnodup, hsubset, htotal, hreaches⟩ := h
  have hstart : Sound vValue nTargetValue ⟨0, [], false, best.1, best.2⟩ :=
    ⟨nodup_nil, by simp, rfl, hnodup, hsubset, htotal, hreaches⟩
  have hfirst := hstart.firstPass randbool hvalue (fun _ h => h) (by simp)
  unfold Subset.repetition
  simp only
  split
  · exact ⟨hfirst.best_nodup, hfirst.best_subset, hfirst.best_total, hfirst.best_reaches⟩
  · have hsecond := hfirst.secondPass fun (_ : CInputCoin × Nat) h => h
    exact ⟨hsecond.best_nodup, hsecond.best_subset, hsecond.best_total, hsecond.best_reaches⟩

end Subset

theorem nodup_zipIdx (coins : List CInputCoin) : coins.zipIdx.Nodup :=
  List.Nodup.of_map Prod.snd (by simp [nodup_range'])

variable {nTargetValue : Int} {best : Int × Flags} {vCoins : List CInputCoin}

theorem approximateBestSubset_spec (randbool : Nat → Nat → Bool) {vValue : List CInputCoin}
    (iterations : Nat) (h : nTargetValue ≤ coinSum vValue) :
    Subset.Reaches vValue.zipIdx nTargetValue
      (approximateBestSubset randbool vValue (coinSum vValue) nTargetValue iterations) := by
  unfold approximateBestSubset
  refine forLoop_invariant _
    (I := fun s : Nat × (Int × Flags) => Subset.Reaches vValue.zipIdx nTargetValue s.2) ?_ iterations ?_
  · rintro s s' hs hstep
    split at hstep
    · rcases hstep with hstep | hstep
      · cases hstep
      · obtain rfl := Pass.done.inj hstep
        exact hs
    · rcases hstep with hstep | hstep
      · obtain rfl := Pass.next.inj hstep
        exact hs.repetition (nodup_zipIdx vValue)
      · cases hstep
  · refine ⟨nodup_zipIdx vValue, fun _ h => h, ?_, h⟩
    simp [Flags.coins]

theorem Subset.Reaches.subperm {vValue : List CInputCoin}
    (h : Subset.Reaches vValue.zipIdx nTargetValue best) :
    best.2.coins.Subperm vValue := by
  obtain ⟨flags, hperm, hsub⟩ := subperm_of_subset h.1 h.2.1
  have hcoins := hsub.map Prod.fst
  rw [zipIdx_map_fst] at hcoins
  exact ⟨flags.map Prod.fst, hperm.map Prod.fst, hcoins⟩

structure Selection.Reaches (vCoins : List CInputCoin) (nTargetValue : Int)
    (selection : Selection) : Prop where
  subperm : selection.coins.Subperm vCoins
  total : selection.nValueRet = coinSum selection.coins
  reaches : nTargetValue ≤ selection.nValueRet

inductive KnapsackScan.Sound (nTargetValue : Int) (vCoins : List CInputCoin) :
    KnapsackScan → Prop where
  | exact {coin} (hmem : coin ∈ vCoins) (hvalue : coin.txout.nValue = nTargetValue) :
      Sound nTargetValue vCoins (.exact coin)
  | lower {coinLowestLarger vValue} (hsub : vValue.Sublist vCoins)
      (hlarger : ∀ larger ∈ coinLowestLarger, larger ∈ vCoins ∧
        nTargetValue + MIN_CHANGE ≤ larger.txout.nValue) :
      Sound nTargetValue vCoins (.lower coinLowestLarger vValue)

theorem knapsackScan_sound {scanned : List CInputCoin} :
    ∀ {coinLowestLarger : Option CInputCoin} {vValue : List CInputCoin},
      vValue.Sublist scanned →
      (∀ larger ∈ coinLowestLarger, larger ∈ scanned ∧
        nTargetValue + MIN_CHANGE ≤ larger.txout.nValue) →
      (knapsackScan nTargetValue vCoins coinLowestLarger vValue).Sound nTargetValue
        (scanned ++ vCoins) := by
  induction vCoins generalizing scanned with
  | nil =>
    intro coinLowestLarger vValue hsub hlarger
    rw [append_nil]
    exact .lower hsub hlarger
  | cons coin vCoins ih =>
    intro coinLowestLarger vValue hsub hlarger
    have hskip : vValue.Sublist (scanned ++ [coin]) := hsub.trans (sublist_append_left _ _)
    have hlarger' : ∀ larger ∈ coinLowestLarger, larger ∈ scanned ++ [coin] ∧
        nTargetValue + MIN_CHANGE ≤ larger.txout.nValue := fun larger h =>
      ⟨mem_append_left _ (hlarger larger h).1, (hlarger larger h).2⟩
    rw [append_cons]
    unfold knapsackScan
    split
    case isTrue hvalue => exact .exact (by simp) hvalue
    case isFalse =>
      split
      case isTrue => exact ih (hsub.append (List.Sublist.refl _)) hlarger'
      case isFalse hlarge =>
        split
        case isTrue =>
          refine ih hskip ?_
          rintro larger ⟨⟩
          exact ⟨by simp, not_lt.mp hlarge⟩
        case isFalse => exact ih hskip hlarger'

theorem coinSum_singleton (coin : CInputCoin) : coinSum [coin] = coin.txout.nValue := by simp

theorem singleton_reaches {coin : CInputCoin} (hmem : coin ∈ vCoins)
    (h : nTargetValue ≤ coin.txout.nValue) :
    Selection.Reaches vCoins nTargetValue ⟨[coin], coin.txout.nValue⟩ :=
  ⟨singleton_subperm_iff.mpr hmem, (coinSum_singleton coin).symm, h⟩

theorem closerSelection_reaches {coinLowestLarger : Option CInputCoin}
    (hbigger : ∀ larger ∈ coinLowestLarger,
      Selection.Reaches vCoins nTargetValue ⟨[larger], larger.txout.nValue⟩)
    (hbest : best.2.coins.Subperm vCoins ∧ best.1 = coinSum best.2.coins ∧ nTargetValue ≤ best.1) :
    (closerSelection nTargetValue coinLowestLarger best).Reaches vCoins nTargetValue := by
  obtain ⟨hsub, htotal, hreaches⟩ := hbest
  have hsubset : Selection.Reaches vCoins nTargetValue ⟨best.2.coins, coinSum best.2.coins⟩ :=
    ⟨hsub, rfl, hreaches.trans htotal.le⟩
  unfold closerSelection
  split
  case h_1 larger =>
    split
    · exact hbigger larger rfl
    · exact hsubset
  case h_2 => exact hsubset

theorem knapsackScan_eq_lower_none :
    ∀ {coinLowestLarger : Option CInputCoin} {vValue vValue' : List CInputCoin},
      knapsackScan nTargetValue vCoins coinLowestLarger vValue = .lower none vValue' →
      coinLowestLarger = none ∧ vValue' = vValue ++ vCoins ∧
        ∀ coin ∈ vCoins, coin.txout.nValue < nTargetValue + MIN_CHANGE := by
  induction vCoins with
  | nil =>
    intro coinLowestLarger vValue vValue' h
    cases h
    simp
  | cons coin vCoins ih =>
    intro coinLowestLarger vValue vValue' h
    unfold knapsackScan at h
    split at h
    · cases h
    split at h
    case isTrue hsmall =>
      obtain ⟨hnone, hvalue, hall⟩ := ih h
      exact ⟨hnone, by simp [hvalue], forall_mem_cons.mpr ⟨hsmall, hall⟩⟩
    case isFalse =>
      split at h
      · cases (ih h).1
      case isFalse hlarger =>
        obtain ⟨rfl, -⟩ := ih h
        simp at hlarger

/-- The value is the target or leaves room for change, unless no coin and not even all
of them do. -/
def Careful (vCoins : List CInputCoin) (nTargetValue nValueRet : Int) : Prop :=
  nValueRet = nTargetValue ∨ nTargetValue + MIN_CHANGE ≤ nValueRet ∨
    (∀ coin ∈ vCoins, coin.txout.nValue < nTargetValue + MIN_CHANGE) ∧
      coinSum vCoins < nTargetValue + MIN_CHANGE

theorem closerSelection_careful {coinLowestLarger : Option CInputCoin}
    (hbigger : ∀ larger ∈ coinLowestLarger, nTargetValue + MIN_CHANGE ≤ larger.txout.nValue)
    (htotal : best.1 = coinSum best.2.coins)
    (hbest : coinLowestLarger = none → Careful vCoins nTargetValue best.1) :
    Careful vCoins nTargetValue (closerSelection nTargetValue coinLowestLarger best).nValueRet := by
  unfold closerSelection
  split
  case h_1 larger =>
    split
    · exact .inr (.inl (hbigger larger rfl))
    case isFalse hcloser =>
      obtain ⟨hfar, -⟩ := not_or.mp hcloser
      rw [not_and_or, not_not, not_lt] at hfar
      rw [← htotal]
      exact hfar.imp_right .inl
  case h_2 =>
    rw [← htotal]
    exact hbest rfl

theorem knapsackSolver_spec {random : KnapsackRandom} {selection : Selection}
    (h : knapsackSolver random nTargetValue vCoins = some selection) :
    selection.Reaches vCoins nTargetValue ∧
      Careful vCoins nTargetValue selection.nValueRet := by
  have hperm := random.shuffle.perm vCoins
  have hmin : 0 ≤ MIN_CHANGE := by decide
  have hscan : (knapsackScan nTargetValue (random.shuffle.shuffle vCoins) none []).Sound
      nTargetValue ([] ++ random.shuffle.shuffle vCoins) :=
    knapsackScan_sound (List.Sublist.refl []) (by simp)
  rw [nil_append] at hscan
  unfold knapsackSolver at h
  cases hscan' : knapsackScan nTargetValue (random.shuffle.shuffle vCoins) none [] with
  | exact coin =>
    rw [hscan'] at h hscan
    cases hscan with
    | exact hmem hvalue =>
      obtain rfl := Option.some.inj h
      exact ⟨singleton_reaches (hperm.mem_iff.mp hmem) hvalue.ge, .inl hvalue⟩
  | lower coinLowestLarger vValue =>
    rw [hscan'] at h hscan
    cases hscan with
    | lower hsub hlarger =>
      have hvalue : vValue.Subperm vCoins := hsub.subperm.trans hperm.subperm
      have hbigger : ∀ larger ∈ coinLowestLarger,
          Selection.Reaches vCoins nTargetValue ⟨[larger], larger.txout.nValue⟩ := by
        intro larger hmem
        obtain ⟨hin, hle⟩ := hlarger larger hmem
        exact singleton_reaches (hperm.mem_iff.mp hin) (by omega)
      simp only at h
      split at h
      case isTrue heq =>
        obtain rfl := Option.some.inj h
        exact ⟨⟨hvalue, rfl, heq.ge⟩, .inl heq⟩
      case isFalse =>
        split at h
        case isTrue =>
          obtain ⟨larger, hmem, rfl⟩ := Option.map_eq_some_iff.mp h
          exact ⟨hbigger larger hmem, .inr (.inl (hlarger larger hmem).2)⟩
        case isFalse hlower =>
          obtain rfl := Option.some.inj h
          have hsort := random.order.perm vValue
          rw [← coinSum_perm hsort] at hlower ⊢
          have hsorted := hsort.subperm.trans hvalue
          split
          case isTrue htotal =>
            have hbest := approximateBestSubset_spec random.randbool' 1000 htotal.2
            refine ⟨closerSelection_reaches hbigger ⟨?_, hbest.2.2.1, ?_⟩,
              closerSelection_careful (fun larger hmem => (hlarger larger hmem).2) hbest.2.2.1
                fun _ => .inr (.inl hbest.2.2.2)⟩
            · exact hbest.subperm.trans hsorted
            · exact (by omega : nTargetValue ≤ nTargetValue + MIN_CHANGE).trans hbest.2.2.2
          case isFalse honce =>
            have hbest := approximateBestSubset_spec random.randbool 1000 (not_lt.mp hlower)
            refine ⟨closerSelection_reaches hbigger
              ⟨hbest.subperm.trans hsorted, hbest.2.2.1, hbest.2.2.2⟩,
              closerSelection_careful (fun larger hmem => (hlarger larger hmem).2) hbest.2.2.1 ?_⟩
            rintro rfl
            obtain ⟨-, rfl, hsmall⟩ := knapsackScan_eq_lower_none hscan'
            rw [not_and_or, not_not, not_le] at honce
            refine honce.imp_right fun htotal =>
              .inr ⟨fun coin hmem => hsmall coin (hperm.mem_iff.mpr hmem), ?_⟩
            rwa [coinSum_perm hsort, nil_append, coinSum_perm hperm] at htotal

theorem coinSum_le_of_subperm {coins : List CInputCoin} (h : coins.Subperm vCoins)
    (hpos : ∀ coin ∈ vCoins, 0 < coin.txout.nValue) : coinSum coins ≤ coinSum vCoins := by
  obtain ⟨coins', hperm, hsub⟩ := h
  rw [← coinSum_perm hperm]
  refine (hsub.map _).sum_le_sum fun value hvalue => ?_
  obtain ⟨coin, hmem, rfl⟩ := mem_map.mp hvalue
  exact (hpos coin hmem).le

/-- The sum as `CAmount`, a signed number of 64 bits, adds it up. -/
def wrappedSum (coins : List CInputCoin) : Int :=
  coins.foldl (fun total coin => (total + coin.txout.nValue).bmod (2 ^ 64)) 0

theorem wrappedSum_eq_coinSum {coins : List CInputCoin}
    (hpos : ∀ coin ∈ coins, 0 < coin.txout.nValue) (hbound : coinSum coins < 2 ^ 63) :
    wrappedSum coins = coinSum coins := by
  have hfold : ∀ total, 0 ≤ total → total + coinSum coins < 2 ^ 63 →
      coins.foldl (fun total coin => (total + coin.txout.nValue).bmod (2 ^ 64)) total =
        total + coinSum coins := by
    clear hbound
    induction coins with
    | nil => simp
    | cons coin coins ih =>
      intro total hlow hhigh
      obtain ⟨hcoin, hpos⟩ := forall_mem_cons.mp hpos
      have hrest := coinSum_le_of_subperm nil_subperm hpos
      rw [coinSum_nil] at hrest
      rw [coinSum_cons] at hhigh ⊢
      rw [foldl_cons, Int.bmod_eq_of_le (by omega) (by omega), ih hpos _ (by omega) (by omega)]
      omega
  exact (hfold 0 le_rfl (by omega)).trans (Int.zero_add _)

def CoinSort.insertion : CoinSort where
  sort := List.insertionSort (Order.Preimage CInputCoin.effective_value (· ≥ ·))
  perm := List.perm_insertionSort _
  sorted := List.pairwise_insertionSort _

end Verge
