import Verge.Wallet.CoinSelection

/-!
# Selecting the inputs of a payment

`SelectCoinsMinConf` and `SelectCoins` of `wallet/wallet.cpp`: which outputs of the
wallet may be spent, in which order the rules for that are relaxed, and the inputs
that coin control asks for.
-/

namespace Verge

open List

/-- `COutput`, with what `OutputEligibleForSpending` asks the wallet and the pool
about its transaction. -/
structure COutput where
  outpoint : COutPoint
  txout : CTxOut
  nDepth : Int
  nInputBytes : Int
  fSpendable : Bool
  fFromMe : Bool
  ancestors : Nat
  descendants : Nat
  deriving DecidableEq, Repr

namespace COutput

def coin (output : COutput) : CInputCoin := .ofTxOut output.outpoint output.txout

end COutput

structure CoinEligibilityFilter where
  conf_mine : Int
  conf_theirs : Int
  max_ancestors : Nat
  max_descendants : Nat
  deriving DecidableEq, Repr

def outputEligibleForSpending (output : COutput) (eligibility_filter : CoinEligibilityFilter) :
    Bool :=
  if !output.fSpendable then false
  else if output.nDepth <
      (if output.fFromMe then eligibility_filter.conf_mine else eligibility_filter.conf_theirs) then
    false
  else if eligibility_filter.max_ancestors < output.ancestors ∨
      eligibility_filter.max_descendants < output.descendants then false
  else true

/-- The size of a spend of the change is what `CalculateMaximumSignedInputSize`
returns, which is negative where the wallet cannot sign for the change. -/
structure CoinSelectionParams where
  use_bnb : Bool
  change_output_size : Nat
  change_spend_size : Int
  effective_fee : CFeeRate
  tx_noinputs_size : Nat

structure SelectRandom where
  knapsack : KnapsackRandom
  order : CoinSort

def inputFee (rate : CFeeRate) (nInputBytes : Int) : Int :=
  if nInputBytes < 0 then 0 else rate.getFee nInputBytes.toNat

/-- The coin for the branch and bound search, unless spending it costs its value. -/
def effectiveCoin (effective_fee long_term_feerate : CFeeRate) (output : COutput) :
    Option CInputCoin :=
  let fee := inputFee effective_fee output.nInputBytes
  if 0 < output.txout.nValue - fee then
    some ⟨output.outpoint, output.txout, output.txout.nValue - fee, fee,
      inputFee long_term_feerate output.nInputBytes⟩
  else none

/-- `SelectCoinsMinConf`.  A negative size of the change's spend becomes a huge
`size_t`, which fails the assertion of `GetFee`. -/
def selectCoinsMinConf (random : SelectRandom) (long_term_feerate : CFeeRate) (nTargetValue : Int)
    (eligibility_filter : CoinEligibilityFilter) (vCoins : List COutput)
    (params : CoinSelectionParams) : Except Halt (Option Selection) :=
  let eligible := vCoins.filter (outputEligibleForSpending · eligibility_filter)
  if params.use_bnb then
    if params.change_spend_size < 0 then .error .aborts
    else
      let cost_of_change := dustRelayFee.getFee params.change_spend_size.toNat +
        params.effective_fee.getFee params.change_output_size
      selectCoinsBnB random.order
        (eligible.filterMap (effectiveCoin params.effective_fee long_term_feerate))
        nTargetValue cost_of_change (params.effective_fee.getFee params.tx_noinputs_size)
  else .ok (knapsackSolver random.knapsack nTargetValue (eligible.map COutput.coin))

structure CoinControl where
  setSelected : List COutPoint
  nodup : setSelected.Nodup
  fAllowOtherInputs : Bool

structure SpendLimits where
  m_spend_zero_conf_change : Bool
  max_ancestors : Nat
  max_descendants : Nat
  fRejectLongChains : Bool

def eligibilityFilters (limits : SpendLimits) : List CoinEligibilityFilter :=
  [⟨1, 6, 0, 0⟩, ⟨1, 1, 0, 0⟩] ++
    if limits.m_spend_zero_conf_change then
      [⟨0, 1, 2, 2⟩,
        ⟨0, 1, min 4 (limits.max_ancestors / 3), min 4 (limits.max_descendants / 3)⟩,
        ⟨0, 1, limits.max_ancestors / 2, limits.max_descendants / 2⟩,
        ⟨0, 1, limits.max_ancestors - 1, limits.max_descendants - 1⟩] ++
      if limits.fRejectLongChains then []
      else [⟨0, 1, 18446744073709551615, 18446744073709551615⟩]
    else []

def firstSelection (select : Nat → CoinEligibilityFilter → Except Halt (Option Selection)) :
    List (CoinEligibilityFilter × Nat) → Except Halt (Option Selection)
  | [] => .ok none
  | (eligibility_filter, i) :: rest =>
    match select i eligibility_filter with
    | .error halt => .error halt
    | .ok (some selection) => .ok (some selection)
    | .ok none => firstSelection select rest

abbrev WalletOutputs := uint256 → Option (List CTxOut)

def WalletOutputs.find (mapWallet : WalletOutputs) (outpoint : COutPoint) : Option CTxOut :=
  (mapWallet outpoint.hash).bind (·[outpoint.n]?)

def presetCoins (mapWallet : WalletOutputs) : List COutPoint → Option (List CInputCoin)
  | [] => some []
  | outpoint :: rest => do
    let txout ← mapWallet.find outpoint
    let coins ← presetCoins mapWallet rest
    return .ofTxOut outpoint txout :: coins

inductive SelectOutcome where
  | selected (selection : Selection)
  | insufficient (bnb_used : Bool)

def selectCoins (random : Nat → SelectRandom) (long_term_feerate : CFeeRate)
    (mapWallet : WalletOutputs) (coin_control : CoinControl) (limits : SpendLimits)
    (vAvailableCoins : List COutput) (nTargetValue : Int) (params : CoinSelectionParams) :
    Except Halt SelectOutcome :=
  if !coin_control.setSelected.isEmpty && !coin_control.fAllowOtherInputs then
    let coins := (vAvailableCoins.filter COutput.fSpendable).map COutput.coin
    if nTargetValue ≤ coinSum coins then .ok (.selected ⟨coins, coinSum coins⟩)
    else .ok (.insufficient false)
  else
    match presetCoins mapWallet coin_control.setSelected with
    | none => .ok (.insufficient false)
    | some setPresetCoins =>
      -- the search is not used with preset inputs
      let params := { params with use_bnb := params.use_bnb && coin_control.setSelected.isEmpty }
      let nValueFromPresetInputs := coinSum setPresetCoins
      let vCoins := vAvailableCoins.filter fun output =>
        !coin_control.setSelected.contains output.outpoint
      if nTargetValue ≤ nValueFromPresetInputs then
        .ok (.selected ⟨setPresetCoins, nValueFromPresetInputs⟩)
      else
        match firstSelection (fun i eligibility_filter =>
            selectCoinsMinConf (random i) long_term_feerate
              (nTargetValue - nValueFromPresetInputs) eligibility_filter vCoins params)
            (eligibilityFilters limits).zipIdx with
        | .error halt => .error halt
        | .ok none => .ok (.insufficient params.use_bnb)
        | .ok (some selection) =>
          .ok (.selected ⟨selection.coins ++ setPresetCoins,
            selection.nValueRet + nValueFromPresetInputs⟩)

/-- The outputs a wallet may spend in a call: those that are available and those that
coin control selects, with their values. -/
def spendable (mapWallet : WalletOutputs) (coin_control : CoinControl)
    (vAvailableCoins : List COutput) : List (COutPoint × CTxOut) :=
  vAvailableCoins.map (fun output => (output.outpoint, output.txout)) ++
    coin_control.setSelected.filterMap fun outpoint =>
      (mapWallet.find outpoint).map (outpoint, ·)

structure Selection.Spends (outputs : List (COutPoint × CTxOut)) (selection : Selection) : Prop where
  nodup : (selection.coins.map CInputCoin.outpoint).Nodup
  mem : ∀ coin ∈ selection.coins, (coin.outpoint, coin.txout) ∈ outputs
  total : selection.nValueRet = coinSum selection.coins

def totalValue (outputs : List (COutPoint × CTxOut)) : Nat :=
  (outputs.map fun output => output.2.nValue.natAbs).sum

theorem Selection.Spends.le_totalValue {outputs : List (COutPoint × CTxOut)}
    {selection : Selection} (h : selection.Spends outputs) :
    selection.nValueRet ≤ totalValue outputs := by
  set pairs := selection.coins.map fun coin => (coin.outpoint, coin.txout) with hpairs
  have hnodup : pairs.Nodup := by
    have := h.nodup
    exact List.Nodup.of_map Prod.fst (by simpa [hpairs, Function.comp_def] using this)
  have hsub : pairs ⊆ outputs := by
    intro pair hpair
    obtain ⟨coin, hcoin, rfl⟩ := mem_map.mp hpair
    exact h.mem coin hcoin
  obtain ⟨kept, hperm, hsublist⟩ := subperm_of_subset hnodup hsub
  have hle : totalValue kept ≤ totalValue outputs :=
    (hsublist.map _).sum_le_sum fun _ _ => Nat.zero_le _
  have hkept : totalValue kept = totalValue pairs := (hperm.map _).sum_eq
  have hsum : coinSum selection.coins ≤ totalValue pairs := by
    rw [hpairs]
    generalize selection.coins = coins
    induction coins with
    | nil => simp [totalValue]
    | cons coin coins ih =>
      simp only [totalValue, coinSum_cons, map_cons, sum_cons, Nat.cast_add] at ih ⊢
      omega
  rw [h.total]
  omega

def CInputCoin.pair (coin : CInputCoin) : COutPoint × CTxOut := (coin.outpoint, coin.txout)

def COutput.pair (output : COutput) : COutPoint × CTxOut := (output.outpoint, output.txout)

structure Selection.From (vCoins : List COutput) (nTargetValue : Int) (selection : Selection) :
    Prop where
  subperm : (selection.coins.map CInputCoin.pair).Subperm (vCoins.map COutput.pair)
  total : selection.nValueRet = coinSum selection.coins
  reaches : nTargetValue ≤ selection.nValueRet

theorem subperm_map {α β : Type} (f : α → β) {l l' : List α} (h : l.Subperm l') :
    (l.map f).Subperm (l'.map f) := by
  obtain ⟨kept, hperm, hsub⟩ := h
  exact ⟨kept.map f, hperm.map f, hsub.map f⟩

theorem inputFee_nonneg {rate : CFeeRate} (hrate : 0 < rate.nSatoshisPerK) (nInputBytes : Int) :
    0 ≤ inputFee rate nInputBytes := by
  unfold inputFee
  split
  · exact le_rfl
  · exact CFeeRate.getFee_nonneg hrate _

section MinConf

variable {effective_fee long_term_feerate : CFeeRate}

theorem effectiveCoin_eq_some {output : COutput} {coin : CInputCoin}
    (h : effectiveCoin effective_fee long_term_feerate output = some coin) :
    coin.pair = output.pair ∧ 0 < coin.effective_value ∧
      coin.effective_value = coin.txout.nValue - inputFee effective_fee output.nInputBytes := by
  unfold effectiveCoin at h
  simp only at h
  split at h
  · obtain rfl := Option.some.inj h
    exact ⟨rfl, by assumption, rfl⟩
  · cases h

theorem pair_effectiveCoins_sublist (outputs : List COutput) :
    ((outputs.filterMap (effectiveCoin effective_fee long_term_feerate)).map
      CInputCoin.pair).Sublist (outputs.map COutput.pair) := by
  induction outputs with
  | nil => exact List.Sublist.refl _
  | cons output outputs ih =>
    cases hcoin : effectiveCoin effective_fee long_term_feerate output with
    | none =>
      rw [filterMap_cons_none hcoin, map_cons]
      exact ih.cons _
    | some coin =>
      rw [filterMap_cons_some hcoin, map_cons, map_cons,
        (effectiveCoin_eq_some hcoin).1]
      exact ih.cons_cons _

theorem effectiveSum_le_coinSum {coins : List CInputCoin}
    (h : ∀ coin ∈ coins, coin.effective_value ≤ coin.txout.nValue) :
    effectiveSum coins ≤ coinSum coins := by
  induction coins with
  | nil => simp
  | cons coin coins ih =>
    obtain ⟨hcoin, hcoins⟩ := forall_mem_cons.mp h
    have := ih hcoins
    simp only [effectiveSum_cons, coinSum_cons]
    omega

theorem selectCoinsMinConf_spec (random : SelectRandom) (nTargetValue : Int)
    (eligibility_filter : CoinEligibilityFilter) (vCoins : List COutput)
    {params : CoinSelectionParams} (hrate : 0 < params.effective_fee.nSatoshisPerK)
    (hsign : params.use_bnb = true → 0 ≤ params.change_spend_size) :
    ∃ found, selectCoinsMinConf random long_term_feerate nTargetValue eligibility_filter vCoins
        params = .ok found ∧
      ∀ selection ∈ found, selection.From vCoins nTargetValue := by
  unfold selectCoinsMinConf
  simp only
  set eligible := vCoins.filter (outputEligibleForSpending · eligibility_filter) with heligible
  have hsub : (eligible.map COutput.pair).Sublist (vCoins.map COutput.pair) :=
    filter_sublist.map _
  cases hbnb : params.use_bnb with
  | true =>
    rw [if_pos rfl, if_neg (not_lt.mpr (hsign hbnb))]
    have heffective : ∀ coin ∈ eligible.filterMap
        (effectiveCoin params.effective_fee long_term_feerate),
        0 < coin.effective_value ∧ coin.effective_value ≤ coin.txout.nValue := by
      intro coin hcoin
      obtain ⟨output, -, hsome⟩ := mem_filterMap.mp hcoin
      obtain ⟨-, hpos, heq⟩ := effectiveCoin_eq_some hsome
      have hfee := inputFee_nonneg hrate output.nInputBytes
      exact ⟨hpos, by omega⟩
    obtain ⟨found, hfound, hspec⟩ := selectCoinsBnB_spec random.order nTargetValue
      (dustRelayFee.getFee params.change_spend_size.toNat +
        params.effective_fee.getFee params.change_output_size)
      (params.effective_fee.getFee params.tx_noinputs_size) fun coin h => (heffective coin h).1
    refine ⟨found, hfound, fun selection hselection => ?_⟩
    obtain ⟨hcoins, htotal, hreaches⟩ := hspec selection hselection
    refine ⟨?_, htotal, ?_⟩
    · exact (subperm_map CInputCoin.pair hcoins).trans
        ((pair_effectiveCoins_sublist eligible).subperm.trans hsub.subperm)
    · have hle := effectiveSum_le_coinSum fun coin h => (heffective coin (hcoins.subset h)).2
      have hfees := CFeeRate.getFee_nonneg hrate params.tx_noinputs_size
      omega
  | false =>
    rw [if_neg (by decide)]
    refine ⟨_, rfl, fun selection hselection => ?_⟩
    have hreaches := (knapsackSolver_spec hselection).1
    refine ⟨?_, hreaches.total, hreaches.reaches⟩
    have hpairs : (eligible.map COutput.coin).map CInputCoin.pair = eligible.map COutput.pair := by
      rw [map_map]
      rfl
    have hcoins := subperm_map CInputCoin.pair hreaches.subperm
    rw [hpairs] at hcoins
    exact hcoins.trans hsub.subperm

end MinConf

theorem firstSelection_spec {select : Nat → CoinEligibilityFilter → Except Halt (Option Selection)}
    {P : Selection → Prop}
    (hselect : ∀ i eligibility_filter, ∃ found, select i eligibility_filter = .ok found ∧
      ∀ selection ∈ found, P selection) (filters : List (CoinEligibilityFilter × Nat)) :
    ∃ found, firstSelection select filters = .ok found ∧ ∀ selection ∈ found, P selection := by
  induction filters with
  | nil => exact ⟨none, rfl, by simp⟩
  | cons entry filters ih =>
    obtain ⟨eligibility_filter, i⟩ := entry
    obtain ⟨found, hfound, hP⟩ := hselect i eligibility_filter
    cases found with
    | none => simpa only [firstSelection, hfound] using ih
    | some selection => exact ⟨some selection, by simp only [firstSelection, hfound], hP⟩

theorem presetCoins_eq_some {mapWallet : WalletOutputs} {selected : List COutPoint}
    {coins : List CInputCoin} (h : presetCoins mapWallet selected = some coins) :
    coins.map CInputCoin.outpoint = selected ∧
      ∀ coin ∈ coins, mapWallet.find coin.outpoint = some coin.txout := by
  induction selected generalizing coins with
  | nil =>
    obtain rfl := Option.some.inj h
    simp
  | cons outpoint selected ih =>
    simp only [presetCoins, Option.bind_eq_bind, Option.bind_eq_some_iff, Option.pure_def,
      Option.some.injEq] at h
    obtain ⟨txout, hfind, rest, hrest, rfl⟩ := h
    obtain ⟨hmap, hall⟩ := ih hrest
    refine ⟨by rw [map_cons, hmap]; rfl, ?_⟩
    exact forall_mem_cons.mpr ⟨hfind, hall⟩

section Selected

variable {random : Nat → SelectRandom} {long_term_feerate : CFeeRate} {mapWallet : WalletOutputs}
  {coin_control : CoinControl} {limits : SpendLimits} {vAvailableCoins : List COutput}
  {nTargetValue : Int} {params : CoinSelectionParams}

theorem pair_mem_spendable {output : COutput} (h : output ∈ vAvailableCoins) :
    output.pair ∈ spendable mapWallet coin_control vAvailableCoins :=
  mem_append_left _ (mem_map_of_mem h)

theorem preset_mem_spendable {coin : CInputCoin} (h : coin.outpoint ∈ coin_control.setSelected)
    (hfind : mapWallet.find coin.outpoint = some coin.txout) :
    coin.pair ∈ spendable mapWallet coin_control vAvailableCoins := by
  refine mem_append_right _ (mem_filterMap.mpr ⟨coin.outpoint, h, ?_⟩)
  rw [hfind]
  rfl

theorem map_fst_pair (coins : List CInputCoin) :
    (coins.map CInputCoin.pair).map Prod.fst = coins.map CInputCoin.outpoint := by
  rw [map_map]
  rfl

def AbortsSearch (coin_control : CoinControl) (nTargetValue : Int) (params : CoinSelectionParams) :
    Prop :=
  params.use_bnb = true ∧ coin_control.setSelected = [] ∧ 0 < nTargetValue ∧
    params.change_spend_size < 0

theorem selectCoins_of_abortsSearch (h : AbortsSearch coin_control nTargetValue params) :
    selectCoins random long_term_feerate mapWallet coin_control limits vAvailableCoins nTargetValue
      params = .error .aborts := by
  obtain ⟨hbnb, hselected, htarget, hsize⟩ := h
  have hfilters : (eligibilityFilters limits).zipIdx =
      (⟨1, 6, 0, 0⟩, 0) :: ((eligibilityFilters limits).zipIdx).tail := rfl
  have hneg : ¬ nTargetValue ≤ 0 := not_le.mpr htarget
  unfold selectCoins
  rw [hfilters]
  simp [hselected, presetCoins, hneg, firstSelection, selectCoinsMinConf, hbnb, hsize]

theorem selectCoins_spec (hnodup : (vAvailableCoins.map COutput.outpoint).Nodup)
    (hrate : 0 < params.effective_fee.nSatoshisPerK)
    (habort : ¬ AbortsSearch coin_control nTargetValue params) :
    ∃ outcome, selectCoins random long_term_feerate mapWallet coin_control limits vAvailableCoins
        nTargetValue params = .ok outcome ∧
      (∀ bnb_used, outcome = .insufficient bnb_used → bnb_used = true → params.use_bnb = true) ∧
      ∀ selection, outcome = .selected selection →
        selection.Spends (spendable mapWallet coin_control vAvailableCoins) ∧
          nTargetValue ≤ selection.nValueRet := by
  unfold selectCoins
  split
  case isTrue =>
    -- all selected outputs that are available, and no other
    simp only
    split
    case isTrue hreaches =>
      refine ⟨_, rfl, by simp, ?_⟩
      rintro selection ⟨⟩
      refine ⟨⟨?_, ?_, rfl⟩, hreaches⟩
      · rw [map_map]
        exact (filter_sublist.map _).nodup hnodup
      · intro coin hcoin
        obtain ⟨output, houtput, rfl⟩ := mem_map.mp hcoin
        exact pair_mem_spendable (mem_filter.mp houtput).1
    case isFalse => exact ⟨_, rfl, by simp, by simp⟩
  case isFalse =>
    split
    case h_1 => exact ⟨_, rfl, by simp, by simp⟩
    case h_2 setPresetCoins hpreset =>
      obtain ⟨hmap, hfind⟩ := presetCoins_eq_some hpreset
      have hmem : ∀ coin ∈ setPresetCoins,
          coin.pair ∈ spendable mapWallet coin_control vAvailableCoins := fun coin hcoin =>
        preset_mem_spendable (hmap ▸ mem_map_of_mem hcoin) (hfind coin hcoin)
      have hpresetNodup : (setPresetCoins.map CInputCoin.outpoint).Nodup :=
        hmap ▸ coin_control.nodup
      simp only
      split
      case isTrue hreaches =>
        refine ⟨_, rfl, by simp, ?_⟩
        rintro selection ⟨⟩
        exact ⟨⟨hpresetNodup, hmem, rfl⟩, hreaches⟩
      case isFalse hshort =>
        set vCoins := vAvailableCoins.filter fun output =>
          !coin_control.setSelected.contains output.outpoint with hvCoins
        set params' : CoinSelectionParams :=
          { params with use_bnb := params.use_bnb && coin_control.setSelected.isEmpty } with hparams
        have hsign : params'.use_bnb = true → 0 ≤ params'.change_spend_size := by
          intro hbnb
          obtain ⟨hbnb, hempty⟩ := Bool.and_eq_true_iff.mp hbnb
          have hselected := isEmpty_iff.mp hempty
          have hzero : setPresetCoins = [] := by
            rw [hselected] at hmap
            exact map_eq_nil_iff.mp hmap
          rw [hzero, coinSum_nil] at hshort
          by_contra hneg
          exact habort ⟨hbnb, hselected, not_le.mp hshort, not_le.mp hneg⟩
        have hone : ∀ i eligibility_filter, ∃ found, selectCoinsMinConf (random i)
            long_term_feerate (nTargetValue - coinSum setPresetCoins) eligibility_filter vCoins
            params' = .ok found ∧ ∀ selection ∈ found,
              selection.From vCoins (nTargetValue - coinSum setPresetCoins) :=
          fun i eligibility_filter => selectCoinsMinConf_spec _ _ _ _ hrate hsign
        obtain ⟨found, hfound, hspec⟩ :=
          firstSelection_spec hone (eligibilityFilters limits).zipIdx
        rw [hfound]
        cases found with
        | none =>
          refine ⟨_, rfl, ?_, by simp⟩
          rintro bnb_used ⟨⟩ hbnb
          exact (Bool.and_eq_true_iff.mp hbnb).1
        | some selection =>
          refine ⟨_, rfl, by simp, ?_⟩
          rintro selection' ⟨⟩
          have hfrom := hspec selection rfl
          have hsubset : ∀ coin ∈ selection.coins, ∃ output ∈ vCoins, output.pair = coin.pair :=
            fun coin hcoin =>
              mem_map.mp (hfrom.subperm.subset (mem_map_of_mem hcoin))
          have hcoinsNodup : (selection.coins.map CInputCoin.outpoint).Nodup := by
            obtain ⟨kept, hperm, hsub⟩ := subperm_map Prod.fst hfrom.subperm
            rw [map_fst_pair] at hperm
            rw [map_map] at hsub
            refine hperm.nodup_iff.mp (hsub.nodup ?_)
            exact (filter_sublist.map _).nodup hnodup
          refine ⟨⟨?_, ?_, ?_⟩, ?_⟩
          · rw [map_append, nodup_append']
            refine ⟨hcoinsNodup, hpresetNodup, ?_⟩
            rw [hmap]
            intro outpoint hin hpre
            obtain ⟨coin, hcoin, rfl⟩ := mem_map.mp hin
            obtain ⟨output, houtput, heq⟩ := hsubset coin hcoin
            have hnot := (mem_filter.mp houtput).2
            rw [(Prod.mk.inj heq).1] at hnot
            simp [hpre] at hnot
          · intro coin hcoin
            rcases mem_append.mp hcoin with hcoin | hcoin
            · obtain ⟨output, houtput, heq⟩ := hsubset coin hcoin
              show coin.pair ∈ _
              rw [← heq]
              exact pair_mem_spendable (mem_filter.mp houtput).1
            · exact hmem coin hcoin
          · simp only [coinSum_append, hfrom.total]
          · have := hfrom.reaches
            simp only
            omega

end Selected

end Verge
