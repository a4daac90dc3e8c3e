import Mathlib.Algebra.Order.BigOperators.Group.List
import Mathlib.Tactic.IntervalCases
import Verge.ChainParams
import Verge.Validation.UndoBlock

/-!
# The money supply

The value of all unspent coins grows by at most the subsidy with every connected
block, so a chain built on the empty set never holds more than the subsidies of
its heights.  No sum on the way leaves the range of an `int64_t`.
-/

namespace Verge

open Foundation CoinsProg List AssocMap WriteLog CoinsView

def CoinsView.totalValue (view : CoinsView) : Int :=
  AssocMap.total (fun coin => coin.out.nValue) view

section View

variable {view : CoinsView}

theorem CoinsView.totalValue_erase (view : CoinsView) (o : COutPoint) :
    totalValue (view.erase o) + view.valueAt o = view.totalValue := by
  unfold valueAt totalValue
  cases h : view.lookup o with
  | none =>
    rw [total_erase_of_lookup_none _ h]
    exact Int.add_zero _
  | some coin =>
    rw [total_of_lookup_some _ h]
    exact Int.add_comm _ _

theorem CoinsView.totalValue_insert (view : CoinsView) (o : COutPoint) (coin : Coin) :
    totalValue (view.insert o coin) + view.valueAt o =
      coin.out.nValue + view.totalValue := by
  rw [← view.totalValue_erase o, ← Int.add_assoc]
  unfold totalValue
  rw [total_insert]

theorem CoinsView.valueAt_erase_of_ne {o o' : COutPoint} (h : o ≠ o') :
    valueAt (view.erase o') o = view.valueAt o := by
  unfold valueAt
  rw [lookup_erase_ite, if_neg h]

theorem ValuesInRange.valueAt_nonneg (h : ValuesInRange view) (o : COutPoint) :
    0 ≤ view.valueAt o := by
  unfold valueAt
  cases hcoin : view.lookup o with
  | none => exact Int.le_refl 0
  | some coin => exact ((moneyRange_iff _).mp (h o coin hcoin)).1

theorem ValuesInRange.erase (h : ValuesInRange view) (o : COutPoint) :
    ValuesInRange (view.erase o) := by
  intro o' coin hlookup
  exact h o' coin (of_lookup_erase hlookup).2

theorem ValuesInRange.insert (h : ValuesInRange view) {o : COutPoint} {coin : Coin}
    (hcoin : moneyRange coin.out.nValue = true) : ValuesInRange (view.insert o coin) := by
  intro o' coin' hlookup
  rcases of_lookup_insert hlookup with ⟨-, rfl⟩ | ⟨-, hlookup⟩
  · exact hcoin
  · exact h o' coin' hlookup

theorem totalValue_spends (view : CoinsView) {vin : List CTxIn}
    (hdistinct : (vin.map CTxIn.prevout).Nodup) :
    totalValue (WriteLog.apply view (spends vin)) + view.valueIn vin =
      view.totalValue := by
  induction vin generalizing view with
  | nil => exact Int.add_zero _
  | cons txin vin ih =>
    obtain ⟨hhead, htail⟩ := nodup_cons.mp hdistinct
    have hrest : valueIn (view.erase txin.prevout) vin = view.valueIn vin := by
      unfold valueIn
      refine congrArg List.sum (map_congr_left fun t ht => ?_)
      refine valueAt_erase_of_ne fun heq => hhead ?_
      exact heq ▸ mem_map_of_mem ht
    have hsplit : view.valueIn (txin :: vin) =
        view.valueAt txin.prevout + view.valueIn vin := sum_cons
    have herase := view.totalValue_erase txin.prevout
    have hloop := ih (view.erase txin.prevout) htail
    rw [hrest] at hloop
    have happly : WriteLog.apply view (spends (txin :: vin)) =
        WriteLog.apply (view.erase txin.prevout) (spends vin) := rfl
    rw [happly, hsplit]
    omega

theorem ValuesInRange.spends (h : ValuesInRange view) (vin : List CTxIn) :
    ValuesInRange (WriteLog.apply view (spends vin)) := by
  induction vin generalizing view with
  | nil => exact h
  | cons txin vin ih => exact ih (h.erase txin.prevout)

variable {nHeight : Nat} {view' : CoinsView} (hview : ValuesInRange view)

include hview

theorem totalValue_creationsFrom_le (tx : CTransaction) (nHeight i : Nat) {vout : List CTxOut}
    (hvalues : ∀ txout ∈ vout, moneyRange txout.nValue = true) :
    totalValue (WriteLog.apply view (creationsFrom tx nHeight i vout)) ≤
      view.totalValue + totalOut vout := by
  induction vout generalizing view i with
  | nil => exact Int.le_of_eq (Int.add_zero _).symm
  | cons txout vout ih =>
    have hvalue := hvalues txout mem_cons_self
    have hnonneg := ((moneyRange_iff _).mp hvalue).1
    have hrest : ∀ t ∈ vout, moneyRange t.nValue = true :=
      fun t ht => hvalues t (mem_cons_of_mem _ ht)
    rw [creationsFrom, totalOut_cons]
    split
    · have hloop := ih hview (i + 1) hrest
      omega
    · have hinsert := view.totalValue_insert (tx.outpoint i) (createdCoin tx nHeight txout)
      have hcoin : (createdCoin tx nHeight txout).out.nValue = txout.nValue := rfl
      have hold := hview.valueAt_nonneg (tx.outpoint i)
      have hinserted : ValuesInRange
          (view.insert (tx.outpoint i) (createdCoin tx nHeight txout)) := hview.insert hvalue
      have hloop := ih hinserted (i + 1) hrest
      rw [apply_cons, WriteLog.write]
      dsimp only
      omega

theorem SpendingTx.totalValue_le {tx : CTransaction} {txfee : Int}
    (h : SpendingTx nHeight view tx txfee) :
    totalValue (WriteLog.apply view (connectLog tx nHeight)) + txfee ≤
      view.totalValue := by
  have hspent : spentInputs tx = tx.vin := by
    rw [spentInputs, h.notCoinBase]
    rfl
  have hspends := totalValue_spends view h.checked.distinct
  have hcreations := totalValue_creationsFrom_le (hview.spends tx.vin) tx nHeight 0
    h.checked.values
  have hbalance := h.balance
  rw [connectLog, apply_append, hspent]
  unfold creations
  omega

theorem ConnectedTxs.totalValue_le {txs : List CTransaction} {vtxundo : List CTxUndo} {nFees : Int}
    (h : ConnectedTxs nHeight view txs vtxundo nFees view') :
    view'.totalValue + nFees ≤ view.totalValue ∧ ValuesInRange view' := by
  induction h with
  | nil view => exact ⟨Int.le_of_eq (Int.add_zero _), hview⟩
  | cons spending _ _ ih =>
    obtain ⟨hle, hrange⟩ := ih (hview.connect spending.checked nHeight)
    have hstep := spending.totalValue_le hview
    exact ⟨by omega, hrange⟩

theorem ConnectedBlock.totalValue_le {consensusParams : ConsensusParams} {block : CBlock}
    {blockUndo : CBlockUndo}
    (h : ConnectedBlock consensusParams nHeight view block blockUndo view') :
    view'.totalValue ≤ view.totalValue + getBlockSubsidy nHeight consensusParams ∧
      ValuesInRange view' := by
  obtain ⟨coinbase, rest, nFees, hvtx, -, hrest, -, hpay⟩ := h.connected
  have hcb : coinbase.isCoinBase = true := by
    have hcoinbase := h.checked.coinbase
    simpa [hvtx] using hcoinbase
  have hchecked : CheckedTx coinbase := h.checked.checked coinbase (hvtx ▸ mem_cons_self)
  have hlog : connectLog coinbase nHeight = creations coinbase nHeight := by
    rw [connectLog, spentInputs, if_pos hcb]
    rfl
  have hcreations := totalValue_creationsFrom_le hview coinbase nHeight 0 hchecked.values
  obtain ⟨hle, hrange⟩ := hrest.totalValue_le (hview.connect hchecked nHeight)
  rw [hlog, creations] at hle
  exact ⟨by omega, hrange⟩

end View

/-- `ConnectBlock` for one block after the other, from the given height on.  The
checks that are left open may answer differently for every block. -/
def connectBlocks (consensusParams : ConsensusParams) :
    Nat → List (BlockRules × CBlock) → CoinsView → Except Failure CoinsView
  | _, [], view => .ok view
  | nHeight, (rules, block) :: rest, view => do
    let (_, view') ← (connectBlock consensusParams rules block nHeight).run view
    connectBlocks consensusParams (nHeight + 1) rest view'

def subsidies (consensusParams : ConsensusParams) (nHeight count : Nat) : Int :=
  ((List.range' nHeight count).map fun h : Nat => getBlockSubsidy h consensusParams).sum

section Chain

variable {consensusParams : ConsensusParams}

theorem post_connectBlock_supply {rules : BlockRules} {block : CBlock} {nHeight : Nat}
    {view : CoinsView} (hpassed : block.fChecked = true → PassedCheckBlock rules block)
    (hview : ValuesInRange view) :
    Post True (connectBlock consensusParams rules block nHeight) view fun _ view' =>
      view'.totalValue ≤ view.totalValue + getBlockSubsidy nHeight consensusParams ∧
        ValuesInRange view' := by
  by_cases hgenesis : block.hash = consensusParams.hashGenesisBlock
  · refine (post_ofExcept (ensures_checkBlock rules block hpassed)).bind fun _ view' h => ?_
    obtain ⟨-, rfl⟩ := h
    rw [if_pos hgenesis]
    exact Post.pure ⟨Int.le_add_of_nonneg_right getBlockSubsidy_range.1, hview⟩
  · exact (post_connectBlock hgenesis hpassed fun _ => hview).mono
      fun _ _ h => h.totalValue_le hview

theorem subsidies_succ (nHeight count : Nat) :
    subsidies consensusParams nHeight (count + 1) =
      getBlockSubsidy nHeight consensusParams + subsidies consensusParams (nHeight + 1) count := by
  rw [subsidies, List.range'_succ, map_cons, sum_cons, subsidies]

theorem ensures_connectBlocks {nHeight : Nat} {blocks : List (BlockRules × CBlock)}
    {view : CoinsView}
    (hpassed : ∀ b ∈ blocks, b.2.fChecked = true → PassedCheckBlock b.1 b.2)
    (hview : ValuesInRange view) :
    Ensures True (connectBlocks consensusParams nHeight blocks view) fun view' =>
      view'.totalValue ≤
          view.totalValue + subsidies consensusParams nHeight blocks.length ∧
        ValuesInRange view' := by
  induction blocks generalizing nHeight view with
  | nil => exact Ensures.ok ⟨Int.le_of_eq (Int.add_zero _).symm, hview⟩
  | cons b blocks ih =>
    obtain ⟨rules, block⟩ := b
    have hblock := hpassed _ mem_cons_self
    refine Ensures.bind (post_connectBlock_supply hblock hview) fun r hr => ?_
    obtain ⟨hle, hrange⟩ := hr
    refine (ih (fun b hb => hpassed b (mem_cons_of_mem _ hb)) hrange).mono
      fun view' h => ⟨?_, h.2⟩
    have hsum := @subsidies_succ consensusParams nHeight blocks.length
    rw [length_cons, hsum]
    omega

theorem valuesInRange_empty : ValuesInRange ∅ := fun o coin h => by
  rw [AList.lookup_empty] at h
  cases h

/-- On every chain built on the empty set no block adds more than its subsidy, every value
is in range, and no sum overflows. -/
theorem connectBlocks_no_inflation (blocks : List (BlockRules × CBlock))
    (hpassed : ∀ b ∈ blocks, b.2.fChecked = true → PassedCheckBlock b.1 b.2) :
    connectBlocks consensusParams 1 blocks ∅ ≠ .error .overflow ∧
    ∀ view, connectBlocks consensusParams 1 blocks ∅ = .ok view →
      view.totalValue ≤ subsidies consensusParams 1 blocks.length ∧
      (∀ o coin, view.lookup o = some coin → moneyRange coin.out.nValue = true) ∧
      ∀ rules block blockUndo view',
        (block.fChecked = true → PassedCheckBlock rules block) →
        (connectBlock consensusParams rules block (blocks.length + 1)).run view =
          .ok (blockUndo, view') →
        view'.totalValue ≤ view.totalValue +
          getBlockSubsidy ((blocks.length + 1 : Nat) : Int) consensusParams := by
  have hchain := @ensures_connectBlocks consensusParams 1 blocks ∅ hpassed valuesInRange_empty
  constructor
  · intro hoverflow
    rw [hoverflow] at hchain
    exact hchain trivial rfl
  · intro view hrun
    rw [hrun] at hchain
    obtain ⟨hle, hrange⟩ := hchain
    have hzero : totalValue ∅ = 0 := rfl
    refine ⟨by omega, hrange, fun rules block blockUndo view' hblock hconnect => ?_⟩
    exact ((post_connectBlock_supply hblock hrange).of_run hconnect).1

end Chain

/-- The first coinbase is spent as soon as it is mature, with a fee of 30 that the coinbase of
the same block claims. -/
def spendingChain : List (BlockRules × CBlock) :=
  ((List.range' 1 120).map fun n => (permissiveRules, { sampleBlock with
    hash := 100 + n
    vtx := [{ sampleCoinBase with vout := [⟨200000 * COIN, []⟩], hash := 1000 + n }] })) ++
  [(permissiveRules, { sampleBlock with
    hash := 52
    vtx := [{ sampleCoinBase with vout := [⟨200000 * COIN + 30, []⟩], hash := 31 },
      ⟨[sampleInput ⟨1001, 0⟩], [⟨200000 * COIN - 30, []⟩], 1, 9, 0, 32⟩] })]

theorem connectBlocks_no_inflation_sample :
    ∃ view, connectBlocks sampleParams 1 spendingChain ∅ = .ok view ∧
      view.lookup ⟨1001, 0⟩ = none ∧ view.totalValue = 121 * (200000 * COIN) ∧
      view.totalValue ≤ subsidies sampleParams 1 121 := by
  have hrun : (connectBlocks sampleParams 1 spendingChain ∅).toOption.map
      (fun view => (view.lookup ⟨1001, 0⟩, view.totalValue)) =
        some (none, 121 * (200000 * COIN)) := by decide +kernel
  have hunchecked : ∀ b ∈ spendingChain, b.2.fChecked = false := by decide +kernel
  have hpassed : ∀ b ∈ spendingChain, b.2.fChecked = true → PassedCheckBlock b.1 b.2 :=
    fun b hb hchecked => absurd (hunchecked b hb) (by rw [hchecked]; decide)
  cases hview : connectBlocks sampleParams 1 spendingChain ∅ with
  | error failure =>
    rw [hview] at hrun
    cases hrun
  | ok view =>
    rw [hview] at hrun
    obtain ⟨hspent, htotal⟩ := Prod.mk.inj (Option.some.inj hrun)
    exact ⟨view, rfl, hspent, htotal, ((connectBlocks_no_inflation _ hpassed).2 _ hview).1⟩

/-! ## The cap on mainnet -/

def mainParams : ConsensusParams where
  hashGenesisBlock := Network.main.hashGenesisBlock
  nSubsidyHalvingInterval := 500000
  BIP34Height := 2800000

/-- `halvingCount`, the amount of the shift in `GetBlockSubsidy`. -/
def halvingCount (nHeight : Nat) : Int :=
  ((nHeight : Int) - 3700001).tdiv mainParams.nSubsidyHalvingInterval

def irregularRewards : List Int :=
  [200000, 100000, 50000, 25000, 12500, 6250, 3125, 1560, 730].map (· * COIN)

/-- The last height of each reward, and by how much the reward drops after it. -/
def rewardSteps : List (Nat × Int) :=
  [(14000, 100000 * COIN), (28000, 50000 * COIN), (42000, 25000 * COIN), (210000, 12500 * COIN),
    (378000, 6250 * COIN), (546000, 3125 * COIN), (714000, 1565 * COIN), (2124000, 830 * COIN),
    (3700000, 330 * COIN), (4200000, 200 * COIN), (4700000, 100 * COIN), (5200000, 50 * COIN),
    (5700000, 25 * COIN), (6200000, 12500000), (6700000, 6250000), (7200000, 6250000)]

def reward (nHeight : Nat) : Int :=
  (rewardSteps.map fun step => if nHeight ≤ step.1 then step.2 else 0).sum

theorem rewardSteps_nonneg : ∀ step ∈ rewardSteps, 0 ≤ step.2 := by
  decide

theorem getBlockSubsidy_irregular {nHeight : Nat} (hpos : 1 ≤ nHeight) (hle : nHeight ≤ 3700000) :
    getBlockSubsidy nHeight mainParams = reward nHeight ∧
      getBlockSubsidy nHeight mainParams ∈ irregularRewards := by
  unfold getBlockSubsidy
  split_ifs
  all_goals try omega
  all_goals
    refine ⟨?_, by decide⟩
    simp (disch := omega) only [reward, rewardSteps, List.map_cons, List.map_nil, if_pos, if_neg]
    decide

theorem getBlockSubsidy_halving {nHeight : Nat} (hlt : 3700000 < nHeight) :
    0 ≤ halvingCount nHeight ∧
      getBlockSubsidy nHeight mainParams = if halvingCount nHeight < 7 then
        (400 * COIN) >>> (halvingCount nHeight).toNat else 0 := by
  have hnonneg : 0 ≤ halvingCount nHeight := Int.tdiv_nonneg (by omega) (by decide)
  refine ⟨hnonneg, ?_⟩
  unfold getBlockSubsidy
  repeat rw [if_neg (by omega)]
  show (if halvingCount nHeight < 7 then
    (400 * COIN) >>> (halvingCount nHeight % 64).toNat else 0) = _
  split
  case isTrue hcount => rw [Int.emod_eq_of_lt hnonneg (hcount.trans (by decide))]
  case isFalse => rfl

theorem halvingCount_eq {nHeight k : Nat} (hlow : 3700001 + 500000 * k ≤ nHeight)
    (hhigh : nHeight < 4200001 + 500000 * k) : halvingCount nHeight = k := by
  rw [halvingCount, Int.tdiv_eq_ediv_of_nonneg (by omega)]
  change _ / (500000 : Int) = _
  omega

theorem getBlockSubsidy_eq_reward {nHeight : Nat} (hpos : 1 ≤ nHeight) :
    getBlockSubsidy nHeight mainParams = reward nHeight := by
  rcases Nat.lt_or_ge 3700000 nHeight with hlt | hle
  · rw [(getBlockSubsidy_halving hlt).2]
    obtain ⟨k, hk⟩ : ∃ k, k = (nHeight - 3700001) / 500000 := ⟨_, rfl⟩
    rw [halvingCount_eq (k := k) (by omega) (by omega)]
    rcases Nat.lt_or_ge k 7 with hlt | hge
    · interval_cases k
      all_goals
        simp (disch := omega) only [reward, rewardSteps, List.map_cons, List.map_nil, if_pos,
          if_neg]
        decide
    · rw [if_neg (by omega)]
      simp (disch := omega) only [reward, rewardSteps, List.map_cons, List.map_nil, if_neg]
      decide
  · exact (getBlockSubsidy_irregular hpos hle).1

theorem reward_antitone {h h' : Nat} (hle : h ≤ h') : reward h' ≤ reward h := by
  refine List.sum_le_sum fun step hstep => ?_
  have := rewardSteps_nonneg step hstep
  split_ifs
  all_goals omega

/-- Up to a height every step has contributed its drop once for each block that it
applies to. -/
theorem subsidies_eq (count : Nat) :
    subsidies mainParams 1 count =
      (rewardSteps.map fun step => step.2 * ((min count step.1 : Nat) : Int)).sum := by
  induction count with
  | zero => simp [subsidies]
  | succ n ih =>
    have hlast : subsidies mainParams 1 (n + 1) =
        subsidies mainParams 1 n + reward (n + 1) := by
      rw [← getBlockSubsidy_eq_reward (by omega), subsidies, List.range'_concat, map_append,
        sum_append, map_singleton, sum_singleton, Nat.one_mul, Nat.add_comm 1, subsidies]
    rw [hlast, ih, reward, ← List.sum_map_add]
    refine congrArg List.sum (map_congr_left fun step _ => ?_)
    split_ifs
    · rw [Nat.min_eq_left (by omega), Nat.min_eq_left (by omega), Nat.cast_succ, Int.mul_add,
        Int.mul_one]
    · rw [Nat.min_eq_right (by omega), Nat.min_eq_right (by omega), Int.add_zero]

theorem subsidies_le (count : Nat) : subsidies mainParams 1 count ≤ MAX_MONEY := by
  rw [subsidies_eq]
  calc (rewardSteps.map fun step => step.2 * ((min count step.1 : Nat) : Int)).sum
      ≤ (rewardSteps.map fun step => step.2 * (step.1 : Int)).sum := by
        refine List.sum_le_sum fun step hstep => ?_
        refine Int.mul_le_mul_of_nonneg_left ?_ (rewardSteps_nonneg step hstep)
        exact Int.ofNat_le.mpr (Nat.min_le_right _ _)
    _ ≤ MAX_MONEY := by decide

theorem ValuesInRange.totalValue_nonneg {view : CoinsView} (h : ValuesInRange view) :
    0 ≤ view.totalValue := by
  refine List.sum_nonneg fun value hvalue => ?_
  obtain ⟨e, he, rfl⟩ := List.mem_map.mp hvalue
  exact ((moneyRange_iff _).mp (h e.1 e.2 (lookup_eq_some_iff.mpr he))).1

/-- On mainnet rewards never rise and are shifted by zero to six places, and neither they
nor the coins of a chain exceed `MAX_MONEY` together. -/
theorem mainnet_supply_capped :
    (∀ h h' : Nat, 1 ≤ h → h ≤ h' →
      getBlockSubsidy h' mainParams ≤ getBlockSubsidy h mainParams) ∧
    (∀ h : Nat, 1 ≤ h →
      (h ≤ 3700000 ∧ getBlockSubsidy h mainParams ∈ irregularRewards) ∨
      (0 ≤ halvingCount h ∧ getBlockSubsidy h mainParams =
        if halvingCount h < 7 then (400 * COIN) >>> (halvingCount h).toNat else 0)) ∧
    (∀ count, subsidies mainParams 1 count ≤ MAX_MONEY) ∧
    ∀ blocks : List (BlockRules × CBlock),
      (∀ b ∈ blocks, b.2.fChecked = true → PassedCheckBlock b.1 b.2) →
      ∀ view, connectBlocks mainParams 1 blocks ∅ = .ok view →
        moneyRange view.totalValue = true := by
  refine ⟨fun h h' hpos hle => ?_, fun h hpos => ?_, subsidies_le, fun blocks hpassed view hrun => ?_⟩
  · rw [getBlockSubsidy_eq_reward hpos, getBlockSubsidy_eq_reward (hpos.trans hle)]
    exact reward_antitone hle
  · rcases Nat.lt_or_ge 3700000 h with hlt | hle
    · exact .inr (getBlockSubsidy_halving hlt)
    · exact .inl ⟨hle, (getBlockSubsidy_irregular hpos hle).2⟩
  · have hchain := @ensures_connectBlocks mainParams 1 blocks ∅ hpassed valuesInRange_empty
    rw [hrun] at hchain
    obtain ⟨hle, hrange⟩ := hchain
    have hzero : totalValue ∅ = 0 := rfl
    have hcap := subsidies_le blocks.length
    exact (moneyRange_iff _).mpr ⟨hrange.totalValue_nonneg, by omega⟩

theorem mainnet_supply_capped_sample :
    getBlockSubsidy (3700001 : Nat) mainParams ≤ getBlockSubsidy (1 : Nat) mainParams ∧
    moneyRange (CoinsView.totalValue
      ((∅ : CoinsView).insert ⟨21, 0⟩ ⟨⟨1, []⟩, true, 1, 9⟩)) = true := by
  refine ⟨mainnet_supply_capped.1 _ _ (by decide) (by decide), ?_⟩
  have hrun : connectBlocks mainParams 1
      [(permissiveRules, { sampleBlock with vtx := [sampleCoinBase] })] ∅ =
      .ok ((∅ : CoinsView).insert ⟨21, 0⟩ ⟨⟨1, []⟩, true, 1, 9⟩) := rfl
  exact mainnet_supply_capped.2.2.2 _ (by simp [sampleBlock]) _ hrun

end Verge
