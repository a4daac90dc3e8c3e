import Verge.Coins.Logic

/-!
# Transaction checks

`consensus/tx_verify.cpp`: `CheckTransaction`, which needs no context, and
`CheckTxInputs`, which reads the coins a transaction spends.  Every `int64_t`
sum goes through `addInt64`, so overflow is a failure of its own.
-/

namespace Verge

open Foundation List

def compactSizeLength (n : Nat) : Nat :=
  if n < 253 then 1 else if n ≤ 0xFFFF then 3 else if n ≤ 0xFFFFFFFF then 5 else 9

def CTxIn.serializeSize (txin : CTxIn) : Nat :=
  36 + (compactSizeLength txin.scriptSig.length + txin.scriptSig.length) + 4

def CTxOut.serializeSize (txout : CTxOut) : Nat :=
  8 + (compactSizeLength txout.scriptPubKey.length + txout.scriptPubKey.length)

/-- `GetSerializeSize` of a transaction: version, time, inputs, outputs and
lock time. -/
def CTransaction.serializeSize (tx : CTransaction) : Nat :=
  4 + 4 + (compactSizeLength tx.vin.length + (tx.vin.map CTxIn.serializeSize).sum) +
    (compactSizeLength tx.vout.length + (tx.vout.map CTxOut.serializeSize).sum) + 4

theorem compactSizeLength_pos (n : Nat) : 1 ≤ compactSizeLength n := by
  unfold compactSizeLength
  split_ifs <;> decide

theorem CTransaction.inputs_le_serializeSize (tx : CTransaction) :
    41 * tx.vin.length ≤ tx.serializeSize := by
  have hsum : ∀ vin : List CTxIn,
      41 * vin.length ≤ (vin.map CTxIn.serializeSize).sum := by
    intro vin
    induction vin with
    | nil => simp
    | cons txin vin ih =>
      have := compactSizeLength_pos txin.scriptSig.length
      simp only [length_cons, map_cons, sum_cons, CTxIn.serializeSize]
      omega
  have := hsum tx.vin
  unfold CTransaction.serializeSize
  omega

def checkOutputs : List CTxOut → Int → Except Failure Int
  | [], nValueOut => .ok nValueOut
  | txout :: rest, nValueOut => do
    ensure (0 ≤ txout.nValue) (.invalid 100 "bad-txns-vout-negative")
    ensure (txout.nValue ≤ MAX_MONEY) (.invalid 100 "bad-txns-vout-toolarge")
    let nValueOut' ← addInt64 nValueOut txout.nValue
    ensure (moneyRange nValueOut') (.invalid 100 "bad-txns-txouttotal-toolarge")
    checkOutputs rest nValueOut'

def hasDuplicateInputs (tx : CTransaction) : Bool :=
  !decide (tx.vin.map CTxIn.prevout).Nodup

def checkTransaction (tx : CTransaction) (fCheckDuplicateInputs : Bool) :
    Except Failure Unit := do
  ensure (!tx.vin.isEmpty) (.invalid 10 "bad-txns-vin-empty")
  ensure (!tx.vout.isEmpty) (.invalid 10 "bad-txns-vout-empty")
  ensure (!tx.hasWitness) (.invalid 0 "bad-txns-witness")
  ensure (tx.serializeSize * WITNESS_SCALE_FACTOR ≤ MAX_BLOCK_WEIGHT)
    (.invalid 100 "bad-txns-oversize")
  let _ ← checkOutputs tx.vout 0
  ensure (!(fCheckDuplicateInputs && hasDuplicateInputs tx))
    (.invalid 100 "bad-txns-inputs-duplicate")
  if tx.isCoinBase then
    ensure ((tx.vin.head?).any fun txin =>
        decide (2 ≤ txin.scriptSig.length) && decide (txin.scriptSig.length ≤ 100))
      (.invalid 100 "bad-cb-length")
  else
    ensure (tx.vin.all fun txin => !txin.prevout.isNull)
      (.invalid 10 "bad-txns-prevout-null")

def totalOut (vout : List CTxOut) : Int := (vout.map CTxOut.nValue).sum

@[simp] theorem totalOut_cons (txout : CTxOut) (vout : List CTxOut) :
    totalOut (txout :: vout) = txout.nValue + totalOut vout := by
  simp [totalOut]

theorem inInt64_add {a b : Int} (ha : 0 ≤ a ∧ a ≤ MAX_MONEY) (hb : 0 ≤ b ∧ b ≤ MAX_MONEY) :
    inInt64 (a + b) := by
  rw [MAX_MONEY_eq] at ha hb
  unfold inInt64
  omega

theorem ensures_checkOutputs {strict : Prop} {vout : List CTxOut} {acc : Int}
    (hacc : 0 ≤ acc ∧ acc ≤ MAX_MONEY) :
    Ensures strict (checkOutputs vout acc) fun r =>
      r = acc + totalOut vout ∧ (0 ≤ r ∧ r ≤ MAX_MONEY) ∧
        ∀ txout ∈ vout, moneyRange txout.nValue = true := by
  induction vout generalizing acc with
  | nil => exact ⟨by simp [totalOut], hacc, by simp⟩
  | cons txout vout ih =>
    refine (ensures_ensure (by simp)).bind fun _ hlow => ?_
    refine (ensures_ensure (by simp)).bind fun _ hhigh => ?_
    have hvalue : 0 ≤ txout.nValue ∧ txout.nValue ≤ MAX_MONEY :=
      ⟨of_decide_eq_true hlow, of_decide_eq_true hhigh⟩
    refine (ensures_addInt64 fun _ => inInt64_add hacc hvalue).bind fun sum hsum => ?_
    refine (ensures_ensure (by simp)).bind fun _ hrange => ?_
    refine (ih ((moneyRange_iff sum).mp hrange)).mono fun r hr => ?_
    obtain ⟨hr, hrr, hall⟩ := hr
    refine ⟨by rw [hr, hsum, totalOut_cons, Int.add_assoc], hrr, ?_⟩
    exact forall_mem_cons.mpr ⟨(moneyRange_iff _).mpr hvalue, hall⟩

structure CheckedTx (tx : CTransaction) : Prop where
  values : ∀ txout ∈ tx.vout, moneyRange txout.nValue = true
  total : 0 ≤ totalOut tx.vout ∧ totalOut tx.vout ≤ MAX_MONEY
  distinct : (tx.vin.map CTxIn.prevout).Nodup
  inputs : tx.vin.length * (WITNESS_SCALE_FACTOR * 41) ≤ MAX_BLOCK_WEIGHT

theorem ensures_checkTransaction {strict : Prop} (tx : CTransaction) :
    Ensures strict (checkTransaction tx true) fun _ => CheckedTx tx := by
  refine (ensures_ensure (by simp)).bind fun _ _ => ?_
  refine (ensures_ensure (by simp)).bind fun _ _ => ?_
  refine (ensures_ensure (by simp)).bind fun _ _ => ?_
  refine (ensures_ensure (by simp)).bind fun _ hsize => ?_
  refine (ensures_checkOutputs ⟨Int.le_refl 0, by decide⟩).bind fun r hr => ?_
  refine (ensures_ensure (by simp)).bind fun _ hdup => ?_
  obtain ⟨hsum, hrange, hvalues⟩ := hr
  rw [Int.zero_add] at hsum
  subst hsum
  have hchecked : CheckedTx tx := by
    refine ⟨hvalues, hrange, ?_, ?_⟩
    · simpa [hasDuplicateInputs] using hdup
    · have hle := tx.inputs_le_serializeSize
      have hmax : tx.serializeSize * WITNESS_SCALE_FACTOR ≤ MAX_BLOCK_WEIGHT :=
        of_decide_eq_true hsize
      simp only [WITNESS_SCALE_FACTOR, MAX_BLOCK_WEIGHT] at hmax ⊢
      omega
  split
  · exact (ensures_ensure (by simp)).mono fun _ _ => hchecked
  · exact (ensures_ensure (by simp)).mono fun _ _ => hchecked

def getValueOutFrom : List CTxOut → Int → Except Failure Int
  | [], nValueOut => .ok nValueOut
  | txout :: rest, nValueOut => do
    let nValueOut' ← addInt64 nValueOut txout.nValue
    ensure (moneyRange txout.nValue && moneyRange nValueOut')
      (.throws "GetValueOut: value out of range")
    getValueOutFrom rest nValueOut'

def getValueOut (tx : CTransaction) : Except Failure Int := getValueOutFrom tx.vout 0

def sumInputs (tx : CTransaction) (nSpendHeight : Nat) :
    List CTxIn → Int → CoinsProg Int
  | [], nValueIn => pure nValueIn
  | txin :: rest, nValueIn => do
    match ← CoinsProg.accessCoin txin.prevout with
    | none => CoinsProg.fail (.assertion "!coin.IsSpent()")
    | some coin =>
      CoinsProg.require
        (!(coin.isCoinBase &&
          decide ((nSpendHeight : Int) - coin.nHeight < COINBASE_MATURITY)))
        (.invalid 0 "bad-txns-premature-spend-of-coinbase")
      CoinsProg.require (coin.nOriginTransactionTime ≤ tx.nTime)
        (.invalid 100 "bad-txs-and-input-times")
      let nValueIn' ← CoinsProg.ofExcept (addInt64 nValueIn coin.out.nValue)
      CoinsProg.require (moneyRange coin.out.nValue && moneyRange nValueIn')
        (.invalid 100 "bad-txns-inputvalues-outofrange")
      sumInputs tx nSpendHeight rest nValueIn'

def checkTxInputs (tx : CTransaction) (nSpendHeight : Nat) : CoinsProg Int := do
  let available ← haveInputs tx
  CoinsProg.require available (.invalid 100 "bad-txns-inputs-missingorspent")
  let nValueIn ← sumInputs tx nSpendHeight tx.vin 0
  let valueOut ← CoinsProg.ofExcept (getValueOut tx)
  CoinsProg.require (valueOut ≤ nValueIn) (.invalid 100 "bad-txns-in-belowout")
  let txfee ← CoinsProg.ofExcept (addInt64 nValueIn (-valueOut))
  CoinsProg.require (moneyRange txfee) (.invalid 100 "bad-txns-fee-outofrange")
  return txfee

theorem ensures_getValueOut {strict : Prop} {tx : CTransaction} (h : CheckedTx tx) :
    Ensures strict (getValueOut tx) fun valueOut => valueOut = totalOut tx.vout := by
  have hloop : ∀ (vout : List CTxOut) (acc : Int), (0 ≤ acc ∧ acc ≤ MAX_MONEY) →
      (∀ txout ∈ vout, moneyRange txout.nValue = true) →
      Ensures strict (getValueOutFrom vout acc) fun r => r = acc + totalOut vout := by
    intro vout
    induction vout with
    | nil =>
      intro acc _ _
      exact Ensures.ok (by simp [totalOut])
    | cons txout vout ih =>
      intro acc hacc hall
      have hvalue := (moneyRange_iff _).mp (hall txout mem_cons_self)
      refine (ensures_addInt64 fun _ => inInt64_add hacc hvalue).bind fun sum hsum => ?_
      refine (ensures_ensure (by simp)).bind fun _ hrange => ?_
      obtain ⟨-, hsumRange⟩ := Bool.and_eq_true_iff.mp hrange
      refine (ih sum ((moneyRange_iff sum).mp hsumRange) fun t ht =>
        hall t (mem_cons_of_mem _ ht)).mono fun r hr => ?_
      rw [hr, hsum, totalOut_cons, Int.add_assoc]
  refine (hloop tx.vout 0 ⟨Int.le_refl 0, by decide⟩ h.values).mono fun r hr => ?_
  rw [hr, Int.zero_add]

def CoinsView.valueAt (view : CoinsView) (o : COutPoint) : Int :=
  ((view.lookup o).map fun coin => coin.out.nValue).getD 0

def CoinsView.valueIn (view : CoinsView) (vin : List CTxIn) : Int :=
  (vin.map fun txin => view.valueAt txin.prevout).sum

open CoinsProg

section Inputs

variable {strict : Prop} {tx : CTransaction} {nSpendHeight : Nat} {view : CoinsView}

theorem post_haveInputsFrom {vin : List CTxIn} :
    Post strict (haveInputsFrom vin) view fun _ view' => view' = view := by
  induction vin with
  | nil => exact Post.pure rfl
  | cons txin vin ih =>
    refine post_haveCoin.bind fun b view' h => ?_
    obtain ⟨-, rfl⟩ := h
    cases b with
    | false => exact Post.pure rfl
    | true => exact ih

theorem post_haveInputs :
    Post strict (haveInputs tx) view fun _ view' => view' = view := by
  unfold haveInputs
  split
  · exact Post.pure rfl
  · exact post_haveInputsFrom

structure GoodInput (tx : CTransaction) (nSpendHeight : Nat) (coin : Coin) : Prop where
  value : moneyRange coin.out.nValue = true
  mature : coin.isCoinBase = true →
    COINBASE_MATURITY ≤ (nSpendHeight : Int) - coin.nHeight
  time : coin.nOriginTransactionTime ≤ tx.nTime

theorem post_sumInputs {vin : List CTxIn} {acc : Int} (hacc : 0 ≤ acc ∧ acc ≤ MAX_MONEY)
    (hcoins : strict → ∀ o coin, view.lookup o = some coin →
      moneyRange coin.out.nValue = true) :
    Post strict (sumInputs tx nSpendHeight vin acc) view fun r view' =>
      view' = view ∧ r = acc + view.valueIn vin ∧ (0 ≤ r ∧ r ≤ MAX_MONEY) ∧
        ∀ txin ∈ vin, ∃ coin, view.lookup txin.prevout = some coin ∧
          GoodInput tx nSpendHeight coin := by
  induction vin generalizing acc with
  | nil => exact Post.pure ⟨rfl, by simp [CoinsView.valueIn], hacc, by simp⟩
  | cons txin vin ih =>
    refine post_accessCoin.bind fun found view' h => ?_
    obtain ⟨hfound, rfl⟩ := h
    cases found with
    | none => exact post_fail (by simp)
    | some coin =>
      refine (post_require (by simp)).bind fun _ view' h => ?_
      obtain ⟨hmature, rfl⟩ := h
      refine (post_require (by simp)).bind fun _ view' h => ?_
      obtain ⟨htime, rfl⟩ := h
      refine (post_ofExcept (ensures_addInt64 fun hs => inInt64_add hacc
        ((moneyRange_iff _).mp (hcoins hs _ _ hfound.symm)))).bind fun sum view' h => ?_
      obtain ⟨hsum, rfl⟩ := h
      refine (post_require (by simp)).bind fun _ view' h => ?_
      obtain ⟨hrange, rfl⟩ := h
      obtain ⟨hvalue, hsumRange⟩ := Bool.and_eq_true_iff.mp hrange
      refine (ih ((moneyRange_iff sum).mp hsumRange)).mono fun r view' hr => ?_
      obtain ⟨rfl, hr, hrr, hall⟩ := hr
      have hgood : GoodInput tx nSpendHeight coin := by
        refine ⟨hvalue, fun hcb => ?_, of_decide_eq_true htime⟩
        simpa [hcb] using hmature
      refine ⟨rfl, ?_, hrr, ?_⟩
      · have hat : view'.valueAt txin.prevout = coin.out.nValue := by
          simp [CoinsView.valueAt, ← hfound]
        rw [hr, hsum, Int.add_assoc]
        simp [CoinsView.valueIn, hat]
      · exact forall_mem_cons.mpr ⟨⟨coin, hfound.symm, hgood⟩, hall⟩

theorem post_checkTxInputs (htx : CheckedTx tx)
    (hcoins : strict → ∀ o coin, view.lookup o = some coin →
      moneyRange coin.out.nValue = true) :
    Post strict (checkTxInputs tx nSpendHeight) view fun txfee view' =>
      view' = view ∧ (0 ≤ txfee ∧ txfee ≤ MAX_MONEY) ∧
        txfee + totalOut tx.vout = view.valueIn tx.vin ∧
        ∀ txin ∈ tx.vin, ∃ coin, view.lookup txin.prevout = some coin ∧
          GoodInput tx nSpendHeight coin := by
  refine post_haveInputs.bind fun _ view' h => ?_
  subst h
  refine (post_require (by simp)).bind fun _ view' h => ?_
  obtain ⟨-, rfl⟩ := h
  refine (post_sumInputs ⟨Int.le_refl 0, by decide⟩ hcoins).bind fun nValueIn view' h => ?_
  obtain ⟨rfl, hin, hinRange, hinputs⟩ := h
  refine (post_ofExcept (ensures_getValueOut htx)).bind fun valueOut view' h => ?_
  obtain ⟨rfl, rfl⟩ := h
  refine (post_require (by simp)).bind fun _ view' h => ?_
  obtain ⟨hle, rfl⟩ := h
  have hle := of_decide_eq_true hle
  have hout := htx.total
  rw [MAX_MONEY_eq] at hout hinRange
  refine (post_ofExcept (ensures_addInt64 fun _ => ?_)).bind fun txfee view' h => ?_
  · unfold inInt64
    omega
  · obtain ⟨rfl, rfl⟩ := h
    refine (post_require (by simp)).bind fun _ view' h => ?_
    obtain ⟨hfee, rfl⟩ := h
    refine Post.pure ⟨rfl, (moneyRange_iff _).mp hfee, ?_, hinputs⟩
    omega

end Inputs

end Verge
