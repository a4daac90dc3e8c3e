import Verge.Wallet.CreatePass

/-!
# What `CreateTransaction` creates

The draft of the loop is signed, so what is created pays the recipients and the fees
for its size.  It is relayed if no coins of the wallet leave a change that is reduced to
dust, the change script and the signatures are standard, and there is at most one data
output.
-/

namespace Verge

open Foundation List

theorem signInputs_spec {call : CreateCall} {coins : List CInputCoin} :
    ∀ {nIn : Nat} {tx tx' : CTransaction}, signInputs call nIn coins tx = some tx' →
      tx'.vin.map CTxIn.prevout = tx.vin.map CTxIn.prevout ∧ tx'.vout = tx.vout ∧
        tx'.nVersion = tx.nVersion := by
  induction coins with
  | nil =>
    intro nIn tx tx' h
    obtain rfl := Option.some.inj h
    exact ⟨rfl, rfl, rfl⟩
  | cons coin coins ih =>
    intro nIn tx tx' h
    rw [signInputs] at h
    split at h
    · cases h
    case h_2 scriptSig scriptWitness _ =>
      obtain ⟨hvin, hvout, hversion⟩ := ih h
      refine ⟨hvin.trans ?_, hvout, hversion⟩
      refine ext_getElem? fun n => ?_
      simp only [updateInput, List.getElem?_map, List.getElem?_modify]
      cases tx.vin[n]? with
      | none => rfl
      | some txin => by_cases hn : nIn = n <;> simp [hn]

/-- What holds of every signature that the wallet produces holds of every signed input. -/
theorem forall_vin_signInputs {call : CreateCall} {P : CScript → List (List UInt8) → Prop}
    (hsigns : ∀ tx nIn coin scriptSig scriptWitness,
      call.produceSignature tx nIn coin = some (scriptSig, scriptWitness) →
        P scriptSig scriptWitness) {coins : List CInputCoin} :
    ∀ {nIn : Nat} {tx tx' : CTransaction}, signInputs call nIn coins tx = some tx' →
      (∀ txin ∈ tx.vin, P txin.scriptSig txin.scriptWitness) →
      ∀ txin ∈ tx'.vin, P txin.scriptSig txin.scriptWitness := by
  induction coins with
  | nil =>
    intro nIn tx tx' h hvin
    obtain rfl := Option.some.inj h
    exact hvin
  | cons coin coins ih =>
    intro nIn tx tx' h hvin
    rw [signInputs] at h
    split at h
    · cases h
    case h_2 scriptSig scriptWitness hproduce =>
      refine ih h fun txin hmem => ?_
      obtain ⟨n, hget⟩ := mem_iff_getElem?.mp hmem
      simp only [updateInput, List.getElem?_modify, Option.map_eq_map,
        Option.map_eq_some_iff] at hget
      obtain ⟨txin', hget', rfl⟩ := hget
      split
      · exact hsigns _ _ _ _ _ hproduce
      · exact hvin txin' (mem_of_getElem? hget')

/-- `CalculateMaximumSignedTxSize` bounds the size of what the wallet signs. -/
def CreateCall.BoundsSignedSize (call : CreateCall) : Prop :=
  ∀ coins coins' vout tx, coins'.Perm coins →
    signInputs call 0 coins' (unsignedTx call coins' vout) = some tx →
    (getVirtualTransactionSize tx : Int) ≤
      call.maximumSignedTxSize (coins.map CInputCoin.outpoint) (vout.map CTxOut.scriptPubKey)

structure Created.Pays (call : CreateCall) (created : Created) : Prop where
  inputs : created.tx.vin.map CTxIn.prevout = created.selected_coins.map CInputCoin.outpoint
  nodup : (created.selected_coins.map CInputCoin.outpoint).Nodup
  mem : ∀ coin ∈ created.selected_coins, (coin.outpoint, coin.txout) ∈ call.outputs
  total : coinSum created.selected_coins = valueSum created.tx.vout + created.nFeeRet
  recipients : ∃ payees, List.Forall₂ PaysRecipient call.vecSend payees ∧
    amountSum call.vecSend - valueSum payees ≤ created.nFeeRet ∧
    ∃ scriptChange ∈ call.scriptChange,
      ChangeInserted scriptChange payees created.nChangePos created.tx.vout
  relayFee : minRelayTxFee.getFee (getVirtualTransactionSize created.tx) ≤ created.nFeeRet
  poolFee : getMinFee.getFee (getVirtualTransactionSize created.tx) ≤ created.nFeeRet

structure Created.Relayable (created : Created) : Prop where
  dust : ∀ txout ∈ created.tx.vout, isDust txout dustRelayFee = false
  standard : isStandardTx created.tx = .ok ()

/-- How a call of `CreateTransaction` should end: with a transaction that pays and is
relayed, or with a reason. -/
def CreateCall.Keeps (call : CreateCall) : Except Halt Created → Prop
  | .ok created => created.Pays call ∧ created.Relayable
  | .error (.fails _) => True
  | .error .aborts => False

def isDataScript (scriptPubKey : CScript) : Bool :=
  isStandard scriptPubKey == some .TX_NULL_DATA

/-- What recipients, coin control and wallet have to meet for the result to be relayed. -/
structure CreateCall.Safe (call : CreateCall) : Prop where
  search : ¬ call.AbortsSearch
  script : ∀ scriptChange ∈ call.scriptChange, (isStandard scriptChange).isSome = true
  change : ∀ scriptChange ∈ call.scriptChange, ∀ nChange, call.Reduces scriptChange nChange →
    isDust ⟨nChange, scriptChange⟩ dustRelayFee = false
  data : (call.scriptChange.toList ++ call.vecSend.map CRecipient.scriptPubKey).countP
    isDataScript ≤ 1
  signatures : ∀ tx nIn coin scriptSig scriptWitness,
    call.produceSignature tx nIn coin = some (scriptSig, scriptWitness) →
      (scriptSig.length ≤ MAX_STANDARD_SCRIPTSIG_SIZE ∧ isPushOnly scriptSig = true) ∧
        scriptWitness = []

section Finish

variable {call : CreateCall} {scriptChange : CScript}

theorem pays_of_finish {draft : Draft} {created : Created}
    (hscript : call.scriptChange = some scriptChange) (hdraft : draft.Ok call scriptChange)
    (hsize : call.BoundsSignedSize) (h : finishTransaction call draft = .ok created) :
    created.Pays call ∧ created.tx.nVersion = 1 ∧
      getTransactionWeight created.tx < MAX_STANDARD_TX_WEIGHT ∧
      created.tx.vout = draft.vout ∧
      (call.Safe → ∀ txin ∈ created.tx.vin, txin.IsStandard ∧ txin.scriptWitness = []) := by
  unfold finishTransaction at h
  simp only at h
  cases hsign : signInputs call 0 (call.shuffle.shuffle draft.setCoins)
      (unsignedTx call (call.shuffle.shuffle draft.setCoins) draft.vout) with
  | none =>
    rw [hsign] at h
    cases h
  | some txNew =>
    rw [hsign] at h
    simp only at h
    split at h
    · cases h
    case isFalse hweight =>
      split at h
      · cases h
      · obtain rfl := Except.ok.inj h
        obtain ⟨hvin, hvout, hversion⟩ := signInputs_spec hsign
        have hperm := call.shuffle.perm draft.setCoins
        obtain ⟨nBytes, hbytes, hfee⟩ := hdraft.fee
        have hbound := hsize draft.setCoins _ draft.vout txNew hperm hsign
        have hle : getVirtualTransactionSize txNew ≤ nBytes := by omega
        have hrate := CFeeRate.le_max_right call.m_min_fee minRelayTxFee
        have hrelay : minRelayTxFee.getFee (getVirtualTransactionSize txNew) ≤ draft.nFeeRet :=
          (CFeeRate.getFee_mono (by decide) hrate hle).trans hfee
        obtain ⟨payees, hpays, hdust, hloss, hchange⟩ := hdraft.pays
        have hvout' : txNew.vout = draft.vout := hvout
        have hchange' : ChangeInserted scriptChange payees draft.nChangePos txNew.vout :=
          hvout' ▸ hchange
        refine ⟨⟨?_, ?_, ?_, ?_, ⟨payees, hpays, hloss, scriptChange, hscript, hchange'⟩, hrelay,
          hrelay⟩, hversion, not_le.mp hweight, hvout, fun hsafe => ?_⟩
        · rw [hvin]
          simp [unsignedTx]
        · exact ((hperm.map _).nodup_iff).mpr hdraft.nodup
        · exact fun coin hcoin => hdraft.mem coin (hperm.mem_iff.mp hcoin)
        · simp only
          rw [coinSum_perm hperm, hvout', hdraft.total]
        · have hsigned := forall_vin_signInputs hsafe.signatures hsign fun txin hmem => by
            obtain ⟨coin, -, rfl⟩ := mem_map.mp hmem
            exact ⟨⟨by simp, rfl⟩, rfl⟩
          exact hsigned

theorem finishTransaction_ne_aborts (draft : Draft) :
    finishTransaction call draft ≠ .error .aborts := by
  unfold finishTransaction
  simp only
  split
  · simp
  · split
    · simp
    · split <;> simp

theorem isSome_of_paysRecipient {vecSend : List CRecipient} {payees : List CTxOut}
    (hstandard : ∀ recipient ∈ vecSend, (isStandard recipient.scriptPubKey).isSome = true)
    (hpays : List.Forall₂ PaysRecipient vecSend payees) :
    ∀ txout ∈ payees, (isStandard txout.scriptPubKey).isSome = true := by
  induction hpays with
  | nil => simp
  | cons hpay _ ih =>
    obtain ⟨hrecipient, hrest⟩ := forall_mem_cons.mp hstandard
    exact forall_mem_cons.mpr ⟨hpay.1 ▸ hrecipient, ih hrest⟩

theorem dataOutputs_of_changeInserted {payees vout : List CTxOut} {nChangePos : Option Nat}
    (hpays : List.Forall₂ PaysRecipient call.vecSend payees)
    (hscript : call.scriptChange = some scriptChange)
    (h : ChangeInserted scriptChange payees nChangePos vout) :
    dataOutputs vout ≤
      (call.scriptChange.toList ++ call.vecSend.map CRecipient.scriptPubKey).countP
        isDataScript := by
  have hcount : ∀ vout : List CTxOut,
      dataOutputs vout = (vout.map CTxOut.scriptPubKey).countP isDataScript := fun vout => by
    rw [countP_map]
    rfl
  rw [hcount, hscript, Option.toList_some, countP_append]
  cases h with
  | noChange =>
    rw [scripts_of_paysRecipient hpays]
    exact Nat.le_add_left _ _
  | inserted hle nChange =>
    rw [((perm_insertIdx _ _ hle).map _).countP_eq, map_cons, scripts_of_paysRecipient hpays,
      ← singleton_append, countP_append]

theorem relayable_of_safe {draft : Draft} {created : Created}
    (hscript : call.scriptChange = some scriptChange) (hdraft : draft.Ok call scriptChange)
    (hsafe : call.Safe) (hversion : created.tx.nVersion = 1)
    (hweight : getTransactionWeight created.tx < MAX_STANDARD_TX_WEIGHT)
    (hstandard : ∀ recipient ∈ call.vecSend, (isStandard recipient.scriptPubKey).isSome = true)
    (hvout : created.tx.vout = draft.vout)
    (hvin : ∀ txin ∈ created.tx.vin, txin.IsStandard ∧ txin.scriptWitness = []) :
    created.Relayable := by
  obtain ⟨payees, hpays, hdust, -, hchange⟩ := hdraft.pays
  have hscripts := isSome_of_paysRecipient hstandard hpays
  have houtput : ∀ txout ∈ created.tx.vout,
      isDust txout dustRelayFee = false ∧ (isStandard txout.scriptPubKey).isSome = true := by
    intro txout hmem
    rw [hvout] at hmem
    rcases hchange.mem hmem with hpayee | ⟨n, hpos, hget, rfl⟩
    · exact ⟨hdust txout hpayee, hscripts txout hpayee⟩
    · refine ⟨(hdraft.change n txout hpos hget).elim id ?_, hsafe.script _ hscript⟩
      exact hsafe.change _ hscript txout.nValue
  have hwitness : created.tx.hasWitness = false := by
    simp only [CTransaction.hasWitness, any_eq_false]
    intro txin hmem
    simp [(hvin txin hmem).2]
  have hdata : dataOutputs created.tx.vout ≤ 1 := by
    rw [hvout]
    exact (dataOutputs_of_changeInserted hpays hscript hchange).trans hsafe.data
  refine ⟨fun txout hmem => (houtput txout hmem).1, isStandardTx_eq_ok.mpr ?_⟩
  refine ⟨hwitness, by omega, by rw [hversion]; decide, hweight,
    fun txin hmem => (hvin txin hmem).1, ?_, hdata⟩
  intro txout hmem
  obtain ⟨hnodust, hsome⟩ := houtput txout hmem
  obtain ⟨whichType, htype⟩ := Option.isSome_iff_exists.mp hsome
  exact ⟨whichType, htype, .inr hnodust⟩

end Finish

/-- The call ends, with the same result for every number of passes that suffices. -/
def CreateCall.EndsIn (call : CreateCall) (result : Except Halt Created) : Prop :=
  ∃ fuel, ∀ fuel' ≥ fuel, createTransaction call fuel' = some result

theorem CreateCall.EndsIn.unique {call : CreateCall} {result result' : Except Halt Created}
    (h : call.EndsIn result) (h' : call.EndsIn result') : result = result' := by
  obtain ⟨fuel, hfuel⟩ := h
  obtain ⟨fuel', hfuel'⟩ := h'
  exact Option.some.inj ((hfuel _ (le_max_left fuel fuel')).symm.trans
    (hfuel' _ (le_max_right fuel fuel')))

def CreateCall.StandardRecipients (call : CreateCall) : Prop :=
  ∀ recipient ∈ call.vecSend, (isStandard recipient.scriptPubKey).isSome = true ∧
    isDust ⟨recipient.nAmount, recipient.scriptPubKey⟩ dustRelayFee = false

section Ends

variable {call : CreateCall}

theorem CreateCall.StandardRecipients.amountSum_nonneg (h : call.StandardRecipients) :
    sumAmounts call.vecSend 0 = .ok (amountSum call.vecSend) ∧ 0 ≤ amountSum call.vecSend := by
  have hnonneg : ∀ recipient ∈ call.vecSend, 0 ≤ recipient.nAmount := fun recipient hmem =>
    nonneg_of_not_isDust (h recipient hmem).2
  refine ⟨?_, sum_nonneg (by simpa using hnonneg)⟩
  rw [sumAmounts_of_nonneg le_rfl hnonneg, zero_add]

theorem endsIn_aborts (hstandard : call.StandardRecipients) (habort : call.AbortsSearch) :
    call.EndsIn (.error .aborts) := by
  obtain ⟨hsum, -⟩ := hstandard.amountSum_nonneg
  obtain ⟨scriptChange, hscript⟩ := Option.isSome_iff_exists.mp habort.1
  have hne : call.vecSend.isEmpty = false := by
    have hpos := habort.2.2.2.1
    cases hvecSend : call.vecSend with
    | nil => simp [amountSum, hvecSend] at hpos
    | cons recipient rest => rfl
  have hloop : whileLoop (createPass call scriptChange (amountSum call.vecSend)) 1 call.start =
      some (.error .aborts) := by
    have hpass : createPass call scriptChange (amountSum call.vecSend) call.start =
        .done (.error .aborts) :=
      createPass_of_abortsSearch (fun recipient hmem => (hstandard recipient hmem).2) habort
    simp [whileLoop, hpass]
  refine ⟨1, fun fuel hfuel => ?_⟩
  simp only [createTransaction, hsum, hne, hscript, whileLoop_mono hloop hfuel,
    Bool.false_eq_true, if_false, Option.map_some]
  rfl

theorem exists_endsIn (hstandard : call.StandardRecipients) (hsize : call.BoundsSignedSize)
    (habort : ¬ call.AbortsSearch) :
    ∃ result, call.EndsIn result ∧ result ≠ .error .aborts ∧
      ∀ created, result = .ok created →
        created.Pays call ∧ (call.Safe → created.Relayable) := by
  obtain ⟨hsum, hamount⟩ := hstandard.amountSum_nonneg
  cases hempty : call.vecSend.isEmpty with
  | true =>
    refine ⟨.error (.fails "Transaction must have at least one recipient"), ⟨0, fun fuel _ => ?_⟩,
      by simp, by simp⟩
    simp only [createTransaction, hsum, hempty, if_true]
  | false =>
    cases hscript : call.scriptChange with
    | none =>
      refine ⟨.error (.fails "Keypool ran out, please call keypoolrefill first"),
        ⟨0, fun fuel _ => ?_⟩, by simp, by simp⟩
      simp only [createTransaction, hsum, hempty, hscript, Bool.false_eq_true, if_false]
    | some scriptChange =>
      obtain ⟨fuel, result, hrun, hne, hok⟩ := exists_draft hscript habort hamount
      refine ⟨result.bind (finishTransaction call), ⟨fuel, fun fuel' hle => ?_⟩, ?_⟩
      · simp only [createTransaction, hsum, hempty, hscript, whileLoop_mono hrun hle,
          Bool.false_eq_true, if_false, Option.map_some]
      · cases result with
        | error halt =>
          refine ⟨fun h => hne ?_, by simp [Except.bind]⟩
          obtain rfl := Except.error.inj h
          rfl
        | ok draft =>
          refine ⟨finishTransaction_ne_aborts draft, fun created hfinish => ?_⟩
          have hdraft := hok draft rfl
          obtain ⟨hpays, hversion, hweight, hvout, hvin⟩ :=
            pays_of_finish hscript hdraft hsize hfinish
          refine ⟨hpays, fun hsafe => relayable_of_safe hscript hdraft hsafe hversion hweight ?_
            hvout (hvin hsafe)⟩
          exact fun recipient hmem => (hstandard recipient hmem).1

end Ends

theorem createTransaction_mono {call : CreateCall} {fuel fuel' : Nat} {result : Except Halt Created}
    (h : createTransaction call fuel = some result) (hle : fuel ≤ fuel') :
    createTransaction call fuel' = some result := by
  unfold createTransaction at h ⊢
  cases hsum : sumAmounts call.vecSend 0 with
  | error halt =>
    rw [hsum] at h
    exact h
  | ok nValue =>
    simp only [hsum] at h ⊢
    cases hempty : call.vecSend.isEmpty with
    | true =>
      rw [hempty] at h
      exact h
    | false =>
      rw [hempty] at h
      simp only [Bool.false_eq_true, if_false] at h ⊢
      cases hscript : call.scriptChange with
      | none =>
        rw [hscript] at h
        exact h
      | some scriptChange =>
        rw [hscript] at h
        obtain ⟨draft, hrun, rfl⟩ := Option.map_eq_some_iff.mp h
        exact Option.map_eq_some_iff.mpr ⟨draft, whileLoop_mono hrun hle, rfl⟩

namespace SampleCall

def scriptTo (b : UInt8) : CScript := [0x76, 0xa9, 20] ++ List.replicate 20 b ++ [0x88, 0xac]

def coin (nValue : Int) : COutput where
  outpoint := ⟨7, 0⟩
  txout := ⟨nValue, scriptTo 1⟩
  nDepth := 100
  nInputBytes := 148
  fSpendable := true
  fFromMe := false
  ancestors := 0
  descendants := 0

def scriptSig : CScript := pushData (List.replicate 72 0x30) ++ pushData (List.replicate 33 2)

def order : CoinSort where
  sort coins := coins.mergeSort fun a b => decide (b.effective_value ≤ a.effective_value)
  perm coins := List.mergeSort_perm coins _
  sorted coins := by
    let le (a b : CInputCoin) : Bool := decide (b.effective_value ≤ a.effective_value)
    have h : (coins.mergeSort le).Pairwise fun a b => le a b = true :=
      List.pairwise_mergeSort (fun a b c => by simp only [le, decide_eq_true_eq]; omega)
        (fun a b => by simp only [le, Bool.or_eq_true, decide_eq_true_eq]; omega) coins
    simpa [le] using h

def shuffle : CoinShuffle := ⟨id, fun coins => List.Perm.refl coins⟩

/-- A payment of 1000000 from a wallet with one coin. -/
def call (nValue : Int) : CreateCall where
  vecSend := [⟨scriptTo 2, 1000000, false⟩]
  nChangePosRequest := -1
  coin_control := ⟨[], List.nodup_nil, false⟩
  limits := ⟨true, 25, 25, false⟩
  vAvailableCoins := [coin nValue]
  nodup := by simp
  mapWallet hash := if hash = 7 then some [(coin nValue).txout] else none
  m_min_fee := ⟨10 * CENT⟩
  scriptChange := some (scriptTo 3)
  change_spend_size := 148
  maximumSignedTxSize vin vout :=
    (30 + 157 * vin.length + (vout.map fun script => script.length + 17).sum : Nat)
  produceSignature _ _ _ := some (scriptSig, [])
  nLockTime := 1000
  nTime := 1700000000
  nSequence := 4294967294
  doubleSha256 _ := 0
  withinChainLimits _ := true
  random _ _ := ⟨⟨shuffle, order, fun _ _ => true, fun _ _ => true⟩, order⟩
  nRandomPos _ := 1
  shuffle := shuffle

def created (nValue nChange : Int) : Created where
  tx :=
    { vin := [⟨⟨7, 0⟩, scriptSig, 4294967294, []⟩]
      vout := [⟨1000000, scriptTo 2⟩, ⟨nChange, scriptTo 3⟩]
      nVersion := 1
      nTime := 1700000000
      nLockTime := 1000
      hash := 0 }
  nFeeRet := 100000
  nChangePos := some 1
  selected_coins := [.ofTxOut ⟨7, 0⟩ (coin nValue).txout]

theorem endsIn_dust : (call 1105000).EndsIn (.ok (created 1105000 5000)) := by
  have h : createTransaction (call 1105000) 2 = some (.ok (created 1105000 5000)) := by
    decide +kernel
  exact ⟨2, fun fuel => createTransaction_mono h⟩

theorem endsIn_change : (call 1150000).EndsIn (.ok (created 1150000 50000)) := by
  have h : createTransaction (call 1150000) 2 = some (.ok (created 1150000 50000)) := by
    decide +kernel
  exact ⟨2, fun fuel => createTransaction_mono h⟩

theorem fee_eq : (CFeeRate.max ⟨10 * CENT⟩ minRelayTxFee).getFee 271 = 100000 := by
  decide +kernel

variable (nValue : Int)

theorem standardRecipients : (call nValue).StandardRecipients := by
  intro recipient hmem
  obtain rfl := mem_singleton.mp hmem
  decide +kernel

theorem length_writeCompactSize_le (n : Nat) : (writeCompactSize n).length ≤ 9 := by
  unfold writeCompactSize
  split_ifs <;> simp

theorem length_serialize_le {tx : CTransaction}
    (hvin : ∀ txin ∈ tx.vin, txin.scriptSig.length ≤ 107) :
    tx.serialize.length ≤
      30 + 157 * tx.vin.length + (tx.vout.map fun txout => txout.scriptPubKey.length + 17).sum := by
  have hinputs : (tx.vin.flatMap CTxIn.serialize).length ≤ tx.vin.length * 157 := by
    rw [length_flatMap]
    have hone : ∀ n ∈ tx.vin.map fun txin => txin.serialize.length, n ≤ 157 := by
      intro n hn
      obtain ⟨txin, hmem, rfl⟩ := mem_map.mp hn
      have hscript := hvin txin hmem
      have hsize := length_writeCompactSize_le txin.scriptSig.length
      simp only [CTxIn.serialize, length_append, length_hashBytes, length_writeLE]
      omega
    simpa using sum_le_card_nsmul _ _ hone
  have houtputs : (tx.vout.flatMap CTxOut.serialize).length ≤
      (tx.vout.map fun txout => txout.scriptPubKey.length + 17).sum := by
    rw [length_flatMap]
    refine sum_le_sum fun txout _ => ?_
    have hsize := length_writeCompactSize_le txout.scriptPubKey.length
    simp only [CTxOut.serialize, length_append, length_writeLE]
    omega
  have hvinSize := length_writeCompactSize_le tx.vin.length
  have hvoutSize := length_writeCompactSize_le tx.vout.length
  simp only [CTransaction.serialize, length_append, length_writeLE]
  omega

theorem boundsSignedSize : (call nValue).BoundsSignedSize := by
  intro coins coins' vout tx hperm hsign
  obtain ⟨hvin, hvout, -⟩ := signInputs_spec hsign
  have hlength : tx.vin.length = coins.length := by
    have := congrArg List.length hvin
    simpa [unsignedTx, hperm.length_eq] using this
  have hscripts := forall_vin_signInputs (P := fun scriptSig _ => scriptSig.length ≤ 107)
    (fun _ _ _ _ _ h => by cases h; decide) hsign (by simp [unsignedTx])
  have hle := length_serialize_le hscripts
  have hsum : (tx.vout.map fun txout => txout.scriptPubKey.length + 17).sum =
      ((vout.map CTxOut.scriptPubKey).map fun script => script.length + 17).sum := by
    rw [hvout, map_map]
    rfl
  have hvirtual : getVirtualTransactionSize tx = tx.serialize.length := by
    simp only [getVirtualTransactionSize, getTransactionWeight, WITNESS_SCALE_FACTOR]
    omega
  simp only [call, hvirtual, length_map]
  rw [hsum, hlength] at hle
  exact_mod_cast hle

theorem outputs_eq : (call nValue).outputs = [(⟨7, 0⟩, ⟨nValue, scriptTo 1⟩)] := rfl

theorem maximumSignedTxSize_eq {nChangePos : Nat} (h : nChangePos ≤ 1) :
    (call nValue).maximumSignedTxSize [⟨7, 0⟩]
      (([scriptTo 2] : List CScript).insertIdx nChangePos (scriptTo 3)) = 271 := by
  match nChangePos, h with
  | 0, _ => rfl
  | 1, _ => rfl

/-- The only coin pays the amount and a fee of 100000. -/
theorem reduces_eq {nChange : Int} (h : (call nValue).Reduces (scriptTo 3) nChange) :
    nChange = nValue - 1000000 - 100000 := by
  obtain ⟨-, hmin, ⟨coins, nValueRet⟩, n, nBytes, ⟨hnodup, hmem, htotal⟩, hn, hsize, hchange⟩ := h
  have hamount : amountSum (call nValue).vecSend = 1000000 := rfl
  rw [outputs_eq] at hmem
  rw [hamount] at hchange
  simp only at hnodup hmem htotal hsize hchange
  match coins with
  | [] =>
    have hnonneg := CFeeRate.getFee_nonneg (call nValue).requiredFeeRate_pos nBytes
    have hfinal : MIN_FINAL_CHANGE = 5000 := rfl
    simp only [coinSum, map_nil, sum_nil] at htotal
    omega
  | [coin] =>
    obtain ⟨hout, htxout⟩ := Prod.mk.inj (mem_singleton.mp (hmem coin mem_cons_self))
    rw [map_singleton, hout] at hsize
    have hbytes : (271 : Int) = nBytes := (maximumSignedTxSize_eq nValue hn).symm.trans hsize
    obtain rfl : 271 = nBytes := by exact_mod_cast hbytes
    have hfee : (call nValue).requiredFeeRate.getFee 271 = 100000 := fee_eq
    simp only [coinSum, map_singleton, sum_singleton, htxout] at htotal
    omega
  | coin :: coin' :: coins =>
    have hsame : ∀ c ∈ coin :: coin' :: coins, c.outpoint = ⟨7, 0⟩ := fun c h =>
      (Prod.mk.inj (mem_singleton.mp (hmem c h))).1
    rw [map_cons, map_cons, hsame coin mem_cons_self,
      hsame coin' (mem_cons_of_mem _ mem_cons_self)] at hnodup
    exact absurd mem_cons_self (nodup_cons.mp hnodup).1

theorem safe (h : 10000 ≤ nValue - 1000000 - 100000) : (call nValue).Safe where
  search h := absurd h.2.2.2.2 (show ¬ (148 : Int) < 0 by decide)
  script := by
    rintro scriptChange ⟨⟩
    decide +kernel
  change := by
    rintro scriptChange ⟨⟩ nChange hreduces
    rw [reduces_eq nValue hreduces]
    exact not_isDust_of_le (by decide +kernel : isDust ⟨10000, scriptTo 3⟩ dustRelayFee = false) h
  data := show ([scriptTo 3] ++ [scriptTo 2]).countP isDataScript ≤ 1 by decide +kernel
  signatures := by
    rintro tx nIn coin sig wit ⟨⟩
    exact ⟨by decide, rfl⟩

end SampleCall

end Verge
