import Verge.Wallet.CreateTransaction

/-!
# The passes of `CreateTransaction`

Every pass of the loop keeps the inputs, the outputs and the fee in balance, and the
fee rises from pass to pass up to what the wallet can pay.  The loop is therefore
left, with a draft that pays the recipients and the required fee or with a reason,
unless the search for inputs aborts on a change that the wallet cannot sign for.
-/

namespace Verge

open Foundation List

/-! ## Outputs -/

def valueSum (vout : List CTxOut) : Int := (vout.map CTxOut.nValue).sum

@[simp] theorem valueSum_nil : valueSum [] = 0 := rfl

@[simp] theorem valueSum_cons (txout : CTxOut) (vout : List CTxOut) :
    valueSum (txout :: vout) = txout.nValue + valueSum vout := by
  simp [valueSum]

section Insert

variable {vout : List CTxOut} {n : Nat} (h : n ≤ vout.length) (txout : CTxOut)

include h

theorem valueSum_insertIdx : valueSum (vout.insertIdx n txout) = txout.nValue + valueSum vout := by
  rw [← valueSum_cons]
  exact ((perm_insertIdx txout vout h).map _).sum_eq

theorem addToOutput_insertIdx (nDelta : Int) :
    addToOutput (vout.insertIdx n txout) n nDelta =
      vout.insertIdx n { txout with nValue := txout.nValue + nDelta } := by
  unfold addToOutput
  induction vout generalizing n with
  | nil =>
    obtain rfl : n = 0 := Nat.le_zero.mp h
    rfl
  | cons first vout ih =>
    cases n with
    | zero => rfl
    | succ n =>
      simp only [insertIdx_succ_cons, modify_succ_cons]
      rw [ih (Nat.le_of_succ_le_succ h)]

theorem getElem?_insertIdx : (vout.insertIdx n txout)[n]? = some txout := by
  rw [List.getElem?_insertIdx_self, if_pos h]

end Insert

/-! ## Recipients -/

def PaysRecipient (recipient : CRecipient) (txout : CTxOut) : Prop :=
  txout.scriptPubKey = recipient.scriptPubKey ∧
    (recipient.fSubtractFeeFromAmount = false → txout.nValue = recipient.nAmount)

def amountSum (vecSend : List CRecipient) : Int := (vecSend.map CRecipient.nAmount).sum

variable {vecSend : List CRecipient} {nFeeRet : Int} {payees : List CTxOut}

theorem scripts_of_paysRecipient (h : List.Forall₂ PaysRecipient vecSend payees) :
    payees.map CTxOut.scriptPubKey = vecSend.map CRecipient.scriptPubKey := by
  induction h with
  | nil => rfl
  | cons hpay _ ih => rw [map_cons, map_cons, hpay.1, ih]

theorem sumAmounts_of_nonneg {nValue : Int} (hvalue : 0 ≤ nValue)
    (h : ∀ recipient ∈ vecSend, 0 ≤ recipient.nAmount) :
    sumAmounts vecSend nValue = .ok (nValue + amountSum vecSend) := by
  induction vecSend generalizing nValue with
  | nil => simp [sumAmounts, amountSum]
  | cons recipient vecSend ih =>
    obtain ⟨hrecipient, hrest⟩ := forall_mem_cons.mp h
    rw [sumAmounts, if_neg (by omega), ih (by omega) hrest]
    simp only [amountSum, map_cons, sum_cons]
    congr 1
    omega

theorem payRecipients_spec {nSubtract : Nat} :
    ∀ {fFirst : Bool} {payees : List CTxOut},
      payRecipients nFeeRet nSubtract fFirst vecSend = .ok payees →
      List.Forall₂ PaysRecipient vecSend payees ∧
        (∀ txout ∈ payees, isDust txout dustRelayFee = false) ∧
        valueSum payees = amountSum vecSend -
          (vecSend.countP CRecipient.fSubtractFeeFromAmount * nFeeRet.tdiv nSubtract +
            if fFirst ∧ 0 < vecSend.countP CRecipient.fSubtractFeeFromAmount then
              nFeeRet.tmod nSubtract else 0) := by
  induction vecSend with
  | nil =>
    intro fFirst payees h
    obtain rfl := Except.ok.inj h
    simp [amountSum]
  | cons recipient vecSend ih =>
    intro fFirst payees h
    rw [payRecipients] at h
    split at h
    · cases h
    case isFalse hdust =>
      cases hrest : payRecipients nFeeRet nSubtract
          (fFirst && !recipient.fSubtractFeeFromAmount) vecSend with
      | error halt =>
        rw [hrest] at h
        cases h
      | ok rest =>
        rw [hrest] at h
        obtain rfl := Except.ok.inj h
        obtain ⟨hpays, hdusts, hsum⟩ := ih hrest
        refine ⟨.cons ⟨rfl, ?_⟩ hpays, forall_mem_cons.mpr ⟨?_, hdusts⟩, ?_⟩
        · intro hflag
          simp [recipientValue, hflag]
        · simpa using hdust
        · rw [valueSum_cons, hsum, countP_cons]
          simp only [amountSum, map_cons, sum_cons, recipientValue]
          cases recipient.fSubtractFeeFromAmount with
          | false =>
            simp only [Bool.false_eq_true, if_false, Bool.not_false, Bool.and_true,
              Nat.add_zero]
            omega
          | true =>
            cases fFirst with
            | false =>
              simp only [Bool.false_eq_true, false_and, if_false, if_true, Bool.not_true,
                Bool.and_false]
              push_cast
              rw [Int.add_mul]
              omega
            | true =>
              simp only [Bool.false_eq_true, false_and, if_false, if_true, Bool.not_true,
                Bool.and_false, true_and, Nat.succ_pos']
              push_cast
              rw [Int.add_mul]
              omega

theorem valueSum_payRecipients
    (h : payRecipients nFeeRet (vecSend.countP CRecipient.fSubtractFeeFromAmount) true vecSend =
      .ok payees) :
    valueSum payees = if vecSend.countP CRecipient.fSubtractFeeFromAmount = 0 then amountSum vecSend
      else amountSum vecSend - nFeeRet := by
  obtain ⟨-, -, hsum⟩ := payRecipients_spec h
  rw [hsum]
  by_cases hzero : vecSend.countP CRecipient.fSubtractFeeFromAmount = 0
  · rw [if_pos hzero, hzero]
    simp
  · rw [if_neg hzero, if_pos ⟨rfl, Nat.pos_of_ne_zero hzero⟩, Int.mul_tdiv_add_tmod]

theorem payRecipients_error {nSubtract : Nat} :
    ∀ {fFirst : Bool} {halt : Halt},
      payRecipients nFeeRet nSubtract fFirst vecSend = .error halt → halt ≠ .aborts := by
  induction vecSend with
  | nil =>
    intro fFirst halt h
    cases h
  | cons recipient vecSend ih =>
    intro fFirst halt h
    rw [payRecipients] at h
    split at h
    · obtain rfl := Except.error.inj h
      simp
    · cases hrest : payRecipients nFeeRet nSubtract
          (fFirst && !recipient.fSubtractFeeFromAmount) vecSend with
      | error halt' =>
        rw [hrest] at h
        obtain rfl := Except.error.inj h
        exact ih hrest
      | ok rest =>
        rw [hrest] at h
        cases h

theorem exists_payRecipients_zero {nSubtract : Nat} (h : ∀ recipient ∈ vecSend,
      isDust ⟨recipient.nAmount, recipient.scriptPubKey⟩ dustRelayFee = false) :
    ∀ fFirst : Bool, ∃ payees, payRecipients 0 nSubtract fFirst vecSend = .ok payees := by
  induction vecSend with
  | nil => exact fun fFirst => ⟨[], rfl⟩
  | cons recipient vecSend ih =>
    intro fFirst
    obtain ⟨hrecipient, hrest⟩ := forall_mem_cons.mp h
    have hvalue : recipientValue 0 nSubtract fFirst recipient = recipient.nAmount := by
      simp [recipientValue]
    obtain ⟨payees, hpayees⟩ := ih hrest (fFirst && !recipient.fSubtractFeeFromAmount)
    refine ⟨⟨recipient.nAmount, recipient.scriptPubKey⟩ :: payees, ?_⟩
    rw [payRecipients, hvalue, hrecipient, if_neg (by decide), hpayees]

/-! ## Change -/

/-- The outputs are those to the recipients, and at most one with the change script. -/
inductive ChangeInserted (scriptChange : CScript) (payees : List CTxOut) :
    Option Nat → List CTxOut → Prop where
  | noChange : ChangeInserted scriptChange payees none payees
  | inserted {nChangePos : Nat} (hle : nChangePos ≤ payees.length) (nChange : Int) :
      ChangeInserted scriptChange payees (some nChangePos)
        (payees.insertIdx nChangePos ⟨nChange, scriptChange⟩)

namespace ChangeInserted

variable {scriptChange : CScript} {payees vout : List CTxOut} {nChangePos : Option Nat}

theorem mem (h : ChangeInserted scriptChange payees nChangePos vout) {txout : CTxOut}
    (hmem : txout ∈ vout) :
    txout ∈ payees ∨ ∃ n, nChangePos = some n ∧ vout[n]? = some txout ∧
      txout.scriptPubKey = scriptChange := by
  cases h with
  | noChange => exact .inl hmem
  | inserted hle nChange =>
    rcases eq_or_mem_of_mem_insertIdx hmem with rfl | hmem
    · exact .inr ⟨_, rfl, getElem?_insertIdx hle _, rfl⟩
    · exact .inl hmem

theorem addToOutput {n : Nat} (h : ChangeInserted scriptChange payees (some n) vout)
    (nDelta : Int) :
    ChangeInserted scriptChange payees (some n) (addToOutput vout n nDelta) ∧
      valueSum (Verge.addToOutput vout n nDelta) = valueSum vout + nDelta ∧
      (Verge.addToOutput vout n nDelta).map CTxOut.scriptPubKey =
        vout.map CTxOut.scriptPubKey := by
  cases h with
  | inserted hle nChange =>
    rw [addToOutput_insertIdx hle, valueSum_insertIdx hle, valueSum_insertIdx hle]
    refine ⟨.inserted hle _, by simp only; omega, ?_⟩
    rw [map_insertIdx, map_insertIdx]

end ChangeInserted

theorem insertChange_spec {call : CreateCall} {scriptChange : CScript} {nPass : Nat} {nChange : Int}
    {filled : Filled} (hchange : 0 ≤ nChange)
    (h : insertChange call scriptChange nPass nFeeRet payees nChange = .ok filled) :
    ChangeInserted scriptChange payees filled.nChangePos filled.vout ∧
      valueSum filled.vout + filled.nFeeRet = valueSum payees + nFeeRet + nChange ∧
      nFeeRet ≤ filled.nFeeRet ∧
      ∀ n txout, filled.nChangePos = some n → filled.vout[n]? = some txout →
        isDust txout dustRelayFee = false := by
  unfold insertChange at h
  split at h
  case isFalse hzero =>
    obtain rfl := Except.ok.inj h
    exact ⟨.noChange, by simp only; omega, le_rfl, by simp⟩
  case isTrue hpos =>
    simp only at h
    split at h
    case isTrue =>
      obtain rfl := Except.ok.inj h
      exact ⟨.noChange, by simp only; omega, by simp only; omega, by simp⟩
    case isFalse hdust =>
      have hchange : ∀ {n : Nat}, n ≤ payees.length → ∀ n' txout, some n = some n' →
          (payees.insertIdx n ⟨nChange, scriptChange⟩)[n']? = some txout →
          isDust txout dustRelayFee = false := by
        rintro n hle n' txout ⟨⟩ hget
        obtain rfl := Option.some.inj ((getElem?_insertIdx hle _).symm.trans hget)
        exact Bool.eq_false_iff.mpr hdust
      split at h
      case isTrue =>
        obtain rfl := Except.ok.inj h
        have hle : call.nRandomPos nPass % (payees.length + 1) ≤ payees.length :=
          Nat.le_of_lt_succ (Nat.mod_lt _ (Nat.succ_pos _))
        refine ⟨.inserted hle _, ?_, le_rfl, hchange hle⟩
        simp only [valueSum_insertIdx hle]
        omega
      case isFalse =>
        split at h
        · cases h
        case isFalse hrange =>
          obtain rfl := Except.ok.inj h
          have hle : call.nChangePosRequest.toNat ≤ payees.length := by omega
          refine ⟨.inserted hle _, ?_, le_rfl, hchange hle⟩
          simp only [valueSum_insertIdx hle]
          omega

theorem insertChange_error {call : CreateCall} {scriptChange : CScript} {nPass : Nat}
    {nChange : Int} {halt : Halt}
    (h : insertChange call scriptChange nPass nFeeRet payees nChange = .error halt) :
    halt ≠ .aborts := by
  unfold insertChange at h
  split at h
  case isFalse => cases h
  case isTrue =>
    simp only at h
    split at h
    · cases h
    · split at h
      · cases h
      · split at h
        · obtain rfl := Except.error.inj h
          simp
        · cases h

/-! ## Passes -/

namespace CreateCall

variable (call : CreateCall)

def outputs : List (COutPoint × CTxOut) :=
  spendable call.mapWallet call.coin_control call.vAvailableCoins

def valueToSelect (nFeeRet : Int) : Int :=
  if call.nSubtractFeeFromAmount = 0 then amountSum call.vecSend + nFeeRet
  else amountSum call.vecSend

theorem requiredFeeRate_pos : 0 < call.requiredFeeRate.nSatoshisPerK :=
  lt_of_lt_of_le (by decide) (CFeeRate.le_max_right call.m_min_fee minRelayTxFee)

def AbortsSearch : Prop :=
  call.scriptChange.isSome = true ∧ call.nSubtractFeeFromAmount = 0 ∧ call.coin_control.setSelected = [] ∧
    0 < amountSum call.vecSend ∧ call.change_spend_size < 0

/-- Coins that the wallet can spend, to which the change is added at some place, leave `nChange`
after the amounts and the fee for the size, and that is enough to reduce the change to it. -/
def Reduces (scriptChange : CScript) (nChange : Int) : Prop :=
  call.nSubtractFeeFromAmount = 0 ∧ MIN_FINAL_CHANGE ≤ nChange ∧
    ∃ (selection : Selection) (nChangePos nBytes : Nat), selection.Spends call.outputs ∧
      nChangePos ≤ call.vecSend.length ∧
      call.maximumSignedTxSize (selection.coins.map CInputCoin.outpoint)
        ((call.vecSend.map CRecipient.scriptPubKey).insertIdx nChangePos scriptChange) = nBytes ∧
      nChange = selection.nValueRet - amountSum call.vecSend - call.requiredFeeRate.getFee nBytes

end CreateCall

structure PassState.Ok (call : CreateCall) (s : PassState) : Prop where
  fee_nonneg : 0 ≤ s.nFeeRet
  search : s.use_bnb = true → s.pick_new_inputs = true →
    s.nFeeRet = 0 ∧ call.nSubtractFeeFromAmount = 0
  kept : s.pick_new_inputs = false →
    Selection.Spends call.outputs ⟨s.setCoins, s.nValueIn⟩ ∧
      call.valueToSelect s.nFeeRet ≤ s.nValueIn

/-- Bounds the number of passes: the search is given up once, then inputs are picked anew,
and the fee rises up to what the wallet owns. -/
def PassState.remaining (call : CreateCall) (s : PassState) : Nat :=
  (if s.use_bnb then 1 else 0) +
    if s.pick_new_inputs then 1 + (totalValue call.outputs + 1 - s.nFeeRet).toNat else 0

structure Draft.Ok (call : CreateCall) (scriptChange : CScript) (draft : Draft) : Prop where
  nodup : (draft.setCoins.map CInputCoin.outpoint).Nodup
  mem : ∀ coin ∈ draft.setCoins, (coin.outpoint, coin.txout) ∈ call.outputs
  total : coinSum draft.setCoins = valueSum draft.vout + draft.nFeeRet
  pays : ∃ payees, List.Forall₂ PaysRecipient call.vecSend payees ∧
    (∀ txout ∈ payees, isDust txout dustRelayFee = false) ∧
    amountSum call.vecSend - valueSum payees ≤ draft.nFeeRet ∧
    ChangeInserted scriptChange payees draft.nChangePos draft.vout
  fee : ∃ nBytes : Nat, call.maximumSignedTxSize (draft.setCoins.map CInputCoin.outpoint)
      (draft.vout.map CTxOut.scriptPubKey) = nBytes ∧
    call.requiredFeeRate.getFee nBytes ≤ draft.nFeeRet
  change : ∀ n txout, draft.nChangePos = some n → draft.vout[n]? = some txout →
    isDust txout dustRelayFee = false ∨ call.Reduces scriptChange txout.nValue

/-- What the end of a pass starts from: inputs, outputs and fee in balance. -/
structure Filled.Ok (call : CreateCall) (scriptChange : CScript) (s : PassState) (filled : Filled)
    (nBytes : Nat) : Prop where
  spends : Selection.Spends call.outputs ⟨s.setCoins, s.nValueIn⟩
  total : s.nValueIn = valueSum filled.vout + filled.nFeeRet
  fee_le : s.nFeeRet ≤ filled.nFeeRet
  payees : ∃ payees, List.Forall₂ PaysRecipient call.vecSend payees ∧
    (∀ txout ∈ payees, isDust txout dustRelayFee = false) ∧
    amountSum call.vecSend - valueSum payees ≤ filled.nFeeRet ∧
    (call.nSubtractFeeFromAmount = 0 → valueSum payees = amountSum call.vecSend) ∧
    ChangeInserted scriptChange payees filled.nChangePos filled.vout
  size : call.maximumSignedTxSize (s.setCoins.map CInputCoin.outpoint)
    (filled.vout.map CTxOut.scriptPubKey) = nBytes
  change : ∀ n txout, filled.nChangePos = some n → filled.vout[n]? = some txout →
    isDust txout dustRelayFee = false

section Settle

variable {call : CreateCall} {scriptChange : CScript} {s : PassState} {filled : Filled}
  {nBytes : Nat}

section

variable (h : filled.Ok call scriptChange s nBytes)

include h

theorem Filled.Ok.draft (hfee : call.requiredFeeRate.getFee nBytes ≤ filled.nFeeRet) :
    Draft.Ok call scriptChange ⟨s.setCoins, filled.vout, filled.nChangePos, filled.nFeeRet⟩ := by
  obtain ⟨payees, hpays, hdust, hloss, -, hchange⟩ := h.payees
  exact ⟨h.spends.nodup, h.spends.mem, h.spends.total.symm.trans h.total,
    ⟨payees, hpays, hdust, hloss, hchange⟩, ⟨nBytes, h.size, hfee⟩,
    fun n txout hpos hget => .inl (h.change n txout hpos hget)⟩

/-- The change is raised to what the fee leaves, or reduced to it. -/
theorem Filled.Ok.draft_addToOutput {nChangePos : Nat} (hpos : filled.nChangePos = some nChangePos)
    (hzero : call.nSubtractFeeFromAmount = 0)
    (hvalue : ∀ change, filled.vout[nChangePos]? = some change →
      call.requiredFeeRate.getFee nBytes ≤ filled.nFeeRet ∨
        MIN_FINAL_CHANGE ≤
          change.nValue + (filled.nFeeRet - call.requiredFeeRate.getFee nBytes)) :
    Draft.Ok call scriptChange
      ⟨s.setCoins, addToOutput filled.vout nChangePos
        (filled.nFeeRet - call.requiredFeeRate.getFee nBytes), filled.nChangePos,
        call.requiredFeeRate.getFee nBytes⟩ := by
  obtain ⟨payees, hpays, hdust, -, hexact, hchange⟩ := h.payees
  rw [hpos] at hchange
  obtain ⟨hchange', hsum, hscripts⟩ :=
    hchange.addToOutput (filled.nFeeRet - call.requiredFeeRate.getFee nBytes)
  have htotal := h.spends.total.symm.trans h.total
  have hfee := CFeeRate.getFee_nonneg call.requiredFeeRate_pos nBytes
  refine ⟨h.spends.nodup, h.spends.mem, ?_, ⟨payees, hpays, hdust, ?_, hpos ▸ hchange'⟩,
    ⟨nBytes, ?_, le_rfl⟩, ?_⟩
  · simp only at htotal ⊢
    rw [hsum]
    omega
  · rw [hexact hzero]
    simp only
    omega
  · rw [hscripts]
    exact h.size
  · intro n txout hn hget
    obtain rfl : nChangePos = n := Option.some.inj (hpos.symm.trans hn)
    have hsize := h.size
    have hbalance := h.total
    have hfilled := h.change nChangePos
    generalize filled.vout = vout at hchange hget hvalue hsize hbalance hfilled
    cases hchange with
    | inserted hle nChange =>
      rw [addToOutput_insertIdx hle, getElem?_insertIdx hle] at hget
      obtain rfl := Option.some.inj hget
      rcases hvalue _ (getElem?_insertIdx hle _) with henough | hmin
      · have hkept := hfilled _ hpos (getElem?_insertIdx hle _)
        exact .inl (not_isDust_of_le hkept (by simp only; omega))
      · refine .inr
          ⟨hzero, hmin, ⟨s.setCoins, s.nValueIn⟩, nChangePos, nBytes, h.spends, ?_, ?_, ?_⟩
        · exact hpays.length_eq ▸ hle
        · rw [← scripts_of_paysRecipient hpays, ← hsize, map_insertIdx]
        · rw [valueSum_insertIdx hle, hexact hzero] at hbalance
          simp only at hbalance ⊢
          omega

theorem Filled.Ok.keepInputs (hpos : filled.nChangePos = none)
    (hzero : call.nSubtractFeeFromAmount = 0) (hpick : s.pick_new_inputs = true)
    {nFee nMinimum : Int} (hfee : 0 ≤ nFee) (hminimum : 0 ≤ nMinimum)
    (hle : nFee + nMinimum ≤ filled.nFeeRet) :
    PassState.Ok call { s with pick_new_inputs := false, nFeeRet := nFee } ∧
      PassState.remaining call { s with pick_new_inputs := false, nFeeRet := nFee } <
        s.remaining call := by
  obtain ⟨payees, -, -, -, hexact, hchange⟩ := h.payees
  rw [hpos] at hchange
  have hvout : filled.vout = payees := by
    cases hchange
    rfl
  refine ⟨⟨hfee, by simp, fun _ => ⟨h.spends, ?_⟩⟩, ?_⟩
  · have htotal := h.total
    rw [hvout, hexact hzero] at htotal
    simp only [CreateCall.valueToSelect, hzero, if_true]
    omega
  · simp only [PassState.remaining, hpick, if_true, Bool.false_eq_true, if_false]
    omega

theorem Filled.Ok.raiseFee (hamount : 0 ≤ amountSum call.vecSend) (hs : 0 ≤ s.nFeeRet)
    (hreached : call.valueToSelect s.nFeeRet ≤ s.nValueIn) (hpick : s.pick_new_inputs = true)
    {nFeeNeeded : Int} (hmore : filled.nFeeRet < nFeeNeeded) :
    PassState.Ok call { s with
        pick_new_inputs := decide (call.nSubtractFeeFromAmount = 0)
        nFeeRet := nFeeNeeded
        use_bnb := false } ∧
      PassState.remaining call { s with
        pick_new_inputs := decide (call.nSubtractFeeFromAmount = 0)
        nFeeRet := nFeeNeeded
        use_bnb := false } < s.remaining call := by
  have hfee := h.fee_le
  have hbound := h.spends.le_totalValue
  simp only at hbound
  refine ⟨⟨by simp only; omega, by simp, fun hkept => ⟨h.spends, ?_⟩⟩, ?_⟩
  · have hsubtract : ¬ call.nSubtractFeeFromAmount = 0 := of_decide_eq_false hkept
    simpa only [CreateCall.valueToSelect, hsubtract, if_false] using hreached
  · simp only [PassState.remaining, hpick, if_true, Bool.false_eq_true, if_false]
    by_cases hzero : call.nSubtractFeeFromAmount = 0
    · -- the old fee was paid from what the wallet owns, so the new one is closer to it
      simp only [CreateCall.valueToSelect, hzero, if_true] at hreached
      simp only [hzero, decide_true, if_true]
      omega
    · simp only [hzero, decide_false, Bool.false_eq_true, if_false]
      omega

end

theorem settleFee_spec (hamount : 0 ≤ amountSum call.vecSend) (hs : 0 ≤ s.nFeeRet)
    (hreached : call.valueToSelect s.nFeeRet ≤ s.nValueIn)
    (h : filled.Ok call scriptChange s nBytes) :
    (∃ reason, settleFee call scriptChange s filled nBytes = .done (.error (.fails reason))) ∨
    (∃ draft, settleFee call scriptChange s filled nBytes = .done (.ok draft) ∧
      draft.Ok call scriptChange) ∨
    (∃ s', settleFee call scriptChange s filled nBytes = .next s' ∧ s'.Ok call ∧
      s'.remaining call < s.remaining call) := by
  unfold settleFee
  simp only
  split
  case isTrue => exact .inl ⟨_, rfl⟩
  case isFalse =>
    split
    case isTrue henough =>
      cases hpos : filled.nChangePos with
      | none =>
        simp only
        split
        case isTrue hkeep =>
          have hfee := CFeeRate.getFee_nonneg call.requiredFeeRate_pos
            (nBytes + (CTxOut.mk 0 scriptChange).serialize.length + 2)
          exact .inr (.inr ⟨_, rfl, h.keepInputs hpos hkeep.1 hkeep.2.1 hfee
            (getDustThreshold_nonneg _) hkeep.2.2⟩)
        case isFalse => exact .inr (.inl ⟨_, rfl, hpos ▸ h.draft henough⟩)
      | some nChangePos =>
        simp only
        split
        case isTrue hmore =>
          have hdraft := h.draft_addToOutput hpos hmore.2 fun _ _ => .inl henough
          exact .inr (.inl ⟨_, rfl, hpos ▸ hdraft⟩)
        case isFalse => exact .inr (.inl ⟨_, rfl, hpos ▸ h.draft henough⟩)
    case isFalse hless =>
      cases hpick : s.pick_new_inputs with
      | false => exact .inl ⟨_, rfl⟩
      | true =>
        have hagain := h.raiseFee hamount hs hreached hpick (not_le.mp hless)
        simp only [Bool.not_true, Bool.false_eq_true, if_false]
        cases hpos : filled.nChangePos with
        | none => exact .inr (.inr ⟨_, rfl, hagain⟩)
        | some nChangePos =>
          cases hchange : filled.vout[nChangePos]? with
          | none =>
            simp only [hchange]
            exact .inr (.inr ⟨_, rfl, hagain⟩)
          | some change =>
            simp only [hchange]
            split
            case isTrue hreduce =>
              refine .inr (.inl ⟨_, rfl, ?_⟩)
              have hdraft := h.draft_addToOutput hpos hreduce.1 fun change' hchange' => by
                obtain rfl := Option.some.inj (hchange.symm.trans hchange')
                exact .inr (by have := hreduce.2; omega)
              rw [hpos] at hdraft
              rwa [neg_sub, add_sub_cancel]
            case isFalse => exact .inr (.inr ⟨_, rfl, hagain⟩)

end Settle

section Pass

variable {call : CreateCall} {scriptChange : CScript} {s : PassState}

theorem createPass_of_abortsSearch
    (hdust : ∀ recipient ∈ call.vecSend,
      isDust ⟨recipient.nAmount, recipient.scriptPubKey⟩ dustRelayFee = false)
    (h : call.AbortsSearch) :
    createPass call scriptChange (amountSum call.vecSend) call.start =
      .done (.error .aborts) := by
  obtain ⟨-, hzero, hcontrol, hamount, hsize⟩ := h
  obtain ⟨payees, hpayees⟩ := exists_payRecipients_zero hdust true
  have hpay : payRecipients call.start.nFeeRet call.nSubtractFeeFromAmount true call.vecSend =
      .ok payees := hpayees
  have hpick : pickInputs call scriptChange call.start
      (amountSum call.vecSend + call.start.nFeeRet) payees = .error .aborts := by
    have hpick : call.start.pick_new_inputs = true := rfl
    unfold pickInputs
    rw [if_pos hpick]
    exact selectCoins_of_abortsSearch
      ⟨decide_eq_true hzero, hcontrol, by simpa [CreateCall.start] using hamount, hsize⟩
  unfold createPass
  simp only [hpay, if_pos hzero, hpick]

variable (hscript : call.scriptChange = some scriptChange) (habort : ¬ call.AbortsSearch)
  (hamount : 0 ≤ amountSum call.vecSend)

include hscript habort

theorem pickInputs_spec (hs : s.Ok call) (payees : List CTxOut) :
    ∃ outcome, pickInputs call scriptChange s (call.valueToSelect s.nFeeRet) payees = .ok outcome ∧
      (outcome = .insufficient true → s.use_bnb = true ∧ s.pick_new_inputs = true) ∧
      ∀ selection, outcome = .selected selection → selection.Spends call.outputs ∧
        call.valueToSelect s.nFeeRet ≤ selection.nValueRet := by
  unfold pickInputs
  cases hpick : s.pick_new_inputs with
  | false =>
    refine ⟨_, rfl, by simp, ?_⟩
    rintro selection ⟨⟩
    exact hs.kept hpick
  | true =>
    have hsearch : ¬ Verge.AbortsSearch call.coin_control (call.valueToSelect s.nFeeRet)
        (selectionParams call scriptChange s.use_bnb payees) := by
      rintro ⟨hbnb, hcontrol, htarget, hsize⟩
      obtain ⟨hfee, hzero⟩ := hs.search hbnb hpick
      refine habort ⟨by rw [hscript]; rfl, hzero, hcontrol, ?_, hsize⟩
      simpa [CreateCall.valueToSelect, hzero, hfee] using htarget
    obtain ⟨outcome, hselect, hinsufficient, hselected⟩ :=
      selectCoins_spec call.nodup call.requiredFeeRate_pos hsearch
    refine ⟨outcome, hselect, ?_, hselected⟩
    rintro rfl
    exact ⟨hinsufficient true rfl rfl, rfl⟩

include hamount

theorem createPass_spec (hs : s.Ok call) :
    (∃ reason, createPass call scriptChange (amountSum call.vecSend) s =
      .done (.error (.fails reason))) ∨
    (∃ draft, createPass call scriptChange (amountSum call.vecSend) s = .done (.ok draft) ∧
      draft.Ok call scriptChange) ∨
    (∃ s', createPass call scriptChange (amountSum call.vecSend) s = .next s' ∧ s'.Ok call ∧
      s'.remaining call < s.remaining call) := by
  have hfails : ∀ {halt : Halt}, halt ≠ .aborts → ∃ reason, halt = .fails reason := by
    intro halt hne
    cases halt with
    | fails reason => exact ⟨reason, rfl⟩
    | aborts => exact absurd rfl hne
  unfold createPass
  have htarget : (if call.nSubtractFeeFromAmount = 0 then amountSum call.vecSend + s.nFeeRet
      else amountSum call.vecSend) = call.valueToSelect s.nFeeRet := rfl
  simp only [htarget]
  cases hpay : payRecipients s.nFeeRet call.nSubtractFeeFromAmount true call.vecSend with
  | error halt =>
    obtain ⟨reason, rfl⟩ := hfails (payRecipients_error hpay)
    exact .inl ⟨reason, rfl⟩
  | ok payees =>
    obtain ⟨hpays, hdust, -⟩ := payRecipients_spec hpay
    have hsum : valueSum payees = if call.nSubtractFeeFromAmount = 0 then amountSum call.vecSend
        else amountSum call.vecSend - s.nFeeRet := valueSum_payRecipients hpay
    -- the recipients and the fee of the pass make up the value to select
    have htotal : valueSum payees + s.nFeeRet = call.valueToSelect s.nFeeRet := by
      rw [hsum, CreateCall.valueToSelect]
      split <;> omega
    obtain ⟨outcome, hpick, hinsufficient, hselected⟩ := pickInputs_spec hscript habort hs payees
    simp only [hpick]
    cases outcome with
    | insufficient bnb_used =>
      cases bnb_used with
      | false => exact .inl ⟨_, rfl⟩
      | true =>
        -- the search failed, the next pass uses the knapsack solver
        obtain ⟨hbnb, hnew⟩ := hinsufficient rfl
        refine .inr (.inr ⟨_, rfl, ⟨hs.fee_nonneg, by simp, fun h => ?_⟩, ?_⟩)
        · exact absurd (hnew.symm.trans h) (by decide)
        · simp only [PassState.remaining, hbnb, hnew, if_true, Bool.false_eq_true, if_false]
          omega
    | selected selection =>
      obtain ⟨hspends, hreached⟩ := hselected selection rfl
      simp only
      cases hinsert : insertChange call scriptChange s.nPass s.nFeeRet payees
          (selection.nValueRet - call.valueToSelect s.nFeeRet) with
      | error halt =>
        obtain ⟨reason, rfl⟩ := hfails (insertChange_error hinsert)
        exact .inl ⟨reason, rfl⟩
      | ok filled =>
        obtain ⟨hchange, hbalance, hfee, hnodust⟩ := insertChange_spec (by omega) hinsert
        simp only
        split
        case isTrue => exact .inl ⟨_, rfl⟩
        case isFalse hsize =>
          refine settleFee_spec hamount hs.fee_nonneg hreached
            ⟨hspends, ?_, hfee, ⟨payees, hpays, hdust, ?_, ?_, hchange⟩, ?_, hnodust⟩
          · simp only
            omega
          · have hfeeNonneg := hs.fee_nonneg
            split at hsum <;> omega
          · intro hzero
            rw [hsum, if_pos hzero]
          · exact (Int.toNat_of_nonneg (not_lt.mp hsize)).symm

theorem exists_draft :
    ∃ fuel result, whileLoop (createPass call scriptChange (amountSum call.vecSend)) fuel
        call.start = some result ∧ result ≠ .error .aborts ∧
      ∀ draft, result = .ok draft → draft.Ok call scriptChange := by
  have hstart : call.start.Ok call :=
    ⟨le_rfl, fun hbnb _ => ⟨rfl, of_decide_eq_true hbnb⟩, fun h => by cases h⟩
  have hnext : ∀ s s', PassState.Ok call s →
      createPass call scriptChange (amountSum call.vecSend) s = .next s' →
      PassState.Ok call s' ∧ s'.remaining call < s.remaining call := by
    intro s s' hs hnext
    rcases createPass_spec hscript habort hamount hs with ⟨_, h⟩ | ⟨_, h, _⟩ | ⟨s'', h, hok⟩
    · rw [h] at hnext
      cases hnext
    · rw [h] at hnext
      cases hnext
    · rw [h] at hnext
      obtain rfl := Pass.next.inj hnext
      exact hok
  obtain ⟨result, s', hrun, hs', hdone⟩ := exists_whileLoop hnext hstart
  refine ⟨_, result, hrun, ?_⟩
  rcases createPass_spec hscript habort hamount hs' with
    ⟨reason, h⟩ | ⟨draft, h, hok⟩ | ⟨s'', h, _⟩
  · rw [h] at hdone
    obtain rfl := Pass.done.inj hdone
    simp
  · rw [h] at hdone
    obtain rfl := Pass.done.inj hdone
    refine ⟨by simp, ?_⟩
    rintro draft' ⟨⟩
    exact hok
  · rw [h] at hdone
    cases hdone

end Pass

end Verge
