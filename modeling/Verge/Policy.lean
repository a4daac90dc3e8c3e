import Verge.Foundation.SinglePrecision
import Verge.Script.Standard
import Verge.Validation.BlockChecks

/-!
# Relay policy

`policy/feerate.cpp` and `policy/policy.cpp`: what a transaction has to pay by its
size, which outputs are dust, and `IsStandardTx`.  The relay settings are the
defaults.
-/

namespace Verge

open Foundation List

def CENT : Int := 10000

structure CFeeRate where
  nSatoshisPerK : Int
  deriving DecidableEq, Repr

namespace CFeeRate

def ONE_KILO_BYTE : Nat := 999

/-- The number of started kilobytes; the division is one of `float`s. -/
def ceiledSize (nSize : Nat) : Int := ⌈single (single nSize / single ONE_KILO_BYTE)⌉

def getFee (rate : CFeeRate) (nSize : Nat) : Int :=
  let nFee := rate.nSatoshisPerK * ceiledSize nSize
  if nFee = 0 ∧ nSize ≠ 0 then
    if 0 < rate.nSatoshisPerK then 1
    else if rate.nSatoshisPerK < 0 then -1
    else nFee
  else nFee

def max (a b : CFeeRate) : CFeeRate := if a.nSatoshisPerK < b.nSatoshisPerK then b else a

theorem ceiledSize_mono {m n : Nat} (h : m ≤ n) : ceiledSize m ≤ ceiledSize n := by
  have hkilo : (0 : ℚ) < single ONE_KILO_BYTE := by
    rw [single_natCast (by decide)]
    norm_num [ONE_KILO_BYTE]
  have hm : (0 : ℚ) ≤ single m := by
    have h := single_mono (le_refl (0 : ℚ)) (Nat.cast_nonneg (α := ℚ) m)
    rwa [single_zero] at h
  have hle : single (m : ℚ) ≤ single n :=
    single_mono (Nat.cast_nonneg m) (Nat.cast_le.mpr h)
  refine Int.ceil_le_ceil (single_mono (div_nonneg hm hkilo.le) ?_)
  exact (div_le_div_iff_of_pos_right hkilo).mpr hle

@[simp] theorem ceiledSize_zero : ceiledSize 0 = 0 := by simp [ceiledSize]

theorem one_le_ceiledSize {n : Nat} (h : 0 < n) : 1 ≤ ceiledSize n := by
  have hone : ceiledSize 1 = 1 := by decide +kernel
  exact hone ▸ ceiledSize_mono h

theorem getFee_eq {rate : CFeeRate} (hrate : 0 < rate.nSatoshisPerK) (nSize : Nat) :
    rate.getFee nSize = rate.nSatoshisPerK * ceiledSize nSize := by
  unfold getFee
  simp only
  split
  case isFalse => rfl
  case isTrue h =>
    have hpos := mul_pos hrate (one_le_ceiledSize (Nat.pos_of_ne_zero h.2))
    omega

theorem getFee_nonneg {rate : CFeeRate} (hrate : 0 < rate.nSatoshisPerK) (nSize : Nat) :
    0 ≤ rate.getFee nSize := by
  rw [getFee_eq hrate]
  exact mul_nonneg hrate.le (ceiledSize_zero ▸ ceiledSize_mono (Nat.zero_le nSize))

theorem getFee_mono {rate rate' : CFeeRate} {m n : Nat} (hrate : 0 < rate.nSatoshisPerK)
    (hle : rate.nSatoshisPerK ≤ rate'.nSatoshisPerK) (h : m ≤ n) :
    rate.getFee m ≤ rate'.getFee n := by
  rw [getFee_eq hrate, getFee_eq (hrate.trans_le hle)]
  exact mul_le_mul hle (ceiledSize_mono h) (ceiledSize_zero ▸ ceiledSize_mono (Nat.zero_le m))
    (hrate.le.trans hle)

theorem le_max_right (a b : CFeeRate) : b.nSatoshisPerK ≤ (max a b).nSatoshisPerK := by
  unfold max
  split <;> omega

end CFeeRate

def minRelayTxFee : CFeeRate := ⟨10 * CENT⟩

def dustRelayFee : CFeeRate := ⟨CENT⟩

def getMinFee : CFeeRate := ⟨10 * CENT⟩

def getDustThreshold (txout : CTxOut) (dustRelayFeeIn : CFeeRate) : Int :=
  if isUnspendable txout.scriptPubKey then 0
  else
    let nSize := txout.serialize.length
    if (isWitnessProgram txout.scriptPubKey).isSome then
      dustRelayFeeIn.getFee (nSize + (32 + 4 + 1 + 107 / WITNESS_SCALE_FACTOR + 4))
    else dustRelayFeeIn.getFee (nSize + (32 + 4 + 1 + 107 + 4))

def isDust (txout : CTxOut) (dustRelayFeeIn : CFeeRate) : Bool :=
  decide (txout.nValue < getDustThreshold txout dustRelayFeeIn)

theorem getDustThreshold_nonneg (txout : CTxOut) : 0 ≤ getDustThreshold txout dustRelayFee := by
  unfold getDustThreshold
  split
  · exact le_rfl
  · simp only
    split
    · exact CFeeRate.getFee_nonneg (by decide) _
    · exact CFeeRate.getFee_nonneg (by decide) _

theorem nonneg_of_not_isDust {txout : CTxOut} (h : isDust txout dustRelayFee = false) :
    0 ≤ txout.nValue := by
  have hle := not_lt.mp (of_decide_eq_false h)
  exact (getDustThreshold_nonneg txout).trans hle

/-- The threshold does not depend on the value. -/
theorem not_isDust_of_le {scriptPubKey : CScript} {nValue nValue' : Int}
    (h : isDust ⟨nValue, scriptPubKey⟩ dustRelayFee = false) (hle : nValue ≤ nValue') :
    isDust ⟨nValue', scriptPubKey⟩ dustRelayFee = false := by
  have hthreshold : getDustThreshold ⟨nValue', scriptPubKey⟩ dustRelayFee =
      getDustThreshold ⟨nValue, scriptPubKey⟩ dustRelayFee := by
    simp only [getDustThreshold, CTxOut.serialize, length_append, length_writeLE]
  have hnot := not_lt.mp (of_decide_eq_false h)
  refine decide_eq_false (not_lt.mpr ?_)
  rw [hthreshold]
  exact hnot.trans hle

def MAX_STANDARD_TX_WEIGHT : Nat := 400000

def MAX_STANDARD_SCRIPTSIG_SIZE : Nat := 1650

def MAX_STANDARD_VERSION : Int := 4

def DEFAULT_ACCEPT_DATACARRIER : Bool := true

def MAX_OP_RETURN_RELAY : Nat := 83

def DEFAULT_PERMIT_BAREMULTISIG : Bool := true

def isStandard (scriptPubKey : CScript) : Option txnouttype :=
  match solver scriptPubKey with
  | none => none
  | some (whichType, vSolutions) =>
    match whichType with
    | .TX_MULTISIG =>
      match vSolutions.head?, vSolutions.getLast? with
      | some (m :: _), some (n :: _) =>
        if n < 1 ∨ 3 < n then none
        else if m < 1 ∨ n < m then none
        else some whichType
      | _, _ => none
    | .TX_NULL_DATA =>
      if !DEFAULT_ACCEPT_DATACARRIER || decide (MAX_OP_RETURN_RELAY < scriptPubKey.length) then
        none
      else some whichType
    | .TX_WITNESS_V0_KEYHASH => none
    | .TX_WITNESS_V0_SCRIPTHASH => none
    | .TX_WITNESS_UNKNOWN => none
    | _ => some whichType

def getTransactionWeight (tx : CTransaction) : Nat :=
  tx.serialize.length * (WITNESS_SCALE_FACTOR - 1) + tx.serialize.length

def getVirtualTransactionSize (tx : CTransaction) : Nat :=
  (getTransactionWeight tx + WITNESS_SCALE_FACTOR - 1) / WITNESS_SCALE_FACTOR

def checkStandardInputs : List CTxIn → Except String Unit
  | [] => .ok ()
  | txin :: vin =>
    if MAX_STANDARD_SCRIPTSIG_SIZE < txin.scriptSig.length then .error "scriptsig-size"
    else if !isPushOnly txin.scriptSig then .error "scriptsig-not-pushonly"
    else checkStandardInputs vin

def checkStandardOutputs : List CTxOut → Nat → Except String Nat
  | [], nDataOut => .ok nDataOut
  | txout :: vout, nDataOut =>
    match isStandard txout.scriptPubKey with
    | none => .error "scriptpubkey"
    | some whichType =>
      if whichType = .TX_NULL_DATA then checkStandardOutputs vout (nDataOut + 1)
      else if whichType = .TX_MULTISIG ∧ DEFAULT_PERMIT_BAREMULTISIG = false then
        .error "bare-multisig"
      else if isDust txout dustRelayFee then .error "dust"
      else checkStandardOutputs vout nDataOut

def isStandardTx (tx : CTransaction) : Except String Unit :=
  if tx.hasWitness then .error "no-witness"
  else if MAX_STANDARD_VERSION < tx.nVersion ∨ tx.nVersion < 1 then .error "version"
  else if MAX_STANDARD_TX_WEIGHT ≤ getTransactionWeight tx then .error "tx-size"
  else do
    checkStandardInputs tx.vin
    let nDataOut ← checkStandardOutputs tx.vout 0
    if 1 < nDataOut then .error "multi-op-return" else .ok ()

def CTxIn.IsStandard (txin : CTxIn) : Prop :=
  txin.scriptSig.length ≤ MAX_STANDARD_SCRIPTSIG_SIZE ∧ isPushOnly txin.scriptSig = true

def CTxOut.IsStandard (txout : CTxOut) : Prop :=
  ∃ whichType, isStandard txout.scriptPubKey = some whichType ∧
    (whichType = .TX_NULL_DATA ∨ isDust txout dustRelayFee = false)

def dataOutputs (vout : List CTxOut) : Nat :=
  vout.countP fun txout => isStandard txout.scriptPubKey == some .TX_NULL_DATA

theorem checkStandardInputs_eq_ok {vin : List CTxIn} :
    checkStandardInputs vin = .ok () ↔ ∀ txin ∈ vin, txin.IsStandard := by
  induction vin with
  | nil => simp [checkStandardInputs]
  | cons txin vin ih =>
    rw [forall_mem_cons, ← ih, checkStandardInputs, CTxIn.IsStandard]
    split
    case isTrue h => simp [Nat.not_le.mpr h]
    case isFalse h =>
      cases isPushOnly txin.scriptSig with
      | false => simp
      | true => simp [Nat.not_lt.mp h]

theorem CTxOut.isStandard_iff {txout : CTxOut} {whichType : txnouttype}
    (h : Verge.isStandard txout.scriptPubKey = some whichType) :
    txout.IsStandard ↔ whichType = .TX_NULL_DATA ∨ isDust txout dustRelayFee = false := by
  simp [CTxOut.IsStandard, h]

theorem checkStandardOutputs_eq_ok {vout : List CTxOut} {nDataOut nTotal : Nat} :
    checkStandardOutputs vout nDataOut = .ok nTotal ↔
      (∀ txout ∈ vout, txout.IsStandard) ∧ nTotal = nDataOut + dataOutputs vout := by
  induction vout generalizing nDataOut with
  | nil => simp [checkStandardOutputs, dataOutputs, eq_comm]
  | cons txout vout ih =>
    rw [forall_mem_cons, checkStandardOutputs]
    cases htype : isStandard txout.scriptPubKey with
    | none => simp [CTxOut.IsStandard, htype]
    | some whichType =>
      have hcount : dataOutputs (txout :: vout) =
          dataOutputs vout + if whichType = .TX_NULL_DATA then 1 else 0 := by
        simp [dataOutputs, countP_cons, htype]
      rw [CTxOut.isStandard_iff htype, hcount]
      by_cases hdata : whichType = .TX_NULL_DATA
      · subst hdata
        simp only [if_true, ih, true_or, true_and]
        rw [Nat.add_right_comm, Nat.add_assoc]
      · have hbare : ¬ (whichType = .TX_MULTISIG ∧ DEFAULT_PERMIT_BAREMULTISIG = false) := by
          simp [DEFAULT_PERMIT_BAREMULTISIG]
        simp only [hdata, if_false, if_neg hbare, false_or, Nat.add_zero]
        cases isDust txout dustRelayFee with
        | true => simp
        | false => simp [ih]

theorem isStandardTx_eq_ok {tx : CTransaction} :
    isStandardTx tx = .ok () ↔
      tx.hasWitness = false ∧ 1 ≤ tx.nVersion ∧ tx.nVersion ≤ MAX_STANDARD_VERSION ∧
        getTransactionWeight tx < MAX_STANDARD_TX_WEIGHT ∧ (∀ txin ∈ tx.vin, txin.IsStandard) ∧
        (∀ txout ∈ tx.vout, txout.IsStandard) ∧ dataOutputs tx.vout ≤ 1 := by
  unfold isStandardTx
  cases tx.hasWitness with
  | true => simp
  | false =>
    simp only [Bool.false_eq_true, if_false, true_and]
    split
    case isTrue h => simp; omega
    case isFalse hversion =>
      split
      case isTrue h => simp; omega
      case isFalse hweight =>
        have hone : 1 ≤ tx.nVersion ∧ tx.nVersion ≤ MAX_STANDARD_VERSION := by omega
        rw [← checkStandardInputs_eq_ok]
        simp only [hone, Nat.not_le.mp hweight, true_and]
        cases checkStandardInputs tx.vin with
        | error reason => simp [bind, Except.bind]
        | ok u =>
          cases houtputs : checkStandardOutputs tx.vout 0 with
          | error reason =>
            have hnot : ¬ ∀ txout ∈ tx.vout, txout.IsStandard := fun hall => by
              have hok : checkStandardOutputs tx.vout 0 = .ok (0 + dataOutputs tx.vout) :=
                checkStandardOutputs_eq_ok.mpr ⟨hall, rfl⟩
              rw [houtputs] at hok
              cases hok
            simp [bind, Except.bind, hnot]
          | ok nDataOut =>
            obtain ⟨hall, hdata⟩ := checkStandardOutputs_eq_ok.mp houtputs
            rw [Nat.zero_add] at hdata
            simp only [bind, Except.bind, ← hdata]
            split
            case isTrue h => simp; omega
            case isFalse h => exact iff_of_true rfl ⟨trivial, hall, Nat.not_lt.mp h⟩

end Verge
