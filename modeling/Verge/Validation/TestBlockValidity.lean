import Mathlib.Data.List.Sort
import Verge.Pow
import Verge.Validation.BlockChecks
import Verge.Validation.MempoolScripts
import Verge.Validation.UndoBlock

/-!
# The verdict and the validation state

`CValidationState`, the checks that write to it, and `TestBlockValidity`, which is
asked about blocks that were never received: the proposals of `getblocktemplate`.
A check answers with its return value and leaves its reason in the state; here the
two are set side by side.
-/

namespace Verge

open Foundation

inductive ValidationMode where
  | valid
  | invalid
  | error
  deriving DecidableEq, Repr

def REJECT_OBSOLETE : UInt8 := 0x11

def REJECT_CHECKPOINT : UInt8 := 0x43

structure CValidationState where
  mode : ValidationMode := .valid
  nDoS : Nat := 0
  strRejectReason : String := ""
  chRejectCode : UInt8 := 0
  corruptionPossible : Bool := false
  deriving DecidableEq, Repr

namespace CValidationState

def doS (state : CValidationState) (level : Nat) (chRejectCode : UInt8)
    (strRejectReason : String) (corruption : Bool) : CValidationState :=
  let noted := { state with chRejectCode, strRejectReason, corruptionPossible := corruption }
  if state.mode = .error then noted
  else { noted with nDoS := state.nDoS + level, mode := .invalid }

def invalid (state : CValidationState) (chRejectCode : UInt8) (strRejectReason : String) :
    CValidationState :=
  state.doS 0 chRejectCode strRejectReason false

def isValid (state : CValidationState) : Bool := state.mode = .valid

def isInvalid (state : CValidationState) : Bool := state.mode = .invalid

def isError (state : CValidationState) : Bool := state.mode = .error

@[simp] theorem isValid_doS (state : CValidationState) (level : Nat) (code : UInt8)
    (reason : String) (corruption : Bool) :
    (state.doS level code reason corruption).isValid = false := by
  by_cases h : state.mode = .error <;> simp [doS, isValid, h]

theorem isInvalid_or_isError (state : CValidationState) :
    (state.isInvalid || state.isError) = !state.isValid := by
  cases h : state.mode <;> simp [isInvalid, isError, isValid, h]

end CValidationState

abbrev StateVerdict := Bool × CValidationState

/-- A check returns true exactly if the state is still valid, and false exactly if
it has become invalid or an error. -/
def StateVerdict.Agrees (verdict : StateVerdict) : Prop :=
  (verdict.1 = true ↔ verdict.2.isValid = true) ∧
    (verdict.1 = false ↔ (verdict.2.isInvalid || verdict.2.isError) = true)

instance (verdict : StateVerdict) : Decidable verdict.Agrees :=
  inferInstanceAs (Decidable (_ ∧ _))

theorem StateVerdict.agrees_iff (verdict : StateVerdict) :
    verdict.Agrees ↔ verdict.1 = verdict.2.isValid := by
  rw [Agrees, CValidationState.isInvalid_or_isError]
  cases verdict.1 <;> cases verdict.2.isValid <;> simp

def MAX_FUTURE_BLOCK_TIME : Nat := 2 * 60 * 60

def NEW_FUTURE_BLOCK_TIME : Nat := 10 * 60

def getMaxClockDrift (height : Nat) : Nat :=
  if height < 2218500 then MAX_FUTURE_BLOCK_TIME
  else if height > 4800000 then NEW_FUTURE_BLOCK_TIME
  else 10 * 60

def nMedianTimeSpan : Nat := 11

def getMedianTimePast (pindex : List CBlockHeader) : Nat :=
  let pmedian := ((pindex.take nMedianTimeSpan).map CBlockHeader.nTime).insertionSort (· ≤ ·)
  pmedian.getD (pmedian.length / 2) 0

/-- The parameters of the checks in the context of an index.  The answers of
`GetNextWorkRequired`, `GetLastCheckpoint` and `VersionBitsState` are given. -/
structure ContextRules where
  getNextWorkRequired : List CBlockHeader → CBlockHeader → Algo → Nat
  lastCheckpoint : Option Nat
  csvActive : List CBlockHeader → Bool
  segwitActive : List CBlockHeader → Bool
  BIP34Height : Int
  STEALTH_TX_SWITCH_BLOCK : Int
  FlexibleMiningAlgorithms : Int

/-- What `ContextualCheckBlock` reads of the previous index: the height of a block is
the number of its ancestors. -/
def ContextRules.blockContext (params : ContextRules) (pindexPrev : List CBlockHeader) :
    BlockContext where
  nHeight := pindexPrev.length
  csvActive := params.csvActive pindexPrev
  segwitActive := params.segwitActive pindexPrev
  medianTimePast := getMedianTimePast pindexPrev
  BIP34Height := params.BIP34Height

def SAME_ALGO_MAX_COUNT : Nat := 5

def hasUsedValidMiningAlgorithm (block : CBlockHeader) (pindexPrev : List CBlockHeader) : Bool :=
  let sameAlgoBlocks := (pindexPrev.take (2 * SAME_ALGO_MAX_COUNT)).countP fun header =>
    getAlgo header.nVersion == getAlgo block.nVersion
  decide (sameAlgoBlocks ≤ SAME_ALGO_MAX_COUNT)

def formatHex8 (n : Nat) : String :=
  let digits := Nat.toDigits 16 n
  String.ofList (List.replicate (8 - digits.length) '0' ++ digits)

def contextualCheckBlockHeader (params : ContextRules) (nAdjustedTime : Nat)
    (fCheckMiningAlgorithm : Bool) (block : CBlockHeader) (pindexPrev : List CBlockHeader)
    (state : CValidationState) : StateVerdict :=
  let nHeight := pindexPrev.length
  if block.nBits ≠ params.getNextWorkRequired pindexPrev block (getAlgo block.nVersion) then
    (false, state.doS 100 REJECT_INVALID "bad-diffbits" false)
  else if params.lastCheckpoint.any fun checkpoint => decide (nHeight < checkpoint) then
    (false, state.doS 100 REJECT_CHECKPOINT "bad-fork-prior-to-checkpoint" false)
  else if block.nTime ≤ getMedianTimePast pindexPrev then
    (false, state.invalid REJECT_INVALID "time-too-old")
  else if nAdjustedTime + getMaxClockDrift nHeight < block.nTime then
    (false, state.invalid REJECT_INVALID "time-too-new")
  else if block.nVersion < 4 ∧ params.STEALTH_TX_SWITCH_BLOCK ≤ nHeight then
    (false, state.invalid REJECT_OBSOLETE
      ("bad-version(0x" ++ formatHex8 (block.nVersion % 2 ^ 32).toNat ++ ")"))
  else if fCheckMiningAlgorithm ∧ params.FlexibleMiningAlgorithms < nHeight ∧
      hasUsedValidMiningAlgorithm block pindexPrev = false then
    (false, state.doS 25 REJECT_INVALID "bad-blk-algorithm" false)
  else (true, state)

/-- The last test of `ContextualCheckBlock`: the block is not after the median of its
ancestors, or too long before its parent. -/
def IsTimeTooEarly (block : CBlock) (pindexPrev : List CBlockHeader) : Prop :=
  match pindexPrev with
  | [] => False
  | parent :: _ => block.nTime ≤ getMedianTimePast pindexPrev ∨
      block.nTime + getMaxClockDrift pindexPrev.length < parent.nTime

instance (block : CBlock) (pindexPrev : List CBlockHeader) :
    Decidable (IsTimeTooEarly block pindexPrev) :=
  match pindexPrev with
  | [] => inferInstanceAs (Decidable False)
  | _ :: _ => inferInstanceAs (Decidable (_ ∨ _))

theorem isTimeTooEarly_of_parent {block : CBlock} {pindexPrev : List CBlockHeader}
    {parent : CBlockHeader} (hparent : parent ∈ pindexPrev.head?)
    (htime : block.nTime + getMaxClockDrift pindexPrev.length < parent.nTime) :
    IsTimeTooEarly block pindexPrev := by
  cases pindexPrev with
  | nil => cases hparent
  | cons parent' ancestors =>
    cases hparent
    exact .inr htime

/-- `ContextualCheckBlock` with its state.  A block time that is too early is noted
in the state, and the check returns true. -/
def contextualCheckBlockVerdict (doubleSha256 : List UInt8 → uint256) (params : ContextRules)
    (block : CBlock) (pindexPrev : List CBlockHeader) (state : CValidationState) : StateVerdict :=
  match contextualCheckBlock doubleSha256 (params.blockContext pindexPrev) block with
  | .error fault =>
    (false, state.doS fault.nDoS REJECT_INVALID fault.strRejectReason fault.corruptionPossible)
  | .ok () =>
    if IsTimeTooEarly block pindexPrev then
      (true, state.doS 100 REJECT_INVALID "bad-blk-time" false)
    else (true, state)

/-- What a call of `TestBlockValidity` comes to. -/
inductive ProposalResult where
  | returned (verdict : StateVerdict)
  | stateNotValid
  | stopped (failure : Failure)
  deriving DecidableEq, Repr

/-- The rejections of `CheckBlock` that may come from a block altered on the way. -/
def isCorruption (strRejectReason : String) : Bool :=
  ["bad-txnmrklroot", "bad-txns-duplicate"].contains strRejectReason

def ProposalResult.ofFailure (state : CValidationState) : Failure → ProposalResult
  | .invalid nDoS reason => .returned (false, state.doS nDoS REJECT_INVALID reason
      (isCorruption reason))
  | .error _ => .returned (false, state)
  | failure => .stopped failure

/-- What is fixed while one block is tested: the rules of `CheckBlock` as it is called
here and by `ConnectBlock`, and the clock. -/
structure ProposalRules where
  consensusParams : ConsensusParams
  context : ContextRules
  check : BlockRules
  connect : BlockRules
  nAdjustedTime : Nat
  fCheckMiningAlgorithm : Bool

section TestBlockValidity

variable (doubleSha256 : List UInt8 → uint256) (rules : ProposalRules)

def testBlockValidity (view : CoinsView) (block : CBlock) (pindexPrev : List CBlockHeader)
    (state : CValidationState) : ProposalResult :=
  match contextualCheckBlockHeader rules.context rules.nAdjustedTime rules.fCheckMiningAlgorithm
      block.toCBlockHeader pindexPrev state with
  | (false, state) => .returned (false, state)
  | (true, state) =>
    match checkBlock rules.check block with
    | .error failure => .ofFailure state failure
    | .ok () =>
      match contextualCheckBlockVerdict doubleSha256 rules.context block pindexPrev state with
      | (false, state) => .returned (false, state)
      | (true, state) =>
        match (connectBlock rules.consensusParams rules.connect block pindexPrev.length).run
            view with
        | .error failure => .ofFailure state failure
        | .ok _ => if state.isValid then .returned (true, state) else .stateNotValid

variable {doubleSha256 rules} {view : CoinsView} {block : CBlock}
  {pindexPrev : List CBlockHeader} {state : CValidationState}

theorem contextualCheckBlockHeader_eq_true {params : ContextRules} {nAdjustedTime : Nat}
    {fCheckMiningAlgorithm : Bool} {header : CBlockHeader} {state' : CValidationState}
    (h : contextualCheckBlockHeader params nAdjustedTime fCheckMiningAlgorithm header pindexPrev
      state = (true, state')) :
    state' = state ∧ getMedianTimePast pindexPrev < header.nTime := by
  unfold contextualCheckBlockHeader at h
  simp only at h
  split_ifs at h with hbits hcheckpoint htime hnew hversion halgo
  all_goals cases h
  exact ⟨rfl, Nat.lt_of_not_le htime⟩

theorem contextualCheckBlockVerdict_of_early {params : ContextRules}
    (hok : contextualCheckBlock doubleSha256 (params.blockContext pindexPrev) block = .ok ())
    (hearly : IsTimeTooEarly block pindexPrev) :
    contextualCheckBlockVerdict doubleSha256 params block pindexPrev state =
      (true, state.doS 100 REJECT_INVALID "bad-blk-time" false) := by
  simp only [contextualCheckBlockVerdict, hok, if_pos hearly]

theorem contextualCheckBlockVerdict_agrees {params : ContextRules} (hvalid : state.isValid = true)
    (h : ¬(contextualCheckBlock doubleSha256 (params.blockContext pindexPrev) block = .ok () ∧
      IsTimeTooEarly block pindexPrev)) :
    (contextualCheckBlockVerdict doubleSha256 params block pindexPrev state).Agrees := by
  rw [StateVerdict.agrees_iff, contextualCheckBlockVerdict]
  cases hcheck : contextualCheckBlock doubleSha256 (params.blockContext pindexPrev) block with
  | error fault => simp
  | ok u =>
    have hearly : ¬IsTimeTooEarly block pindexPrev := fun hearly => h ⟨hcheck, hearly⟩
    simp only [if_neg hearly, hvalid]

/-- The assertion at the end fails exactly for the blocks that pass every check and are too
long before their parent. -/
theorem testBlockValidity_eq_stateNotValid_iff (hvalid : state.isValid = true) :
    testBlockValidity doubleSha256 rules view block pindexPrev state = .stateNotValid ↔
      contextualCheckBlockHeader rules.context rules.nAdjustedTime rules.fCheckMiningAlgorithm
          block.toCBlockHeader pindexPrev state = (true, state) ∧
        checkBlock rules.check block = .ok () ∧
        contextualCheckBlock doubleSha256 (rules.context.blockContext pindexPrev) block = .ok () ∧
        (∃ parent ∈ pindexPrev.head?,
          block.nTime + getMaxClockDrift pindexPrev.length < parent.nTime) ∧
        ∃ connected, (connectBlock rules.consensusParams rules.connect block
          pindexPrev.length).run view = .ok connected := by
  constructor
  · intro h
    unfold testBlockValidity at h
    split at h
    case h_1 => cases h
    case h_2 noted hheader =>
      obtain ⟨rfl, hafter⟩ := contextualCheckBlockHeader_eq_true hheader
      split at h
      case h_1 failure _ => cases failure <;> cases h
      case h_2 hcheck =>
        refine ⟨hheader, hcheck, ?_⟩
        split at h
        case h_1 => cases h
        case h_2 noted' hcontext =>
          split at h
          case h_1 failure _ => cases failure <;> cases h
          case h_2 connected hconnect =>
            obtain ⟨hok, hearly⟩ : contextualCheckBlock doubleSha256
                (rules.context.blockContext pindexPrev) block = .ok () ∧
                IsTimeTooEarly block pindexPrev := by
              by_contra hnot
              have hagrees := contextualCheckBlockVerdict_agrees hvalid hnot
              rw [hcontext, StateVerdict.agrees_iff] at hagrees
              rw [if_pos hagrees.symm] at h
              cases h
            refine ⟨hok, ?_, connected, hconnect⟩
            cases pindexPrev with
            | nil => exact hearly.elim
            | cons parent ancestors =>
              exact ⟨parent, rfl, hearly.resolve_left (Nat.not_le_of_lt hafter)⟩
  · rintro ⟨hheader, hcheck, hok, ⟨parent, hparent, htime⟩, connected, hconnect⟩
    have hearly := isTimeTooEarly_of_parent hparent htime
    simp only [testBlockValidity, hheader, hcheck, hconnect,
      contextualCheckBlockVerdict_of_early hok hearly, CValidationState.isValid_doS,
      Bool.false_eq_true, if_false]

/-- `ContextualCheckBlock` agrees with its state, and `TestBlockValidity` does not abort,
unless a block that passes every other check is noted as too early. -/
theorem contextualCheckBlock_verdict_iff (hvalid : state.isValid = true) :
    ((contextualCheckBlockVerdict doubleSha256 rules.context block pindexPrev state).Agrees ∧
      testBlockValidity doubleSha256 rules view block pindexPrev state ≠ .stateNotValid) ↔
    ¬(contextualCheckBlock doubleSha256 (rules.context.blockContext pindexPrev) block = .ok () ∧
      IsTimeTooEarly block pindexPrev) := by
  constructor
  · rintro ⟨hagrees, -⟩ ⟨hok, hearly⟩
    rw [contextualCheckBlockVerdict_of_early hok hearly, StateVerdict.agrees_iff,
      CValidationState.isValid_doS] at hagrees
    cases hagrees
  · intro h
    refine ⟨contextualCheckBlockVerdict_agrees hvalid h, fun hassert => ?_⟩
    obtain ⟨-, -, hok, ⟨parent, hparent, htime⟩, -⟩ :=
      (testBlockValidity_eq_stateNotValid_iff hvalid).mp hassert
    exact h ⟨hok, isTimeTooEarly_of_parent hparent htime⟩

end TestBlockValidity

def sampleProposalRules : ProposalRules where
  consensusParams := sampleParams
  context :=
    { getNextWorkRequired := fun _ block _ => block.nBits
      lastCheckpoint := none
      csvActive := fun _ => false
      segwitActive := fun _ => false
      BIP34Height := 100000000
      STEALTH_TX_SWITCH_BLOCK := 1824150
      FlexibleMiningAlgorithms := 2042000 }
  check := permissiveRules
  connect := permissiveRules
  nAdjustedTime := 10800
  fCheckMiningAlgorithm := true

def tipOfTime (nTime : Nat) : List CBlockHeader :=
  [{ sampleBlock.toCBlockHeader with nTime := nTime },
    { sampleBlock.toCBlockHeader with nTime := 5 },
    { sampleBlock.toCBlockHeader with nTime := 5 }]

theorem contextualCheckBlock_verdict_iff_sample :
    (contextualCheckBlockVerdict (fun _ => 0) sampleProposalRules.context sampleBlock
        (tipOfTime 8) {}).Agrees ∧
      testBlockValidity (fun _ => 0) sampleProposalRules (viewOfTime 5) sampleBlock (tipOfTime 8)
        {} ≠ .stateNotValid :=
  (contextualCheckBlock_verdict_iff rfl).mpr (fun h => absurd h.2 (by decide))

/-- The tip is three hours ahead of the block, which is after the median, and close to the
clock: the check returns true with an invalid state, and `TestBlockValidity` aborts. -/
theorem testBlockValidity_asserts :
    ({} : CValidationState).isValid = true ∧
    contextualCheckBlockVerdict (fun _ => 0) sampleProposalRules.context sampleBlock
        (tipOfTime 10809) {} =
      (true, ⟨.invalid, 100, "bad-blk-time", REJECT_INVALID, false⟩) ∧
    testBlockValidity (fun _ => 0) sampleProposalRules (viewOfTime 5) sampleBlock
        (tipOfTime 10809) {} = .stateNotValid := by
  refine ⟨rfl, by decide +kernel, by decide +kernel⟩

end Verge
