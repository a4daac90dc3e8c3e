import Verge.ChainParams
import Verge.Validation.BlockSignature
import Verge.Validation.TestBlockValidity

/-!
# `CheckBlock` and the active chain

The checks that `CheckBlock` is made of, put together for a network, the flags of the
call and the height of the active chain.  That height is read in one place only: the
time by which a block may be ahead of its coinbase is two hours up to height 2218499
and ten minutes from there on.
-/

namespace Verge

open Foundation

def checkBlockHeader (powHash : Algo → List UInt8 → uint256) (network : Network)
    (fCheckPOW : Bool) (block : CBlockHeader) : Option (Nat × String) :=
  if 4 < block.nVersion ∧ (algoOfVersion block.nVersion).isNone then some (50, "unknown-algo")
  else if fCheckPOW ∧ network.checkProofOfWork
      (block.getPoWHash powHash (getAlgo block.nVersion)) block.nBits = false then
    some (50, "high-hash")
  else none

def sigOpCountLoop : Nat → CScript → Nat
  | 0, _ => 0
  | fuel + 1, pc =>
    match getScriptOp pc with
    | none => 0
    | some (opcode, _, pc') =>
      (if opcode = 0xac ∨ opcode = 0xad then 1
        else if opcode = 0xae ∨ opcode = 0xaf then MAX_PUBKEYS_PER_MULTISIG
        else 0) + sigOpCountLoop fuel pc'

def getSigOpCount (script : CScript) : Nat := sigOpCountLoop script.length script

def getLegacySigOpCount (tx : CTransaction) : Nat :=
  (tx.vin.map fun txin => getSigOpCount txin.scriptSig).sum +
    (tx.vout.map fun txout => getSigOpCount txout.scriptPubKey).sum

structure CheckFlags where
  fCheckPOW : Bool
  fCheckMerkleRoot : Bool
  fCheckBlockSignature : Bool
  deriving DecidableEq, Repr

/-- The flags with which `AcceptBlock` and `ConnectBlock` check a block. -/
def CheckFlags.all : CheckFlags := ⟨true, true, true⟩

section Node

variable {K : Type} (powHash : Algo → List UInt8 → uint256) (doubleSha256 : List UInt8 → uint256)
  (scheme : KeyScheme K)

/-- The checks of a node whose active chain has the given height; `chainActive` is
empty at height -1.  The answers that only `ConnectBlock` asks for are those of
`rules`. -/
def nodeRules (network : Network) (flags : CheckFlags) (chainHeight : Int) (rules : BlockRules) :
    BlockRules :=
  { rules with
    checkHeader := fun block =>
      (checkBlockHeader powHash network flags.fCheckPOW block.toCBlockHeader).or
        (if flags.fCheckMerkleRoot then checkMerkleRoot doubleSha256 block else none)
    maxClockDrift := getMaxClockDrift chainHeight.toNat
    legacySigOpCount := getLegacySigOpCount
    checkBlockSignature := fun block =>
      !flags.fCheckBlockSignature ||
        checkBlockSignature powHash scheme network.hashGenesisBlock block }

end Node

def checkBeforeTime (rules : BlockRules) (block : CBlock) : Except Failure Unit := do
  ensureAccepted (rules.checkHeader block)
  ensure (!block.vtx.isEmpty &&
      decide (block.vtx.length * WITNESS_SCALE_FACTOR ≤ MAX_BLOCK_WEIGHT) &&
      decide (block.serializeSize * WITNESS_SCALE_FACTOR ≤ MAX_BLOCK_WEIGHT))
    (.invalid 100 "bad-blk-length")
  ensure ((block.vtx.head?).any CTransaction.isCoinBase) (.invalid 100 "bad-cb-missing")
  ensure (block.vtx.tail.all fun tx => !tx.isCoinBase) (.invalid 100 "bad-cb-multiple")

def checkCoinbaseTime (maxClockDrift : Nat) (block : CBlock) : Bool :=
  (block.vtx.head?).any fun tx => decide (block.nTime ≤ tx.nTime + maxClockDrift)

def checkAfterTime (rules : BlockRules) (block : CBlock) : Except Failure Unit := do
  checkTransactions block.nTime block.vtx
  ensure (decide ((block.vtx.map rules.legacySigOpCount).sum * WITNESS_SCALE_FACTOR ≤
      MAX_BLOCK_SIGOPS_COST)) (.invalid 100 "bad-blk-sigops")
  ensure (rules.checkBlockSignature block) (.invalid 100 "bad-blk-signature")

theorem checkBlock_eq {rules : BlockRules} {block : CBlock} (h : block.fChecked = false) :
    checkBlock rules block = (do
      checkBeforeTime rules block
      ensure (checkCoinbaseTime rules.maxClockDrift block) (.invalid 50 "transaction-time-too-new")
      checkAfterTime rules block) := by
  unfold checkBlock checkBeforeTime checkAfterTime checkCoinbaseTime
  rw [if_neg (by simp [h])]
  simp only [bind_assoc]

theorem getMaxClockDrift_eq (height : Nat) :
    getMaxClockDrift height =
      if height < 2218500 then MAX_FUTURE_BLOCK_TIME else NEW_FUTURE_BLOCK_TIME := by
  unfold getMaxClockDrift
  split_ifs <;> rfl

/-- The block is ahead of its coinbase by more than ten minutes and at most two hours, and is
not refused before that or for its time anyway. -/
structure HeightDecides (rules : BlockRules) (block : CBlock) : Prop where
  before : checkBeforeTime rules block = .ok ()
  ahead : ∃ coinbase ∈ block.vtx.head?, coinbase.nTime + NEW_FUTURE_BLOCK_TIME < block.nTime ∧
    block.nTime ≤ coinbase.nTime + MAX_FUTURE_BLOCK_TIME
  after : checkAfterTime rules block ≠ .error (.invalid 50 "transaction-time-too-new")

section Heights

variable {K : Type} {powHash : Algo → List UInt8 → uint256} {doubleSha256 : List UInt8 → uint256}
  {scheme : KeyScheme K} {network : Network} {flags : CheckFlags} {rules : BlockRules}
  {block : CBlock}

theorem checkCoinbaseTime_congr
    (h : ¬∃ coinbase ∈ block.vtx.head?, coinbase.nTime + NEW_FUTURE_BLOCK_TIME < block.nTime ∧
      block.nTime ≤ coinbase.nTime + MAX_FUTURE_BLOCK_TIME) (height height' : Nat) :
    checkCoinbaseTime (getMaxClockDrift height) block =
      checkCoinbaseTime (getMaxClockDrift height') block := by
  unfold checkCoinbaseTime
  cases hhead : block.vtx.head? with
  | none => rfl
  | some coinbase =>
    rw [hhead] at h
    have hgap : ¬(coinbase.nTime + NEW_FUTURE_BLOCK_TIME < block.nTime ∧
        block.nTime ≤ coinbase.nTime + MAX_FUTURE_BLOCK_TIME) := fun hgap => h ⟨_, rfl, hgap⟩
    have hle : NEW_FUTURE_BLOCK_TIME ≤ MAX_FUTURE_BLOCK_TIME := by decide
    rw [Option.any_some, Option.any_some, getMaxClockDrift_eq, getMaxClockDrift_eq]
    split_ifs <;> simp only [decide_eq_decide] <;> omega

/-- `CheckBlock` gives one verdict at every height exactly if the block is not one of those
that the height decides about. -/
theorem checkBlock_contextFree_iff (hfresh : block.fChecked = false) :
    (∀ chainHeight chainHeight' : Int,
      checkBlock (nodeRules powHash doubleSha256 scheme network flags chainHeight rules) block =
        checkBlock (nodeRules powHash doubleSha256 scheme network flags chainHeight' rules) block) ↔
      ¬HeightDecides (nodeRules powHash doubleSha256 scheme network flags 0 rules) block := by
  -- neither part depends on the height
  have hbefore : ∀ chainHeight,
      checkBeforeTime (nodeRules powHash doubleSha256 scheme network flags chainHeight rules) block =
        checkBeforeTime (nodeRules powHash doubleSha256 scheme network flags 0 rules) block :=
    fun _ => rfl
  have hafter : ∀ chainHeight,
      checkAfterTime (nodeRules powHash doubleSha256 scheme network flags chainHeight rules) block =
        checkAfterTime (nodeRules powHash doubleSha256 scheme network flags 0 rules) block :=
    fun _ => rfl
  have hdrift : ∀ chainHeight,
      (nodeRules powHash doubleSha256 scheme network flags chainHeight rules).maxClockDrift =
        getMaxClockDrift chainHeight.toNat := fun _ => rfl
  simp only [checkBlock_eq hfresh, hbefore, hafter, hdrift]
  generalize hb : checkBeforeTime (nodeRules powHash doubleSha256 scheme network flags 0 rules)
    block = before
  generalize ha : checkAfterTime (nodeRules powHash doubleSha256 scheme network flags 0 rules)
    block = after
  constructor
  · rintro hsame ⟨hok, ⟨coinbase, hhead, hnew, hold⟩, hother⟩
    have hverdict := hsame 0 2218500
    rw [Option.mem_def] at hhead
    have hlow : checkCoinbaseTime (getMaxClockDrift (0 : Int).toNat) block = true := by
      simp only [checkCoinbaseTime, hhead, Option.any_some, decide_eq_true_eq]
      exact hold
    have hhigh : checkCoinbaseTime (getMaxClockDrift (2218500 : Int).toNat) block = false := by
      simp only [checkCoinbaseTime, hhead, Option.any_some, decide_eq_false_iff_not, not_le]
      exact hnew
    rw [hlow, hhigh, hb.symm.trans hok] at hverdict
    exact hother (ha.trans hverdict)
  · intro hnot chainHeight chainHeight'
    cases before with
    | error failure => rfl
    | ok u =>
      by_cases hgap : ∃ coinbase ∈ block.vtx.head?,
          coinbase.nTime + NEW_FUTURE_BLOCK_TIME < block.nTime ∧
          block.nTime ≤ coinbase.nTime + MAX_FUTURE_BLOCK_TIME
      · have hrefused : after = .error (.invalid 50 "transaction-time-too-new") := by
          by_contra hother
          exact hnot ⟨hb, hgap, ha ▸ hother⟩
        have hall : ∀ inTime, (ensure inTime (.invalid 50 "transaction-time-too-new") >>=
            fun _ => after) = .error (.invalid 50 "transaction-time-too-new") := by
          intro inTime
          rw [hrefused]
          cases inTime <;> rfl
        exact (hall _).trans (hall _).symm
      · rw [checkCoinbaseTime_congr hgap chainHeight.toNat chainHeight'.toNat]

end Heights

namespace HourAhead

open NonstandardFirst

def blockOfTime (nTime : Nat) : CBlock :=
  { block [payToPubKey] with nTime, nBits := 0x1e0fffff, hashMerkleRoot := 3, vchBlockSig := [1] }

def rulesAt (chainHeight : Int) : BlockRules :=
  nodeRules (fun _ _ => 0) (fun _ => 0) scheme .main .all chainHeight permissiveRules

/-- Accepted on arrival at height 2218499, refused one block later, also when
`ConnectBlock` reads it from disk. -/
theorem checkBlock_depends_on_height :
    (blockOfTime 3607).fChecked = false ∧
    checkBlock (rulesAt 2218499) (blockOfTime 3607) = .ok () ∧
    checkBlock (rulesAt 2218500) (blockOfTime 3607) =
      .error (.invalid 50 "transaction-time-too-new") ∧
    ∀ view, (connectBlock sampleParams (rulesAt 2218500) (blockOfTime 3607) 2218501).run view =
      .error (.invalid 50 "transaction-time-too-new") := by
  have hrefused : checkBlock (rulesAt 2218500) (blockOfTime 3607) =
      .error (.invalid 50 "transaction-time-too-new") := by decide +kernel
  refine ⟨rfl, by decide +kernel, hrefused, fun view => ?_⟩
  unfold connectBlock
  rw [hrefused]
  rfl

theorem checkBlock_contextFree_iff_inTime :
    checkBlock (rulesAt 2218499) (blockOfTime 8) = checkBlock (rulesAt 2218500) (blockOfTime 8) := by
  refine (checkBlock_contextFree_iff rfl).mpr ?_ 2218499 2218500
  rintro ⟨-, ⟨coinbase, hhead, hnew, -⟩, -⟩
  cases hhead
  exact absurd hnew (by decide)

end HourAhead

end Verge
