import Mathlib.Order.Defs.LinearOrder
import Verge.Coins.Logic
import Verge.Foundation.Ancestry

/-!
# `CChainState`

The block index, the candidate set and the active chain of `validation.cpp`, and
`ActivateBestChain` on them.  A block is known by its index entry, and what its
header fixes (parent, height, work, number of transactions) is a tree given once
and for all; the state holds what changes.  What `ConnectBlock` says about a block
is not computed here: every call may get any answer.
-/

namespace Verge

open Foundation

/-- What the headers and the blocks themselves fix.  The order of `ι` is the
order of the index entries in memory. -/
structure BlockTree (ι : Type) extends Ancestry ι where
  nChainWork : ι → Nat
  nTx : ι → Nat

def BLOCK_VALID_TREE : Nat := 2

def BLOCK_VALID_TRANSACTIONS : Nat := 3

def BLOCK_VALID_SCRIPTS : Nat := 5

def MAX_AUTOMATIC_REORG_DEPTH : Nat := 6

/-- The fields of a `CBlockIndex` that change.  `validity` is `nStatus` under
`BLOCK_VALID_MASK`, the flags are its other bits. -/
structure CBlockIndex where
  validity : Nat
  haveData : Bool
  haveUndo : Bool
  failedValid : Bool
  failedChild : Bool
  nTx : Nat
  nChainTx : Nat
  nSequenceId : Int
  deriving DecidableEq, Repr

namespace CBlockIndex

def ofHeader : CBlockIndex := ⟨BLOCK_VALID_TREE, false, false, false, false, 0, 0, 0⟩

def failed (entry : CBlockIndex) : Bool := entry.failedValid || entry.failedChild

def isValid (entry : CBlockIndex) (nUpTo : Nat) : Bool :=
  !entry.failed && decide (nUpTo ≤ entry.validity)

def raiseValidity (entry : CBlockIndex) (nUpTo : Nat) : CBlockIndex :=
  if entry.failed then entry
  else if entry.validity < nUpTo then { entry with validity := nUpTo }
  else entry

end CBlockIndex

/-- `chainActive` is given by its tip, which is never null once the genesis
block is connected. -/
structure CChainState (ι : Type) where
  tip : ι
  mapBlockIndex : List ι
  entry : ι → CBlockIndex
  setBlockIndexCandidates : List ι
  mapBlocksUnlinked : List (ι × ι)
  m_failed_blocks : List ι
  nBlockSequenceId : Int

inductive Verdict where
  | valid
  | invalid (corruptionPossible : Bool)
  | systemError
  deriving DecidableEq, Repr

variable {ι : Type} [LinearOrder ι]

namespace CChainState

scoped instance decidableMemBlocks (i : ι) (blocks : List ι) : Decidable (i ∈ blocks) := inferInstance

def modify (s : CChainState ι) (blocks : List ι) (f : CBlockIndex → CBlockIndex) :
    CChainState ι :=
  { s with entry := fun i => if i ∈ blocks then f (s.entry i) else s.entry i }

def eraseCandidates (s : CChainState ι) (blocks : List ι) : CChainState ι :=
  { s with setBlockIndexCandidates := s.setBlockIndexCandidates.filter (· ∉ blocks) }

def insertCandidate (s : CChainState ι) (pindex : ι) : CChainState ι :=
  if pindex ∈ s.setBlockIndexCandidates then s
  else { s with setBlockIndexCandidates := pindex :: s.setBlockIndexCandidates }

end CChainState

open scoped CChainState

namespace BlockTree

variable (t : BlockTree ι)

/-- `CBlockIndexWorkComparator`: whether `pa` is worse than `pb`.  The work of a
block is its height. -/
def worse (s : CChainState ι) (pa pb : ι) : Bool :=
  if t.height pb < t.height pa then false
  else if t.height pa < t.height pb then true
  else if (s.entry pa).nSequenceId < (s.entry pb).nSequenceId then false
  else if (s.entry pb).nSequenceId < (s.entry pa).nSequenceId then true
  else decide (pb < pa)

def rbegin (s : CChainState ι) : List ι → Option ι
  | [] => none
  | pindex :: rest =>
    match rbegin s rest with
    | none => some pindex
    | some best => if t.worse s pindex best then some best else some pindex

def protectedHeight (tip : ι) : Nat := t.height tip - MAX_AUTOMATIC_REORG_DEPTH

def isAutomaticReorgAllowed (tip candidate : ι) : Bool :=
  t.ancestor candidate (t.protectedHeight tip) == t.ancestor tip (t.protectedHeight tip)

def pruneBlockIndexCandidates (s : CChainState ι) : Except Failure (CChainState ι) :=
  let left := s.setBlockIndexCandidates.filter fun pindex => !t.worse s pindex s.tip
  if left.isEmpty then .error (.assertion "!setBlockIndexCandidates.empty()")
  else .ok { s with setBlockIndexCandidates := left }

/-- The walk from a candidate to the active chain: the first block on it that
failed or whose data is missing. -/
def findUnusable (s : CChainState ι) : Nat → ι → Except Failure (Option ι)
  | n, pindexTest =>
    if t.IsAncestor pindexTest s.tip then .ok none
    else if (s.entry pindexTest).nChainTx = 0 ∧ t.height pindexTest ≠ 0 then
      .error (.assertion "pindexTest->nChainTx || pindexTest->nHeight == 0")
    else if (s.entry pindexTest).failed || !(s.entry pindexTest).haveData then
      .ok (some pindexTest)
    else
      match n, t.parent pindexTest with
      | n + 1, some pprev => findUnusable s n pprev
      | _, _ => .ok none

def downTo (stop : ι) : Nat → ι → List ι
  | 0, _ => []
  | n + 1, pindex =>
    if pindex = stop then []
    else
      match t.parent pindex with
      | some pprev => pindex :: downTo stop n pprev
      | none => [pindex]

def removeUnusable (s : CChainState ι) (pindexNew pindexTest : ι) : CChainState ι :=
  let chain := t.downTo pindexTest (t.height pindexNew) pindexNew
  let marked :=
    if (s.entry pindexTest).failed then
      s.modify chain fun entry => { entry with failedChild := true }
    else
      { s with mapBlocksUnlinked := s.mapBlocksUnlinked ++
          chain.filterMap fun pindex => (t.parent pindex).map fun pprev => (pprev, pindex) }
  marked.eraseCandidates (pindexTest :: chain)

/-- The loop of `FindMostWorkChain`.  Every round removes a candidate, so their
number bounds the rounds. -/
def findMostWorkLoop : Nat → CChainState ι → Except Failure (Option ι × CChainState ι)
  | 0, s => .ok (none, s)
  | n + 1, s =>
    match t.rbegin s s.setBlockIndexCandidates with
    | none => .ok (none, s)
    | some pindexNew =>
      if !t.isAutomaticReorgAllowed s.tip pindexNew then
        findMostWorkLoop n (s.eraseCandidates [pindexNew])
      else
        match t.findUnusable s (t.height pindexNew) pindexNew with
        | .error failure => .error failure
        | .ok none => .ok (some pindexNew, s)
        | .ok (some pindexTest) => findMostWorkLoop n (t.removeUnusable s pindexNew pindexTest)

def findMostWorkChain (s : CChainState ι) : Except Failure (Option ι × CChainState ι) :=
  t.findMostWorkLoop s.setBlockIndexCandidates.length s

def invalidBlockFound (s : CChainState ι) (pindex : ι) (corruptionPossible : Bool) :
    CChainState ι :=
  if corruptionPossible then s
  else
    let marked := s.modify [pindex] fun entry => { entry with failedValid := true }
    { marked.eraseCandidates [pindex] with
      m_failed_blocks := pindex :: s.m_failed_blocks.filter (· ≠ pindex) }

/-- `ConnectTip`: whether the block was connected.  A block that connects gets
its undo data and is raised to `BLOCK_VALID_SCRIPTS`, unless it is marked as
failed. -/
def connectTip (verdict : ι → Verdict) (s : CChainState ι) (pindexNew : ι) :
    Except Failure (Bool × CChainState ι) :=
  if t.parent pindexNew ≠ some s.tip then
    .error (.assertion "pindexNew->pprev == chainActive.Tip()")
  else
    match verdict pindexNew with
    | .valid =>
      let connected := s.modify [pindexNew] fun entry =>
        CBlockIndex.raiseValidity { entry with haveUndo := true } BLOCK_VALID_SCRIPTS
      .ok (true, { connected with tip := pindexNew })
    | .invalid corruptionPossible =>
      .ok (false, invalidBlockFound s pindexNew corruptionPossible)
    | .systemError => .error (.error "ConnectTip(): ConnectBlock failed")

/-- The loop over the blocks to connect, lowest first: whether an invalid block was found.
The source collects the blocks in portions of 32, which changes nothing here. -/
def connectBlocksTo (verdict : ι → Verdict) (pindexOldTip : ι) :
    List ι → CChainState ι → Except Failure (Bool × CChainState ι)
  | [], s => .ok (false, s)
  | pindexConnect :: rest, s =>
    match t.connectTip verdict s pindexConnect with
    | .error failure => .error failure
    | .ok (false, s') => .ok (true, s')
    | .ok (true, s') =>
      match t.pruneBlockIndexCandidates s' with
      | .error failure => .error failure
      | .ok s'' =>
        if t.nChainWork pindexOldTip < t.nChainWork s''.tip then .ok (false, s'')
        else connectBlocksTo verdict pindexOldTip rest s''

def blocksToConnect (pindexFork pindexMostWork : ι) : List ι :=
  (List.range' (t.height pindexFork + 1) (t.height pindexMostWork - t.height pindexFork)).filterMap
    (t.ancestor pindexMostWork)

def activateBestChainStep (verdict : ι → Verdict) (s : CChainState ι) (pindexMostWork : ι) :
    Except Failure (Bool × CChainState ι) :=
  if !t.isAutomaticReorgAllowed s.tip pindexMostWork then
    .error (.error "Automatic reorganization exceeds the 6-block rollback limit")
  else
    match t.lastCommonAncestor s.tip pindexMostWork with
    | none => .error (.assertion "pindexFork")
    | some pindexFork =>
      t.connectBlocksTo verdict s.tip (t.blocksToConnect pindexFork pindexMostWork)
        { s with tip := pindexFork }

end BlockTree

end Verge
