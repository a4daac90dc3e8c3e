import Verge.Chain.ChainState

/-!
# The other operations on the chain state

`AcceptBlockHeader` and `AcceptBlock`, which let the index grow, and the manual operation
`InvalidateBlock`.
-/

namespace Verge

open Foundation
open scoped CChainState

variable {ι : Type} [LinearOrder ι]

namespace CChainState

def eligible (s : CChainState ι) (pindex : ι) : Bool :=
  (s.entry pindex).isValid BLOCK_VALID_TRANSACTIONS && decide ((s.entry pindex).nChainTx ≠ 0)

def insertCandidates (s : CChainState ι) (blocks : List ι) : CChainState ι :=
  blocks.foldl insertCandidate s

end CChainState

namespace BlockTree

variable (t : BlockTree ι)

/-- The state in which only the genesis block is known.  It is stored and active;
`ConnectBlock` does not raise its validity. -/
def genesisState : CChainState ι where
  tip := t.root
  mapBlockIndex := [t.root]
  entry i :=
    if i = t.root then
      ⟨BLOCK_VALID_TRANSACTIONS, true, false, false, false, t.nTx i, t.nTx i % 2 ^ 32, 1⟩
    else CBlockIndex.ofHeader
  setBlockIndexCandidates := [t.root]
  mapBlocksUnlinked := []
  m_failed_blocks := []
  nBlockSequenceId := 2

/-- The end of `InvalidateBlock`: mark the block, and make every block that is
as good as the new tip a candidate again. -/
def markInvalid (s : CChainState ι) (pindex : ι) : CChainState ι :=
  let marked := s.modify [pindex] fun entry => { entry with failedValid := true }
  let erased : CChainState ι :=
    { marked.eraseCandidates [pindex] with
      m_failed_blocks := pindex :: s.m_failed_blocks.filter (· ≠ pindex) }
  erased.insertCandidates
    (s.mapBlockIndex.filter fun i => erased.eligible i && !t.worse erased i erased.tip)

/-- `InvalidateBlock`.  The genesis block has no undo data and cannot be
disconnected. -/
def invalidateBlock (s : CChainState ι) (pindex : ι) : Except Failure (CChainState ι) :=
  if t.IsAncestor pindex s.tip then
    match t.parent pindex with
    | none => .error (.error "DisconnectTip(): DisconnectBlock failed")
    | some pprev =>
      let above := t.downTo pindex (t.height s.tip) s.tip
      let disconnected : CChainState ι :=
        { (s.modify above fun entry => { entry with failedChild := true }).eraseCandidates above
          with tip := pprev }
      .ok (t.markInvalid disconnected pindex)
  else .ok (t.markInvalid s pindex)

/-- `AcceptBlockHeader`: whether the header was accepted.  `headerValid` is what
`CheckBlockHeader` and `ContextualCheckBlockHeader` say. -/
def acceptBlockHeader (s : CChainState ι) (pindex : ι) (headerValid : Bool) :
    Except Failure (Bool × CChainState ι) :=
  if pindex ∈ s.mapBlockIndex then .ok (!(s.entry pindex).failed || pindex == t.root, s)
  else
    match t.parent pindex with
    | none => .ok (false, s)
    | some pprev =>
      if !headerValid || pprev ∉ s.mapBlockIndex || (s.entry pprev).failed then .ok (false, s)
      else
        -- the failed blocks are visited in the order of their addresses
        match (s.m_failed_blocks.filter fun i =>
            !(s.entry pprev).isValid BLOCK_VALID_SCRIPTS && t.IsAncestor i pprev).min? with
        | some failedit =>
          if !(s.entry failedit).failedValid then
            .error (.assertion "failedit->nStatus & BLOCK_FAILED_VALID")
          else .ok (false, s.modify (t.downTo failedit (t.height pprev) pprev)
            fun entry => { entry with failedChild := true })
        | none => .ok (true,
            { s.modify [pindex] (fun _ => CBlockIndex.ofHeader) with
              mapBlockIndex := pindex :: s.mapBlockIndex })

/-- The queue in `ReceivedBlockTransactions`.  Every round takes a block off the queue that
was put there once, or was waiting. -/
def linkQueue : Nat → List ι → CChainState ι → CChainState ι
  | 0, _, s => s
  | _ + 1, [], s => s
  | n + 1, pindex :: queue, s =>
    let before := ((t.parent pindex).map fun pprev => (s.entry pprev).nChainTx).getD 0
    let numbered : CChainState ι :=
      { s.modify [pindex] (fun entry =>
          { entry with
            nChainTx := (before + entry.nTx) % 2 ^ 32
            nSequenceId := s.nBlockSequenceId }) with
        nBlockSequenceId := s.nBlockSequenceId + 1 }
    let inserted :=
      if t.worse numbered pindex numbered.tip then numbered
      else numbered.insertCandidate pindex
    let waiting := (s.mapBlocksUnlinked.filter fun p => p.1 = pindex).map Prod.snd
    linkQueue n (queue ++ waiting)
      { inserted with mapBlocksUnlinked := s.mapBlocksUnlinked.filter fun p => p.1 ≠ pindex }

def receivedBlockTransactions (s : CChainState ι) (pindexNew : ι) : CChainState ι :=
  let received := s.modify [pindexNew] fun entry =>
    CBlockIndex.raiseValidity
      { entry with nTx := t.nTx pindexNew, nChainTx := 0, haveData := true }
      BLOCK_VALID_TRANSACTIONS
  match t.parent pindexNew with
  | none => t.linkQueue (s.mapBlocksUnlinked.length + 1) [pindexNew] received
  | some pprev =>
    if (received.entry pprev).nChainTx ≠ 0 then
      t.linkQueue (s.mapBlocksUnlinked.length + 1) [pindexNew] received
    else if (received.entry pprev).isValid BLOCK_VALID_TREE then
      { received with mapBlocksUnlinked := received.mapBlocksUnlinked ++ [(pprev, pindexNew)] }
    else received

def MIN_BLOCKS_TO_KEEP : Nat := 288

/-- Whether `AcceptBlock` looks at the data of a block: all that was asked for,
and otherwise blocks that may advance the tip and are not too far ahead. -/
def processes (s : CChainState ι) (pindex : ι) (fRequested : Bool) (nMinimumChainWork : Nat) :
    Bool :=
  !(s.entry pindex).haveData &&
    (fRequested ||
      ((s.entry pindex).nTx == 0 && decide (t.nChainWork s.tip ≤ t.nChainWork pindex) &&
        decide (t.height pindex ≤ t.height s.tip + MIN_BLOCKS_TO_KEEP) &&
        decide (nMinimumChainWork ≤ t.nChainWork pindex)))

/-- `AcceptBlock` once the header is accepted; `verdict` is what `CheckBlock` and
`ContextualCheckBlock` say. -/
def acceptBlockData (s : CChainState ι) (pindex : ι) (fRequested : Bool)
    (nMinimumChainWork : Nat) (verdict : Verdict) : Except Failure (CChainState ι) :=
  if !t.processes s pindex fRequested nMinimumChainWork then .ok s
  else
    match verdict with
    | .valid => .ok (t.receivedBlockTransactions s pindex)
    | .invalid false => .ok (s.modify [pindex] fun entry => { entry with failedValid := true })
    | .invalid true => .ok s
    | .systemError => .error (.error "AcceptBlock: system error")

def acceptBlock (s : CChainState ι) (pindex : ι) (headerValid fRequested : Bool)
    (nMinimumChainWork : Nat) (verdict : Verdict) : Except Failure (CChainState ι) :=
  match t.acceptBlockHeader s pindex headerValid with
  | .error failure => .error failure
  | .ok (false, s') => .ok s'
  | .ok (true, s') => t.acceptBlockData s' pindex fRequested nMinimumChainWork verdict

end BlockTree

end Verge
