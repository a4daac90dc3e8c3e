import Verge.Chain.BlockIndexDB
import Verge.Chain.Operations
import Verge.Chain.SkipList

/-!
# The block index with its pointers

`AddToBlockIndex` derives the height, the work, the largest time and the skip
pointer of an entry from its parent when the header arrives, and keeps the header
with the most work as `pindexBestHeader`.  Here these fields stand beside the chain
state, over a tree in which blocks are found by their hashes.
-/

namespace Verge

open Foundation
open scoped CChainState

structure HeaderTree (ι : Type) (powHash : Algo → List UInt8 → uint256) extends BlockTree ι where
  header : ι → CBlockHeader
  inRange : ∀ i, (header i).InRange
  hash_eq : ∀ i, (header i).hash = (header i).getPoWHash powHash .scrypt
  hash_ne_zero : ∀ i, (header i).hash ≠ 0
  hash_injective : ∀ {i j}, (header i).hash = (header j).hash → i = j
  hashPrevBlock_root : (header root).hashPrevBlock = 0
  hashPrevBlock_parent : ∀ {i j}, parent i = some j → (header i).hashPrevBlock = (header j).hash
  nChainWork_eq : ∀ i, nChainWork i = toAncestry.accumulate
    (fun before j =>
      (before.getD 0 + getBlockProof (header j).nVersion (header j).nBits) % 2 ^ 256) i
  height_lt : ∀ i, height i < 2 ^ 31
  root_check : (header root).check powHash = true

namespace HeaderTree

variable {ι : Type} {powHash : Algo → List UInt8 → uint256}

def hash (t : HeaderTree ι powHash) (i : ι) : uint256 := (t.header i).hash

theorem hash_ne (t : HeaderTree ι powHash) {i j : ι} (h : i ≠ j) : t.hash i ≠ t.hash j :=
  fun heq => h (t.hash_injective heq)

def nTimeMax (t : HeaderTree ι powHash) : ι → Nat :=
  t.accumulate fun before i => (before.map (max · (t.header i).nTime)).getD (t.header i).nTime

def skip (t : HeaderTree ι powHash) (i : ι) : Option ι :=
  (t.parent i).bind fun _ => t.ancestor i (getSkipHeight (t.height i))

end HeaderTree

/-- The fields of a `CBlockIndex` that `AddToBlockIndex` derives, and the place of
the block on disk. -/
structure IndexLinks (ι : Type) where
  pprev : Option ι
  pskip : Option ι
  nHeight : Nat
  nChainWork : Nat
  nTimeMax : Nat
  nFile : Nat
  nDataPos : Nat
  nUndoPos : Nat
  deriving DecidableEq, Repr

def HeaderTree.links {ι : Type} {powHash : Algo → List UInt8 → uint256} (t : HeaderTree ι powHash)
    (i : ι) : IndexLinks ι :=
  ⟨t.parent i, t.skip i, t.height i, t.nChainWork i, t.nTimeMax i, 0, 0, 0⟩

structure BlockIndex (ι : Type) where
  chain : CChainState ι
  links : ι → IndexLinks ι
  pindexBestHeader : Option ι

namespace BlockIndex

variable {ι : Type} [LinearOrder ι] {powHash : Algo → List UInt8 → uint256}

def pointers (x : BlockIndex ι) : BlockPointers ι where
  pprev i := (x.links i).pprev
  pskip i := (x.links i).pskip
  nHeight i := (x.links i).nHeight

def setLinks (x : BlockIndex ι) (pindex : ι) (links : IndexLinks ι) : BlockIndex ι :=
  { x with links := Function.update x.links pindex links }

def newLinks (t : HeaderTree ι powHash) (x : BlockIndex ι) (pindexNew : ι) : IndexLinks ι :=
  let block := t.header pindexNew
  let pprev := x.chain.mapBlockIndex.find? fun j => t.hash j == block.hashPrevBlock
  let before := pprev.map x.links
  { pprev
    pskip := none
    nHeight := (before.map (·.nHeight + 1)).getD 0
    nChainWork := ((before.map (·.nChainWork)).getD 0 +
      getBlockProof block.nVersion block.nBits) % 2 ^ 256
    nTimeMax := (before.map fun l => max l.nTimeMax block.nTime).getD block.nTime
    nFile := 0
    nDataPos := 0
    nUndoPos := 0 }

def addToBlockIndex (t : HeaderTree ι powHash) (x : BlockIndex ι) (pindexNew : ι) :
    Except Failure (BlockIndex ι) := do
  let links := newLinks t x pindexNew
  let pskip ← (x.setLinks pindexNew links).pointers.buildSkip pindexNew
  let best :=
    match x.pindexBestHeader with
    | none => pindexNew
    | some best => if (x.links best).nChainWork < links.nChainWork then pindexNew else best
  return { x.setLinks pindexNew { links with pskip } with pindexBestHeader := some best }

/-- `AcceptBlockHeader`; `contextual` is what `ContextualCheckBlockHeader` says. -/
def acceptBlockHeader (t : HeaderTree ι powHash) (x : BlockIndex ι) (pindex : ι)
    (contextual : Bool) : Except Failure (Bool × BlockIndex ι) :=
  match t.acceptBlockHeader x.chain pindex ((t.header pindex).check powHash && contextual) with
  | .error failure => .error failure
  | .ok (accepted, chain) =>
    if accepted && decide (pindex ∉ x.chain.mapBlockIndex) then
      (addToBlockIndex t { x with chain } pindex).map fun x' => (true, x')
    else .ok (accepted, { x with chain })

def acceptBlock (t : HeaderTree ι powHash) (x : BlockIndex ι) (pindex : ι) (contextual : Bool)
    (fRequested : Bool) (nMinimumChainWork : Nat) (verdict : Verdict) (nFile nDataPos : Nat) :
    Except Failure (BlockIndex ι) :=
  match acceptBlockHeader t x pindex contextual with
  | .error failure => .error failure
  | .ok (false, x') => .ok x'
  | .ok (true, x') =>
    match t.acceptBlockData x'.chain pindex fRequested nMinimumChainWork verdict with
    | .error failure => .error failure
    | .ok chain =>
      if t.processes x'.chain pindex fRequested nMinimumChainWork && verdict == .valid then
        .ok ({ x' with chain }.setLinks pindex
          { x'.links pindex with nFile, nDataPos, nUndoPos := 0 })
      else .ok { x' with chain }

def genesis (t : HeaderTree ι powHash) : BlockIndex ι where
  chain := t.genesisState
  links _ :=
    { pprev := none
      pskip := none
      nHeight := 0
      nChainWork := getBlockProof (t.header t.root).nVersion (t.header t.root).nBits % 2 ^ 256
      nTimeMax := (t.header t.root).nTime
      nFile := 0
      nDataPos := 8
      nUndoPos := 0 }
  pindexBestHeader := some t.root

inductive Operation (ι : Type) where
  | header (pindex : ι) (contextual : Bool)
  | block (pindex : ι) (contextual fRequested : Bool) (nMinimumChainWork : Nat)
      (verdict : Verdict) (nFile nDataPos : Nat)

def Operation.InRange : Operation ι → Prop
  | .header _ _ => True
  | .block _ _ _ _ _ nFile nDataPos => nFile < 2 ^ 31 ∧ nDataPos < 2 ^ 64

def apply (t : HeaderTree ι powHash) (x : BlockIndex ι) :
    Operation ι → Except Failure (BlockIndex ι)
  | .header pindex contextual => (acceptBlockHeader t x pindex contextual).map Prod.snd
  | .block pindex contextual fRequested nMinimumChainWork verdict nFile nDataPos =>
    acceptBlock t x pindex contextual fRequested nMinimumChainWork verdict nFile nDataPos

inductive Reachable (t : HeaderTree ι powHash) : BlockIndex ι → Prop where
  | genesis : Reachable t (genesis t)
  | step {x x' : BlockIndex ι} {op : Operation ι} : Reachable t x → op.InRange →
      x.apply t op = .ok x' → Reachable t x'

end BlockIndex

end Verge
