import Verge.Chain.Operations

/-!
# Block files and pruning

`CBlockFileInfo` of `chain.h` and the functions of `validation.cpp` that give blocks
and undo data a place in a file and that prune files.  The state has the statistics of
the files and, for every entry of the block index, where its data is.  Whether
`Allocate` finds room on the disk is not computed: every call may get either answer.
-/

namespace Verge

open Foundation

def MAX_BLOCKFILE_SIZE : Nat := 0x8000000

def BLOCKFILE_CHUNK_SIZE : Nat := 0x1000000

def UNDOFILE_CHUNK_SIZE : Nat := 0x100000

structure CBlockFileInfo where
  nBlocks : Nat := 0
  nSize : Nat := 0
  nUndoSize : Nat := 0
  nHeightFirst : Nat := 0
  nHeightLast : Nat := 0
  nTimeFirst : Nat := 0
  nTimeLast : Nat := 0
  deriving DecidableEq, Repr

namespace CBlockFileInfo

def null : CBlockFileInfo := {}

def addBlock (info : CBlockFileInfo) (nHeightIn nTimeIn : Nat) : CBlockFileInfo :=
  { info with
    nHeightFirst :=
      if info.nBlocks = 0 ∨ nHeightIn < info.nHeightFirst then nHeightIn else info.nHeightFirst
    nTimeFirst :=
      if info.nBlocks = 0 ∨ nTimeIn < info.nTimeFirst then nTimeIn else info.nTimeFirst
    nBlocks := (info.nBlocks + 1) % 2 ^ 32
    nHeightLast := if info.nHeightLast < nHeightIn then nHeightIn else info.nHeightLast
    nTimeLast := if info.nTimeLast < nTimeIn then nTimeIn else info.nTimeLast }

end CBlockFileInfo

structure FlatFilePos where
  nFile : Nat
  nPos : Nat
  deriving DecidableEq, Repr

structure DataPosition where
  haveData : Bool := false
  haveUndo : Bool := false
  nFile : Nat := 0
  nDataPos : Nat := 0
  nUndoPos : Nat := 0
  deriving DecidableEq, Repr

structure BlockFileState (ι : Type) where
  vinfoBlockFile : List CBlockFileInfo := []
  nLastBlockFile : Nat := 0
  entry : ι → DataPosition := fun _ => {}
  mapBlocksUnlinked : List (ι × ι) := []

def resizeFiles (files : List CBlockFileInfo) (size : Nat) : List CBlockFileInfo :=
  files ++ List.replicate (size - files.length) .null

namespace BlockFileState

variable {ι : Type}

def info (s : BlockFileState ι) (nFile : Nat) : CBlockFileInfo := s.vinfoBlockFile.getD nFile .null

def setInfo (s : BlockFileState ι) (nFile : Nat) (file : CBlockFileInfo) : BlockFileState ι :=
  { s with vinfoBlockFile := s.vinfoBlockFile.set nFile file }

/-- The loop that looks for a file with room, from the last file on.  After the files that
there are comes an empty one, and a block is smaller than a file. -/
def findFile (nAddSize : Nat) : List CBlockFileInfo → Nat → Nat
  | [], nFile => nFile
  | file :: files, nFile =>
    if MAX_BLOCKFILE_SIZE ≤ file.nSize + nAddSize then findFile nAddSize files (nFile + 1)
    else nFile

def fileFor (s : BlockFileState ι) (nAddSize : Nat) : Nat :=
  findFile nAddSize (s.vinfoBlockFile.drop s.nLastBlockFile) s.nLastBlockFile

/-- `FindBlockPos` for a block that is not in a file yet.  The statistics are updated before
`Allocate` is asked. -/
def findBlockPos (s : BlockFileState ι) (nAddSize nHeight nTime : Nat) (out_of_space : Bool) :
    Option FlatFilePos × BlockFileState ι :=
  let nFile := s.fileFor nAddSize
  let s := { s with vinfoBlockFile := resizeFiles s.vinfoBlockFile (nFile + 1),
                    nLastBlockFile := nFile }
  let pos := ⟨nFile, (s.info nFile).nSize⟩
  let file := (s.info nFile).addBlock nHeight nTime
  let s := s.setInfo nFile { file with nSize := file.nSize + nAddSize }
  (if out_of_space then none else some pos, s)

def findUndoPos (s : BlockFileState ι) (nFile nAddSize : Nat) (out_of_space : Bool) :
    Option FlatFilePos × BlockFileState ι :=
  let max_position := 2 ^ 63 - 1
  let nUndoSize := (s.info nFile).nUndoSize
  if max_position < nUndoSize ∨ max_position - nUndoSize < nAddSize then (none, s)
  else
    (if out_of_space then none else some ⟨nFile, nUndoSize⟩,
      s.setInfo nFile { s.info nFile with nUndoSize := nUndoSize + nAddSize })

def calculateCurrentUsage (s : BlockFileState ι) : Nat :=
  s.vinfoBlockFile.foldl (fun retval file => (retval + (file.nSize + file.nUndoSize)) % 2 ^ 64) 0

variable [DecidableEq ι]

def setEntry (s : BlockFileState ι) (pindex : ι) (position : DataPosition) : BlockFileState ι :=
  { s with entry := Function.update s.entry pindex position }

def receiveBlock (s : BlockFileState ι) (pindexNew : ι) (pos : FlatFilePos) : BlockFileState ι :=
  s.setEntry pindexNew
    { s.entry pindexNew with
      haveData := true, nFile := pos.nFile, nDataPos := pos.nPos, nUndoPos := 0 }

/-- A new block is saved and its entry updated.  `FindBlockPos` and `WriteBlockToDisk` may
fail, and then the entry stays as it is. -/
def acceptBlock (t : Ancestry ι) (s : BlockFileState ι) (pindex : ι) (nAddSize nTime : Nat)
    (out_of_space fWritten : Bool) : BlockFileState ι :=
  let (pos, s) := s.findBlockPos nAddSize (t.height pindex) nTime out_of_space
  match pos with
  | some pos => if fWritten then s.receiveBlock pindex pos else s
  | none => s

def writeUndoDataForBlock (s : BlockFileState ι) (pindex : ι) (nAddSize : Nat)
    (out_of_space fWritten : Bool) : BlockFileState ι :=
  if (s.entry pindex).haveUndo then s
  else
    let (pos, s) := s.findUndoPos (s.entry pindex).nFile nAddSize out_of_space
    match pos with
    | some pos =>
      if fWritten then
        s.setEntry pindex { s.entry pindex with nUndoPos := pos.nPos, haveUndo := true }
      else s
    | none => s

def pruneOneBlockFile (t : Ancestry ι) (s : BlockFileState ι) (fileNumber : Nat) :
    BlockFileState ι :=
  { s.setInfo fileNumber .null with
    entry := fun pindex => if (s.entry pindex).nFile = fileNumber then {} else s.entry pindex
    mapBlocksUnlinked := s.mapBlocksUnlinked.filter fun (pprev, pindex) =>
      !((s.entry pindex).nFile = fileNumber && t.parent pindex == some pprev) }

/-- The height up to which blocks may be pruned: an `unsigned int`. -/
def lastBlockWeCanPrune (nHeight : Nat) : Nat :=
  (nHeight + 2 ^ 32 - BlockTree.MIN_BLOCKS_TO_KEEP) % 2 ^ 32

def pruneManualLoop (t : Ancestry ι) (nLastBlockWeCanPrune : Nat) :
    List Nat → BlockFileState ι × List Nat → BlockFileState ι × List Nat
  | [], r => r
  | fileNumber :: rest, (s, setFilesToPrune) =>
    if (s.info fileNumber).nSize = 0 ∨ nLastBlockWeCanPrune < (s.info fileNumber).nHeightLast then
      pruneManualLoop t nLastBlockWeCanPrune rest (s, setFilesToPrune)
    else
      pruneManualLoop t nLastBlockWeCanPrune rest
        (s.pruneOneBlockFile t fileNumber, setFilesToPrune ++ [fileNumber])

def findFilesToPruneManual (t : Ancestry ι) (s : BlockFileState ι) (tip : Option Nat)
    (nManualPruneHeight : Nat) : BlockFileState ι × List Nat :=
  match tip with
  | none => (s, [])
  | some nHeight =>
    pruneManualLoop t (min nManualPruneHeight (lastBlockWeCanPrune nHeight))
      (List.range s.nLastBlockFile) (s, [])

def nBuffer : Nat := BLOCKFILE_CHUNK_SIZE + UNDOFILE_CHUNK_SIZE

def pruneLoop (t : Ancestry ι) (nLastBlockWeCanPrune nPruneTarget : Nat) :
    List Nat → Nat → BlockFileState ι × List Nat → BlockFileState ι × List Nat
  | [], _, r => r
  | fileNumber :: rest, nCurrentUsage, (s, setFilesToPrune) =>
    let nBytesToPrune := ((s.info fileNumber).nSize + (s.info fileNumber).nUndoSize) % 2 ^ 64
    if (s.info fileNumber).nSize = 0 then
      pruneLoop t nLastBlockWeCanPrune nPruneTarget rest nCurrentUsage (s, setFilesToPrune)
    else if (nCurrentUsage + nBuffer) % 2 ^ 64 < nPruneTarget then (s, setFilesToPrune)
    else if nLastBlockWeCanPrune < (s.info fileNumber).nHeightLast then
      pruneLoop t nLastBlockWeCanPrune nPruneTarget rest nCurrentUsage (s, setFilesToPrune)
    else
      pruneLoop t nLastBlockWeCanPrune nPruneTarget rest
        ((nCurrentUsage + 2 ^ 64 - nBytesToPrune) % 2 ^ 64)
        (s.pruneOneBlockFile t fileNumber, setFilesToPrune ++ [fileNumber])

def findFilesToPrune (t : Ancestry ι) (s : BlockFileState ι) (tip : Option Nat)
    (nPruneTarget nPruneAfterHeight : Nat) : BlockFileState ι × List Nat :=
  match tip with
  | none => (s, [])
  | some nHeight =>
    if nPruneTarget = 0 ∨ nHeight ≤ nPruneAfterHeight then (s, [])
    else if nPruneTarget ≤ (s.calculateCurrentUsage + nBuffer) % 2 ^ 64 then
      pruneLoop t (lastBlockWeCanPrune nHeight) nPruneTarget (List.range s.nLastBlockFile)
        s.calculateCurrentUsage (s, [])
    else (s, [])

end BlockFileState

end Verge
