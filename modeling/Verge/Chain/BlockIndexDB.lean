import Verge.Pow

/-!
# `CDiskBlockIndex`

How an entry of the block index is written to the block tree database and read
back.
-/

namespace Verge

open Foundation Reader

def BLOCK_VALID_MASK : Nat := 7

def BLOCK_HAVE_DATA : Nat := 8

def BLOCK_HAVE_UNDO : Nat := 16

def BLOCK_FAILED_VALID : Nat := 32

def BLOCK_FAILED_CHILD : Nat := 64

def BLOCK_FAILED_MASK : Nat := BLOCK_FAILED_VALID ||| BLOCK_FAILED_CHILD

def CLIENT_VERSION : Nat := 26100200

def statusHas (nStatus mask : Nat) : Bool := nStatus &&& mask != 0

structure CDiskBlockIndex where
  nHeight : Nat
  nStatus : Nat
  nTx : Nat
  hashBlockShared : uint256
  hashPOWShared : uint256
  nFile : Nat
  nDataPos : Nat
  nUndoPos : Nat
  nVersion : Int
  hashPrev : uint256
  hashMerkleRoot : uint256
  nTime : Nat
  nBits : Nat
  nNonce : Nat
  deriving DecidableEq, Repr

namespace CDiskBlockIndex

variable (powHash : Algo → List UInt8 → uint256)

def getBlockHeader (d : CDiskBlockIndex) : CBlockHeader where
  nVersion := d.nVersion
  hashPrevBlock := d.hashPrev
  hashMerkleRoot := d.hashMerkleRoot
  nTime := d.nTime
  nBits := d.nBits
  nNonce := d.nNonce
  hash := 0

def prepare (d : CDiskBlockIndex) : CDiskBlockIndex :=
  let hashBlockShared :=
    if d.hashBlockShared = 0 then d.getBlockHeader.getHash powHash else d.hashBlockShared
  let algo := getAlgo d.nVersion
  { d with
    hashBlockShared := hashBlockShared
    hashPOWShared :=
      if d.hashPOWShared = 0 then
        if algo = .scrypt then hashBlockShared else d.getBlockHeader.getPoWHash powHash algo
      else d.hashPOWShared }

def write (d : CDiskBlockIndex) : List UInt8 :=
  let d := d.prepare powHash
  writeVarInt 31 CLIENT_VERSION ++
    (writeVarInt 31 d.nHeight ++
    (writeVarInt 32 d.nStatus ++
    (writeVarInt 32 d.nTx ++
    (writeLE 32 d.hashBlockShared.toNat ++
    (writeLE 32 d.hashPOWShared.toNat ++
    ((if statusHas d.nStatus (BLOCK_HAVE_DATA ||| BLOCK_HAVE_UNDO) then writeVarInt 31 d.nFile
      else []) ++
    ((if statusHas d.nStatus BLOCK_HAVE_DATA then writeVarInt 64 d.nDataPos else []) ++
    ((if statusHas d.nStatus BLOCK_HAVE_UNDO then writeVarInt 64 d.nUndoPos else []) ++
    (writeLE 4 (int32Bits d.nVersion) ++
    (writeLE 32 d.hashPrev.toNat ++
    (writeLE 32 d.hashMerkleRoot.toNat ++
    (writeLE 4 d.nTime ++
    (writeLE 4 d.nBits ++
    writeLE 4 d.nNonce)))))))))))))

def readHash : ByteReader uint256 := do
  let n ← readLE 32
  return BitVec.ofNat 256 n

def readIf (condition : Bool) (field : ByteReader Nat) : ByteReader Nat :=
  if condition then field else pure 0

/-- `SerializationOp` for reading into a new entry. -/
def read : ByteReader CDiskBlockIndex := do
  let _ ← readVarInt 31
  let nHeight ← readVarInt 31
  let nStatus ← readVarInt 32
  let nTx ← readVarInt 32
  let hashBlockShared ← readHash
  let hashPOWShared ← readHash
  let nFile ← readIf (statusHas nStatus (BLOCK_HAVE_DATA ||| BLOCK_HAVE_UNDO)) (readVarInt 31)
  let nDataPos ← readIf (statusHas nStatus BLOCK_HAVE_DATA) (readVarInt 64)
  let nUndoPos ← readIf (statusHas nStatus BLOCK_HAVE_UNDO) (readVarInt 64)
  let nVersion ← readLE 4
  let hashPrev ← readHash
  let hashMerkleRoot ← readHash
  let nTime ← readLE 4
  let nBits ← readLE 4
  let nNonce ← readLE 4
  return { nHeight, nStatus, nTx, hashBlockShared, hashPOWShared, nFile, nDataPos, nUndoPos,
           nVersion := ofInt32Bits nVersion, hashPrev, hashMerkleRoot, nTime, nBits, nNonce }

structure InRange (d : CDiskBlockIndex) : Prop where
  nHeight : d.nHeight < 2 ^ 31
  nStatus : d.nStatus < 2 ^ 32
  nTx : d.nTx < 2 ^ 32
  nFile : d.nFile < 2 ^ 31
  nDataPos : d.nDataPos < 2 ^ 64
  nUndoPos : d.nUndoPos < 2 ^ 64
  header : d.getBlockHeader.InRange
  noFile : statusHas d.nStatus (BLOCK_HAVE_DATA ||| BLOCK_HAVE_UNDO) = false → d.nFile = 0
  noData : statusHas d.nStatus BLOCK_HAVE_DATA = false → d.nDataPos = 0
  noUndo : statusHas d.nStatus BLOCK_HAVE_UNDO = false → d.nUndoPos = 0

private theorem reads_hash (hash : uint256) : Reads readHash (writeLE 32 hash.toNat) hash := by
  have hread := Reads.bind_pure (f := BitVec.ofNat 256) (reads_LE 32 (n := hash.toNat) hash.isLt)
  rwa [BitVec.ofNat_toNat, BitVec.setWidth_eq] at hread

private theorem reads_if {condition : Bool} {bits n : Nat} (hbits : 0 < bits) (h : n < 2 ^ bits)
    (hzero : condition = false → n = 0) :
    Reads (readIf condition (readVarInt bits)) (if condition then writeVarInt bits n else [])
      n := by
  cases condition with
  | true => exact reads_varInt hbits h
  | false =>
    rw [hzero rfl]
    exact reads_pure 0

private theorem reads_word {n : Nat} (h : n < 2 ^ 32) : Reads (readLE 4) (writeLE 4 n) n :=
  reads_LE 4 h

theorem reads_write {d : CDiskBlockIndex} (h : d.InRange) :
    Reads read (d.write powHash) (d.prepare powHash) := by
  have hversion : ofInt32Bits (int32Bits (d.prepare powHash).nVersion) =
      (d.prepare powHash).nVersion :=
    ofInt32Bits_int32Bits h.header.nVersion_low h.header.nVersion_high
  unfold read write
  refine Reads.bind (reads_varInt (by decide) (by decide)) ?_
  refine Reads.bind (reads_varInt (by decide) h.nHeight) ?_
  refine Reads.bind (reads_varInt (by decide) h.nStatus) ?_
  refine Reads.bind (reads_varInt (by decide) h.nTx) ?_
  refine Reads.bind (reads_hash _) ?_
  refine Reads.bind (reads_hash _) ?_
  refine Reads.bind (reads_if (by decide) h.nFile h.noFile) ?_
  refine Reads.bind (reads_if (by decide) h.nDataPos h.noData) ?_
  refine Reads.bind (reads_if (by decide) h.nUndoPos h.noUndo) ?_
  refine Reads.bind (reads_word (int32Bits_lt d.nVersion)) ?_
  refine Reads.bind (reads_hash _) ?_
  refine Reads.bind (reads_hash _) ?_
  refine Reads.bind (reads_word h.header.nTime) ?_
  refine Reads.bind (reads_word h.header.nBits) ?_
  refine Reads.bind_nil (reads_word h.header.nNonce) ?_
  rw [hversion]
  exact reads_pure _

end CDiskBlockIndex

end Verge
