import Verge.Compressor

/-!
# Undo records

`undo.h`: what `DisconnectBlock` reads back for each spent output.  A record
keeps the output, its height and whether it was a coinbase; the reader starts
from a default `Coin`, so the time of the creating transaction comes back as 0.
-/

namespace Verge

open Foundation Reader

structure CTxUndo where
  vprevout : List Coin
  deriving DecidableEq, Repr

structure CBlockUndo where
  vtxundo : List CTxUndo
  deriving DecidableEq, Repr

/-- `MAX_BLOCK_WEIGHT / MIN_TRANSACTION_INPUT_WEIGHT`: an input with an empty
script takes 41 bytes. -/
def MAX_INPUTS_PER_BLOCK : Nat := MAX_BLOCK_WEIGHT / (WITNESS_SCALE_FACTOR * 41)

/-- The first field of a record, a 32-bit `nHeight * 2 + fCoinBase`. -/
def Coin.code (coin : Coin) : Nat := (coin.nHeight * 2 + coin.fCoinBase.toNat) % 2 ^ 32

def writeTxInUndo (secp : Secp256k1) (txout : Coin) : List UInt8 :=
  writeVarInt 32 txout.code ++
    ((if 0 < txout.nHeight then [0] else []) ++ writeTxOut secp txout.out)

def readTxInUndo (secp : Secp256k1) : ByteReader Coin := do
  let nCode ← readVarInt 32
  if 0 < nCode / 2 then do
    let _nVersionDummy ← readVarInt 32
    let out ← readTxOut secp
    return { Coin.empty with out := out, nHeight := nCode / 2, fCoinBase := nCode % 2 == 1 }
  else do
    let out ← readTxOut secp
    return { Coin.empty with out := out, nHeight := nCode / 2, fCoinBase := nCode % 2 == 1 }

def writeTxUndo (secp : Secp256k1) (txundo : CTxUndo) : List UInt8 :=
  writeCompactSize txundo.vprevout.length ++ txundo.vprevout.flatMap (writeTxInUndo secp)

def readTxUndo (secp : Secp256k1) : ByteReader CTxUndo := do
  let count ← readCompactSize
  if MAX_INPUTS_PER_BLOCK < count then throwRead "Too many input undo records"
  else do
    let vprevout ← many (readTxInUndo secp) count
    return ⟨vprevout⟩

def writeBlockUndo (secp : Secp256k1) (blockUndo : CBlockUndo) : List UInt8 :=
  writeCompactSize blockUndo.vtxundo.length ++ blockUndo.vtxundo.flatMap (writeTxUndo secp)

def readBlockUndo (secp : Secp256k1) : ByteReader CBlockUndo := do
  let size ← readCompactSize
  let vtxundo ← many (readTxUndo secp) size
  return ⟨vtxundo⟩

def undoReadFromDisk (secp : Secp256k1) (bytes : List UInt8) : Option CBlockUndo :=
  match (readBlockUndo secp).run bytes with
  | .ok (blockUndo, _) => some blockUndo
  | .error _ => none

def Coin.dropTime (coin : Coin) : Coin := { coin with nOriginTransactionTime := 0 }

def CTxUndo.dropTime (txundo : CTxUndo) : CTxUndo := ⟨txundo.vprevout.map Coin.dropTime⟩

def CBlockUndo.dropTime (blockUndo : CBlockUndo) : CBlockUndo :=
  ⟨blockUndo.vtxundo.map CTxUndo.dropTime⟩

@[simp] theorem Coin.isSpent_dropTime (coin : Coin) :
    coin.dropTime.isSpent = coin.isSpent := rfl

theorem Coin.dropTime_eq_self {coin : Coin} :
    coin.dropTime = coin ↔ coin.nOriginTransactionTime = 0 := by
  obtain ⟨out, fCoinBase, nHeight, time⟩ := coin
  simp only [Coin.dropTime, Coin.mk.injEq, true_and]
  exact eq_comm

structure Coin.Storable (coin : Coin) : Prop where
  value : moneyRange coin.out.nValue = true
  script : coin.out.scriptPubKey.length ≤ MAX_SCRIPT_SIZE
  height : coin.nHeight < 2 ^ 31

theorem Coin.code_fields {coin : Coin} (h : coin.nHeight < 2 ^ 31) :
    coin.code < 2 ^ 32 ∧ coin.code / 2 = coin.nHeight ∧
      (coin.code % 2 == 1) = coin.fCoinBase := by
  unfold Coin.code
  cases coin.fCoinBase with
  | false =>
    simp only [Bool.toNat_false, Nat.add_zero, beq_eq_false_iff_ne]
    omega
  | true =>
    simp only [Bool.toNat_true, beq_iff_eq]
    omega

theorem reads_txInUndo (secp : Secp256k1) {coin : Coin} (h : coin.Storable) :
    Reads (readTxInUndo secp) (writeTxInUndo secp coin) coin.dropTime := by
  obtain ⟨hcode, hheight, hbase⟩ := Coin.code_fields h.height
  have hout := Reads.bind_pure
    (f := fun out => ({ Coin.empty with
      out := out, nHeight := coin.code / 2, fCoinBase := coin.code % 2 == 1 } : Coin))
    (reads_txOut secp h.value h.script)
  have hcoin : ({ Coin.empty with
      out := coin.out, nHeight := coin.code / 2, fCoinBase := coin.code % 2 == 1 } : Coin) =
      coin.dropTime := by
    rw [hheight, hbase]
    rfl
  rw [hcoin] at hout
  refine Reads.bind (reads_varInt (by decide) hcode) ?_
  by_cases hpos : 0 < coin.nHeight
  · rw [if_pos (by omega), if_pos hpos]
    have hdummy : Reads (readVarInt 32) [0] 0 :=
      @reads_varInt 32 0 (by decide) (by decide)
    exact Reads.bind hdummy hout
  · rw [if_neg (by omega), if_neg hpos]
    exact hout

theorem reads_txUndo (secp : Secp256k1) {txundo : CTxUndo}
    (hcount : txundo.vprevout.length ≤ MAX_INPUTS_PER_BLOCK)
    (h : ∀ coin ∈ txundo.vprevout, coin.Storable) :
    Reads (readTxUndo secp) (writeTxUndo secp txundo) txundo.dropTime := by
  have hmax : MAX_INPUTS_PER_BLOCK ≤ MAX_SIZE := by decide
  refine Reads.bind (reads_compactSize (hcount.trans hmax)) ?_
  rw [if_neg (by omega)]
  exact (reads_many txundo.vprevout fun coin hcoin => reads_txInUndo secp (h coin hcoin)).bind_pure

theorem undoReadFromDisk_writeBlockUndo (secp : Secp256k1) {blockUndo : CBlockUndo}
    (hsize : blockUndo.vtxundo.length ≤ MAX_SIZE)
    (h : ∀ txundo ∈ blockUndo.vtxundo, txundo.vprevout.length ≤ MAX_INPUTS_PER_BLOCK ∧
      ∀ coin ∈ txundo.vprevout, coin.Storable) :
    undoReadFromDisk secp (writeBlockUndo secp blockUndo) = some blockUndo.dropTime := by
  have hread : Reads (readBlockUndo secp) (writeBlockUndo secp blockUndo)
      blockUndo.dropTime := by
    refine Reads.bind (reads_compactSize hsize) ?_
    exact (reads_many blockUndo.vtxundo fun txundo htx =>
      reads_txUndo secp (h txundo htx).1 (h txundo htx).2).bind_pure
  have hrun := hread []
  rw [List.append_nil] at hrun
  simp only [undoReadFromDisk, hrun]

end Verge
