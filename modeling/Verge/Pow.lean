import Verge.Serialize

/-!
# Proof of work

`SetCompact`, `GetBlockProof` and `CheckProofOfWork` of the main network.  The hash
functions are not computed: a function from an algorithm and the eighty bytes of a
header to a hash stands for them.
-/

namespace Verge

inductive Algo where
  | scrypt
  | x17
  | lyra2re
  | blake
  | groestl
  deriving DecidableEq, Repr

def BLOCK_VERSION_ALGO : Nat := 15 <<< 11

def BLOCK_VERSION_SCRYPT : Nat := 1 <<< 11

def BLOCK_VERSION_GROESTL : Nat := 2 <<< 11

def BLOCK_VERSION_X17 : Nat := 3 <<< 11

def BLOCK_VERSION_BLAKE : Nat := 4 <<< 11

def BLOCK_VERSION_LYRA2RE : Nat := 10 <<< 11

def int32Bits (n : Int) : Nat := (n % 2 ^ 32).toNat

def ofInt32Bits (bits : Nat) : Int := if bits < 2 ^ 31 then bits else bits - 2 ^ 32

theorem int32Bits_lt (n : Int) : int32Bits n < 2 ^ 32 := by
  unfold int32Bits
  omega

theorem ofInt32Bits_int32Bits {n : Int} (hlow : -2 ^ 31 ≤ n) (hhigh : n < 2 ^ 31) :
    ofInt32Bits (int32Bits n) = n := by
  unfold ofInt32Bits int32Bits
  split_ifs <;> omega

def algoOfVersion (nVersion : Int) : Option Algo :=
  let bits := int32Bits nVersion &&& BLOCK_VERSION_ALGO
  if bits = BLOCK_VERSION_SCRYPT then some .scrypt
  else if bits = BLOCK_VERSION_GROESTL then some .groestl
  else if bits = BLOCK_VERSION_LYRA2RE then some .lyra2re
  else if bits = BLOCK_VERSION_X17 then some .x17
  else if bits = BLOCK_VERSION_BLAKE then some .blake
  else none

def getAlgo (nVersion : Int) : Algo := (algoOfVersion nVersion).getD .scrypt

def getAlgoWeight : Algo → Nat
  | .groestl => 500
  | .blake => 14 -- the double `0.00015 * 100000` is just below 15
  | .x17 => 600000
  | .lyra2re => 600000
  | .scrypt => 140000

/-- `SetCompact`: the number, whether it is negative and whether it overflows. -/
def setCompact (nCompact : Nat) : Nat × Bool × Bool :=
  let nSize := nCompact >>> 24
  let nWord :=
    if nSize ≤ 3 then (nCompact &&& 0x007fffff) >>> (8 * (3 - nSize))
    else nCompact &&& 0x007fffff
  let value := if nSize ≤ 3 then nWord else (nWord <<< (8 * (nSize - 3))) % 2 ^ 256
  (value,
    decide (nWord ≠ 0) && decide (nCompact &&& 0x00800000 ≠ 0),
    decide (nWord ≠ 0) && (decide (34 < nSize) ||
      (decide (0xff < nWord) && decide (33 < nSize)) ||
      (decide (0xffff < nWord) && decide (32 < nSize))))

def getBlockProof (nVersion : Int) (nBits : Nat) : Nat :=
  let (bnTarget, fNegative, fOverflow) := setCompact nBits
  if fNegative || fOverflow || bnTarget == 0 then 0
  else
    ((2 ^ 256 - 1 - bnTarget) / ((bnTarget + 1) % 2 ^ 256) * getAlgoWeight (getAlgo nVersion) + 1)
      % 2 ^ 256

def powLimit : Nat := 0x00000fffff000000000000000000000000000000000000000000000000000000

def checkProofOfWork (hash : uint256) (nBits : Nat) : Bool :=
  let (bnTarget, fNegative, fOverflow) := setCompact nBits
  if fNegative || bnTarget == 0 || fOverflow || decide (powLimit < bnTarget) then false
  else decide (hash.toNat ≤ bnTarget)

namespace CBlockHeader

def bytes (header : CBlockHeader) : List UInt8 :=
  writeLE 4 (int32Bits header.nVersion) ++ writeLE 32 header.hashPrevBlock.toNat ++
    writeLE 32 header.hashMerkleRoot.toNat ++ writeLE 4 header.nTime ++
    writeLE 4 header.nBits ++ writeLE 4 header.nNonce

def getPoWHash (powHash : Algo → List UInt8 → uint256) (header : CBlockHeader) (algo : Algo) :
    uint256 :=
  powHash algo header.bytes

def getHash (powHash : Algo → List UInt8 → uint256) (header : CBlockHeader) : uint256 :=
  if header.hash ≠ 0 then header.hash else header.getPoWHash powHash .scrypt

def check (powHash : Algo → List UInt8 → uint256) (header : CBlockHeader) : Bool :=
  if 4 < header.nVersion && (algoOfVersion header.nVersion).isNone then false
  else checkProofOfWork (header.getPoWHash powHash (getAlgo header.nVersion)) header.nBits

structure InRange (header : CBlockHeader) : Prop where
  nVersion_low : -2 ^ 31 ≤ header.nVersion
  nVersion_high : header.nVersion < 2 ^ 31
  nTime : header.nTime < 2 ^ 32
  nBits : header.nBits < 2 ^ 32
  nNonce : header.nNonce < 2 ^ 32

theorem checkProofOfWork_of_check {powHash : Algo → List UInt8 → uint256} {header : CBlockHeader}
    (h : header.check powHash = true) :
    checkProofOfWork (header.getPoWHash powHash (getAlgo header.nVersion)) header.nBits = true := by
  unfold check at h
  split at h
  · cases h
  · exact h

end CBlockHeader

end Verge
