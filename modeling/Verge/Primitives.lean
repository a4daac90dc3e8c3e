import Mathlib.Algebra.Ring.Int.Defs
import Mathlib.Algebra.Ring.Nat
import Mathlib.Data.List.Basic

/-!
# Transactions, outputs and blocks

The data of `primitives/transaction.h`, `primitives/block.h`, `amount.h` and
`consensus/consensus.h` that the validation code reads.  A transaction carries
its `hash` as the source does: `CTransaction` computes it once and keeps it as
a memory-only member, and every lookup goes through that member.
-/

namespace Verge

abbrev uint256 := BitVec 256

abbrev CScript := List UInt8

/-! ## Amounts

`CAmount` is an `int64_t`; sums that could leave that range are formed by
`addInt64`. -/

def COIN : Int := 1000000

def MAX_MONEY : Int := 16555000000 * COIN

def moneyRange (nValue : Int) : Bool :=
  decide (0 ≤ nValue) && decide (nValue ≤ MAX_MONEY)

@[simp] theorem moneyRange_iff (nValue : Int) :
    moneyRange nValue = true ↔ 0 ≤ nValue ∧ nValue ≤ MAX_MONEY := by
  simp [moneyRange]

theorem MAX_MONEY_eq : MAX_MONEY = (16555000000000000 : Int) := rfl

def inInt64 (n : Int) : Prop := -(2 ^ 63) ≤ n ∧ n < 2 ^ 63

instance (n : Int) : Decidable (inInt64 n) :=
  inferInstanceAs (Decidable (_ ∧ _))

/-- The index `n` is a `uint32_t`; no transaction within the size limit has
`2 ^ 32` outputs, so an unbounded index names the same outputs. -/
structure COutPoint where
  hash : uint256
  n : Nat
  deriving DecidableEq, Repr

namespace COutPoint

def isNull (outpoint : COutPoint) : Bool :=
  outpoint.hash == 0 && outpoint.n == 4294967295

end COutPoint

structure CTxIn where
  prevout : COutPoint
  scriptSig : CScript
  nSequence : Nat
  scriptWitness : List (List UInt8)
  deriving DecidableEq, Repr

structure CTxOut where
  nValue : Int
  scriptPubKey : CScript
  deriving DecidableEq, Repr

namespace CTxOut

/-- `CTxOut::SetNull`, also what the default constructor leaves. -/
def null : CTxOut := ⟨-1, []⟩

def isNull (out : CTxOut) : Bool := out.nValue == -1

end CTxOut

def MAX_SCRIPT_SIZE : Nat := 10000

def OP_RETURN : UInt8 := 0x6a

def isUnspendable (script : CScript) : Bool :=
  (script.head? == some OP_RETURN) || decide (MAX_SCRIPT_SIZE < script.length)

theorem length_le_of_not_unspendable {script : CScript}
    (h : isUnspendable script = false) : script.length ≤ MAX_SCRIPT_SIZE := by
  simp only [isUnspendable, Bool.or_eq_false_iff, decide_eq_false_iff_not] at h
  omega

structure CTransaction where
  vin : List CTxIn
  vout : List CTxOut
  nVersion : Int
  nTime : Nat
  nLockTime : Nat
  hash : uint256
  deriving DecidableEq, Repr

namespace CTransaction

def isCoinBase (tx : CTransaction) : Bool :=
  match tx.vin with
  | [txin] => txin.prevout.isNull
  | _ => false

def isNull (tx : CTransaction) : Bool := tx.vin.isEmpty && tx.vout.isEmpty

def hasWitness (tx : CTransaction) : Bool :=
  tx.vin.any fun txin => !txin.scriptWitness.isEmpty

def outpoint (tx : CTransaction) (i : Nat) : COutPoint := ⟨tx.hash, i⟩

end CTransaction

structure CBlockHeader where
  nVersion : Int
  hashPrevBlock : uint256
  hashMerkleRoot : uint256
  nTime : Nat
  nBits : Nat
  nNonce : Nat
  hash : uint256
  deriving DecidableEq, Repr

namespace CBlockHeader

def isNull (header : CBlockHeader) : Bool := header.nBits == 0

def null : CBlockHeader := ⟨0, 0, 0, 0, 0, 0, 0⟩

end CBlockHeader

structure CBlock extends CBlockHeader where
  vtx : List CTransaction
  vchBlockSig : List UInt8
  fChecked : Bool
  deriving DecidableEq, Repr

def MAX_BLOCK_WEIGHT : Nat := 4000000

def WITNESS_SCALE_FACTOR : Nat := 4

def MAX_BLOCK_SIGOPS_COST : Nat := 80000

def COINBASE_MATURITY : Int := 120

end Verge
