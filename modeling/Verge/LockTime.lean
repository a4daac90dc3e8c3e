import Verge.Primitives

/-!
# Lock times

The lock-time half of `consensus/tx_verify.cpp`.
-/

namespace Verge

def LOCKTIME_THRESHOLD : Nat := 500000000

def SEQUENCE_FINAL : Nat := 0xffffffff

def isFinalTx (tx : CTransaction) (nBlockHeight nBlockTime : Nat) : Bool :=
  tx.nLockTime == 0 ||
    decide (tx.nLockTime < if tx.nLockTime < LOCKTIME_THRESHOLD then nBlockHeight else nBlockTime) ||
    tx.vin.all fun txin => txin.nSequence == SEQUENCE_FINAL

end Verge
