import Verge.Pow

/-!
# The networks of `chainparams.cpp`
-/

namespace Verge

inductive Network where
  | main
  | test
  | regtest
  deriving DecidableEq, Repr

namespace Network

def hashGenesisBlock : Network → uint256
  | main => 0x00000fc63692467faeb20cdb3b53200dc601d75bdfa1001463304cc790d77278#256
  | test | regtest => 0x65b4e101cacf3e1e4f3a9237e3a74ffd1186e595d8b78fa8ea22c21ef5bf9347#256

def powLimit : Network → Nat
  | main => 0x00000fffff000000000000000000000000000000000000000000000000000000
  | test => 0x00000fffff000000000000000000000000000000000000000000000000000000
  | regtest => 0x7fffffffffffffffffffffffffffffffffffffffffffffffffffffffffffffff

def MULTI_ALGO_SWITCH_BLOCK : Network → Nat
  | main | test | regtest => 340000

/-- `CheckProofOfWork`.  The genesis block of the test networks has no proof of
work. -/
def checkProofOfWork (network : Network) (hash : uint256) (nBits : Nat) : Bool :=
  let (bnTarget, fNegative, fOverflow) := setCompact nBits
  if fNegative || bnTarget == 0 || fOverflow || decide (network.powLimit < bnTarget) then false
  else if network = test ∨ network = regtest then
    !(decide (hash ≠ network.hashGenesisBlock) && decide (bnTarget < hash.toNat))
  else decide (hash.toNat ≤ bnTarget)

end Network

end Verge
