import Verge.Difficulty.Compact
import Verge.Validation.TestBlockValidity

/-!
# The next target

`GetNextTargetRequired` of `pow.cpp` with its three formulas.  A chain is the list of
its headers from the last block on, and the height of a block is the number of its
ancestors: `GetAncestor` goes down the list.  Targets are `arith_uint256`, so products
and sums are taken modulo 2 ^ 256, and a factor becomes a `uint32_t` or a `uint64_t`
(`toUInt64`) first.
-/

namespace Verge

/-- The conversion of a signed factor of `operator*=` and `operator*`. -/
def toUInt32 (n : Int) : Nat := (n % 2 ^ 32).toNat

def mul256 (a b : Nat) : Nat := a * b % 2 ^ 256

def add256 (a b : Nat) : Nat := (a + b) % 2 ^ 256

namespace Network

def chainName : Network → String
  | main => "main"
  | test => "test"
  | regtest => "regtest"

/-- `GetTargetSpacing` of proof of work; no network has the name it asks for. -/
def getTargetSpacing (network : Network) (height : Nat) : Int :=
  if network.chainName = "testnet3" then 150
  else if height < 340000 then 60
  else 150

end Network

namespace CBlockHeader

def algo (header : CBlockHeader) : Algo := getAlgo header.nVersion

def target (header : CBlockHeader) : Nat := targetOf header.nBits

end CBlockHeader

def sameAlgo (algo : Algo) (chain : List CBlockHeader) : List CBlockHeader :=
  chain.filter fun header => header.algo == algo

def actualSpacing (nTargetTimespan : Int) (pindexPrev pindexPrevPrev : CBlockHeader) : Int :=
  let nActualSpacing := (pindexPrev.nTime : Int) - pindexPrevPrev.nTime
  if nActualSpacing < 0 then 1
  else if nTargetTimespan < nActualSpacing then nTargetTimespan
  else nActualSpacing

def emaFactors (pindexPrev pindexPrevPrev : CBlockHeader) : Int × Int :=
  let nTargetTimespan : Int := 60
  let nStakeTargetSpacing : Int := 30
  let nTargetSpacingWorkMax := 2 * nStakeTargetSpacing
  let nActualSpacing := actualSpacing nTargetTimespan pindexPrev pindexPrevPrev
  -- the last block is its own ancestor, so the heights cancel
  let nTargetSpacing := min nTargetSpacingWorkMax (nStakeTargetSpacing * 1)
  let nInterval := nTargetTimespan / nTargetSpacing
  ((nInterval - 1) * nTargetSpacing + nActualSpacing + nActualSpacing,
    (nInterval + 1) * nTargetSpacing)

def nextTargetV1 (network : Network) : List CBlockHeader → Nat
  | pindexPrev :: pindexPrevPrev :: ancestors =>
    if ancestors = [] ∨ ancestors.length + 1 < 450 then network.powLimit
    else
      let (factor, divisor) := emaFactors pindexPrev pindexPrevPrev
      min network.powLimit
        (mul256 pindexPrev.target (toUInt32 factor) / toUInt64 divisor)
  | _ => network.powLimit

def PastBlocksMin : Nat := 12

def PastBlocksMax : Nat := 12

structure GravityState where
  nActualTimespan : Int := 0
  LastBlockTime : Int := 0
  CountBlocks : Nat := 0
  PastDifficultyAverage : Nat := 0
  PastDifficultyAveragePrev : Nat := 0
  deriving DecidableEq, Repr

namespace GravityState

def average (CountBlocks PastDifficultyAveragePrev target : Nat) : Nat :=
  if CountBlocks = 1 then target
  else add256 (mul256 PastDifficultyAveragePrev (toUInt32 CountBlocks)) target / (CountBlocks + 1)

def read (s : GravityState) (block : CBlockHeader) : GravityState :=
  let CountBlocks := s.CountBlocks + 1
  let PastDifficultyAverage :=
    if CountBlocks ≤ PastBlocksMin then
      average CountBlocks s.PastDifficultyAveragePrev block.target
    else s.PastDifficultyAverage
  { nActualTimespan :=
      if 0 < s.LastBlockTime then s.nActualTimespan + (s.LastBlockTime - block.nTime)
      else s.nActualTimespan
    LastBlockTime := block.nTime
    CountBlocks
    PastDifficultyAverage
    PastDifficultyAveragePrev :=
      if CountBlocks ≤ PastBlocksMin then PastDifficultyAverage else s.PastDifficultyAveragePrev }

def readChain (algo : Algo) : List CBlockHeader → GravityState → GravityState
  | block :: pprev :: ancestors, s =>
    if PastBlocksMax ≤ s.CountBlocks then s
    else if block.algo ≠ algo then readChain algo (pprev :: ancestors) s
    else readChain algo (pprev :: ancestors) (s.read block)
  | _, s => s

/-- The time that the blocks took, not less than a third and not more than three
times what it should have been. -/
def clampedTimespan (s : GravityState) (nTargetTimespan : Int) : Int :=
  let nActualTimespan :=
    if s.nActualTimespan < nTargetTimespan / 3 then nTargetTimespan / 3 else s.nActualTimespan
  if nTargetTimespan * 3 < nActualTimespan then nTargetTimespan * 3 else nActualTimespan

end GravityState

def darkGravityWave3Target (network : Network) (pindexLast : List CBlockHeader) (algo : Algo) :
    Nat :=
  if pindexLast.length - 1 < PastBlocksMin then network.powLimit
  else
    let s := GravityState.readChain algo pindexLast {}
    if s.CountBlocks = 0 then network.powLimit
    else
      let nTargetTimespan := s.CountBlocks * network.getTargetSpacing (pindexLast.length - 1)
      min network.powLimit
        (mul256 s.PastDifficultyAverage (toUInt32 (s.clampedTimespan nTargetTimespan)) /
          toUInt64 nTargetTimespan)

def darkGravityWave3 (network : Network) (pindexLast : List CBlockHeader) (algo : Algo) : Nat :=
  getCompact (darkGravityWave3Target network pindexLast algo)

namespace Lwma

def N : Nat := 60

/-- The loop that collects the last `N + 1` blocks of the algorithm, latest first; it
gives up below height 100. -/
def sameAlgoBlocks (algo : Algo) :
    List CBlockHeader → List CBlockHeader → Option (List CBlockHeader)
  | [], _ => none
  | block :: ancestors, found =>
    let found := if block.algo = algo then found ++ [block] else found
    if ancestors.length < 100 then none
    else if found.length < N + 1 then sameAlgoBlocks algo ancestors found
    else some found

structure Sums where
  t : Int := 0
  j : Int := 0
  sum_target : Nat := 0
  deriving DecidableEq, Repr

def solvetime (FTL T : Int) (block_Prev block : CBlockHeader) : Int :=
  max (-FTL) (min ((block.nTime : Int) - block_Prev.nTime) (6 * T))

def sumUp (FTL T k : Int) : CBlockHeader → List CBlockHeader → Sums → Sums
  | _, [], s => s
  | block_Prev, block :: later, s =>
    sumUp FTL T k block later
      { t := s.t + solvetime FTL T block_Prev block * (s.j + 1)
        j := s.j + 1
        sum_target := add256 s.sum_target (block.target / toUInt64 (k * N)) }

end Lwma

def lwmaNextTarget (network : Network) (pindexLast : List CBlockHeader) (algo : Algo) : Nat :=
  let FTL : Int := getMaxClockDrift (pindexLast.length - 1)
  let T := network.getTargetSpacing (pindexLast.length - 1)
  let k := Lwma.N * (Lwma.N + 1) * T / 2
  match (Lwma.sameAlgoBlocks algo pindexLast []).map List.reverse with
  | some (earliest :: later) =>
    let s := Lwma.sumUp FTL T k earliest later {}
    let t := if s.t < k / 10 then k / 10 else s.t
    min network.powLimit (mul256 (toUInt64 t) s.sum_target)
  | _ => nextTargetV1 network pindexLast

/-- The target before `GetCompact`; `pindexLast` is not empty. -/
def nextTarget (network : Network) (pindexLast : List CBlockHeader) (algo : Algo) : Nat :=
  if network.chainName = "main" ∨ network.chainName = "regtest" then
    if pindexLast.length - 1 < network.MULTI_ALGO_SWITCH_BLOCK then nextTargetV1 network pindexLast
    else darkGravityWave3Target network pindexLast algo
  else if pindexLast.length - 1 < 340000 then nextTargetV1 network pindexLast
  else lwmaNextTarget network pindexLast algo

def getNextTargetRequired (network : Network) (pindexLast : List CBlockHeader) (algo : Algo) :
    Nat :=
  getCompact (nextTarget network pindexLast algo)

end Verge
