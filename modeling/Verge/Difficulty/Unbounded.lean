import Mathlib.Tactic.Linarith
import Verge.Difficulty.Gravity
import Verge.Foundation.UnsignedFormula

/-!
# The retargeting formulas over the integers

Each formula of `GetNextTargetRequired` is written once as a `Formula`: what the code
computes with `arith_uint256` is its value at width 256, and what it is meant to compute
is its value over the integers.  On the main and the test network every product and
sum fits.  The limit of the regression test network is so large that they need not.
-/

namespace Verge

open Foundation List GravityState

/-! ## The formulas -/

def v1Formula (network : Network) : List CBlockHeader → Formula
  | pindexPrev :: pindexPrevPrev :: ancestors =>
    if ancestors = [] ∨ ancestors.length + 1 < 450 then .value network.powLimit
    else
      let (factor, divisor) := emaFactors pindexPrev pindexPrevPrev
      .div (.mul (.value pindexPrev.target) (.cast 32 factor)) (.cast 64 divisor)
  | _ => .value network.powLimit

def averageFormula : Nat → Formula → List CBlockHeader → Formula
  | _, PastDifficultyAverage, [] => PastDifficultyAverage
  | CountBlocks, PastDifficultyAverage, block :: blocks =>
    averageFormula (CountBlocks + 1)
      (if CountBlocks = 0 then .value block.target
      else .div (.add (.mul PastDifficultyAverage (.cast 32 (CountBlocks + 1 : Nat)))
        (.value block.target)) (.cast 64 (CountBlocks + 2 : Nat)))
      blocks

def gravityFormula (network : Network) (pindexLast : List CBlockHeader) (algo : Algo) : Formula :=
  if pindexLast.length - 1 < PastBlocksMin then .value network.powLimit
  else
    let s := GravityState.readChain algo pindexLast {}
    if s.CountBlocks = 0 then .value network.powLimit
    else
      let nTargetTimespan := s.CountBlocks * network.getTargetSpacing (pindexLast.length - 1)
      .div (.mul (averageFormula 0 (.value 0) (gravityBlocks algo pindexLast))
        (.cast 32 (s.clampedTimespan nTargetTimespan))) (.cast 64 nTargetTimespan)

def sumFormula (k : Int) : Formula → List CBlockHeader → Formula
  | sum_target, [] => sum_target
  | sum_target, block :: later =>
    sumFormula k (.add sum_target (.div (.value block.target) (.cast 64 (k * Lwma.N)))) later

def lwmaFormula (network : Network) (pindexLast : List CBlockHeader) (algo : Algo) : Formula :=
  let FTL : Int := getMaxClockDrift (pindexLast.length - 1)
  let T := network.getTargetSpacing (pindexLast.length - 1)
  let k := Lwma.N * (Lwma.N + 1) * T / 2
  match (Lwma.sameAlgoBlocks algo pindexLast []).map List.reverse with
  | some (earliest :: later) =>
    let s := Lwma.sumUp FTL T k earliest later {}
    let t := if s.t < k / 10 then k / 10 else s.t
    .mul (.cast 64 t) (sumFormula k (.value 0) later)
  | _ => v1Formula network pindexLast

def nextFormula (network : Network) (pindexLast : List CBlockHeader) (algo : Algo) : Formula :=
  if network.chainName = "main" ∨ network.chainName = "regtest" then
    if pindexLast.length - 1 < network.MULTI_ALGO_SWITCH_BLOCK then v1Formula network pindexLast
    else gravityFormula network pindexLast algo
  else if pindexLast.length - 1 < 340000 then v1Formula network pindexLast
  else lwmaFormula network pindexLast algo

/-! ## When they fit

The conditions are on the targets and the times of the chain. -/

/-- `GetNextTargetRequired_V1` from height 450 on: the last target times the factor that
the last spacing gives. -/
def FitsV1 : List CBlockHeader → Prop
  | pindexPrev :: pindexPrevPrev :: ancestors => 450 ≤ ancestors.length + 1 →
    (pindexPrev.target : Int) * (30 + 2 * actualSpacing 60 pindexPrev pindexPrevPrev) < 2 ^ 256
  | _ => True

/-- The average after one more block, over the integers. -/
def nextAverage (CountBlocks average target : Nat) : Nat :=
  if CountBlocks = 0 then target
  else (average * (CountBlocks + 1) + target) / (CountBlocks + 2)

def runningAverage : Nat → Nat → List CBlockHeader → Nat
  | _, average, [] => average
  | CountBlocks, average, block :: blocks =>
    runningAverage (CountBlocks + 1) (nextAverage CountBlocks average block.target) blocks

def SumsFit : Nat → Nat → List CBlockHeader → Prop
  | _, _, [] => True
  | CountBlocks, average, block :: blocks =>
    (CountBlocks ≠ 0 → average * (CountBlocks + 1) + block.target < 2 ^ 256) ∧
      SumsFit (CountBlocks + 1) (nextAverage CountBlocks average block.target) blocks

/-- `DarkGravityWave3`: the sums of the running average, and the last average times the
time that the blocks took. -/
def FitsGravity (network : Network) (chain : List CBlockHeader) (algo : Algo) : Prop :=
  let s := GravityState.readChain algo chain {}
  SumsFit 0 0 (gravityBlocks algo chain) ∧
    (runningAverage 0 0 (gravityBlocks algo chain) : Int) *
      s.clampedTimespan (s.CountBlocks * network.getTargetSpacing (chain.length - 1)) < 2 ^ 256

/-! ## The code computes the formulas -/

section Targets

variable (network : Network) (chain : List CBlockHeader) (algo : Algo)
  {blocks later : List CBlockHeader} {average sum : Formula}

theorem nextTargetV1_eq :
    nextTargetV1 network chain = min network.powLimit ((v1Formula network chain).eval 256) := by
  unfold nextTargetV1 v1Formula
  rcases chain with _ | ⟨pindexPrev, _ | ⟨pindexPrevPrev, ancestors⟩⟩
  · exact (min_self _).symm
  · exact (min_self _).symm
  · dsimp only
    by_cases hfirst : ancestors = [] ∨ ancestors.length + 1 < 450
    · rw [if_pos hfirst, if_pos hfirst]
      exact (min_self _).symm
    · rw [if_neg hfirst, if_neg hfirst]
      rfl

theorem eval_averageFormula {s : GravityState}
    (hcount : s.CountBlocks + blocks.length ≤ PastBlocksMin)
    (haverage : average.eval 256 = s.PastDifficultyAverage)
    (hprev : s.PastDifficultyAveragePrev = s.PastDifficultyAverage) :
    (averageFormula s.CountBlocks average blocks).eval 256 =
      (blocks.foldl read s).PastDifficultyAverage := by
  induction blocks generalizing s average with
  | nil => exact haverage
  | cons block blocks ih =>
    rw [length_cons] at hcount
    obtain ⟨hread, hreadPrev⟩ := average_read (s := s) (by omega) block
    refine ih (s := s.read block) ?_ ?_ hreadPrev
    · rw [countBlocks_read]
      omega
    · rw [hread, GravityState.average, hprev, ← haverage]
      by_cases hzero : s.CountBlocks = 0
      · rw [if_pos hzero, if_pos (by omega)]
        rfl
      · have hdivisor : toUInt64 (s.CountBlocks + 2 : Nat) = s.CountBlocks + 1 + 1 := by
          rw [PastBlocksMin] at hcount
          rw [toUInt64_of_lt (by omega) (by omega), Int.toNat_natCast]
        rw [if_neg hzero, if_neg (by omega)]
        exact congrArg (_ / ·) hdivisor

theorem darkGravityWave3Target_eq_formula :
    darkGravityWave3Target network chain algo =
      min network.powLimit ((gravityFormula network chain algo).eval 256) := by
  unfold darkGravityWave3Target gravityFormula
  dsimp only
  by_cases hlow : chain.length - 1 < PastBlocksMin
  · rw [if_pos hlow, if_pos hlow]
    exact (min_self _).symm
  · rw [if_neg hlow, if_neg hlow]
    by_cases hcount : (readChain algo chain {}).CountBlocks = 0
    · rw [if_pos hcount, if_pos hcount]
      exact (min_self _).symm
    · rw [if_neg hcount, if_neg hcount]
      have haverage := @eval_averageFormula (gravityBlocks algo chain) (.value 0) {}
        ((Nat.zero_add _).trans_le (length_gravityBlocks_le algo chain)) rfl rfl
      rw [← readChain_init] at haverage
      rw [← haverage]
      rfl

theorem eval_sumFormula (FTL T k : Int) {block_Prev : CBlockHeader} {s : Lwma.Sums}
    (hsum : sum.eval 256 = s.sum_target) :
    (sumFormula k sum later).eval 256 = (Lwma.sumUp FTL T k block_Prev later s).sum_target := by
  induction later generalizing block_Prev s sum with
  | nil => exact hsum
  | cons block later ih =>
    rw [sumFormula, Lwma.sumUp]
    apply ih
    rw [← hsum]
    rfl

theorem lwmaNextTarget_eq_formula :
    lwmaNextTarget network chain algo =
      min network.powLimit ((lwmaFormula network chain algo).eval 256) := by
  unfold lwmaNextTarget lwmaFormula
  dsimp only
  rcases (Lwma.sameAlgoBlocks algo chain []).map List.reverse with _ | ⟨_ | ⟨earliest, later⟩⟩
  · exact nextTargetV1_eq network chain
  · exact nextTargetV1_eq network chain
  · dsimp only
    rw [← @eval_sumFormula later (.value 0) _ _ _ earliest {} rfl]
    rfl

theorem nextTarget_eq_formula :
    nextTarget network chain algo =
      min network.powLimit ((nextFormula network chain algo).eval 256) := by
  unfold nextTarget nextFormula
  split_ifs
  · exact nextTargetV1_eq network chain
  · exact darkGravityWave3Target_eq_formula network chain algo
  · exact nextTargetV1_eq network chain
  · exact lwmaNextTarget_eq_formula network chain algo

/-! ## Conversions and divisors -/

theorem Network.getTargetSpacing_cases (height : Nat) :
    network.getTargetSpacing height = 60 ∨ network.getTargetSpacing height = 150 := by
  unfold Network.getTargetSpacing
  split_ifs
  · exact .inr rfl
  · exact .inl rfl
  · exact .inr rfl

theorem converts_v1Formula :
    (v1Formula network chain).Converts := by
  unfold v1Formula
  rcases chain with _ | ⟨pindexPrev, _ | ⟨pindexPrevPrev, ancestors⟩⟩
  · trivial
  · trivial
  · obtain ⟨hlow, hhigh⟩ := actualSpacing_bounds pindexPrev pindexPrevPrev
    dsimp only
    split
    · trivial
    · rw [emaFactors_eq]
      exact .div_cast (.mul_cast trivial (by omega) (by omega)) (by omega) (by omega)

theorem converts_averageFormula {count : Nat} (hcount : count + blocks.length ≤ PastBlocksMin)
    (haverage : average.Converts) : (averageFormula count average blocks).Converts := by
  induction blocks generalizing count average with
  | nil => exact haverage
  | cons block blocks ih =>
    rw [length_cons] at hcount
    refine ih (by omega) ?_
    split
    · trivial
    · rw [PastBlocksMin] at hcount
      refine .div_cast ⟨haverage.mul_cast ?_ ?_, trivial⟩ ?_ ?_ <;> omega

theorem gravityTimes :
    ∃ nTargetTimespan clamped : Int,
      ((readChain algo chain {}).CountBlocks : Int) *
        network.getTargetSpacing (chain.length - 1) = nTargetTimespan ∧
      (readChain algo chain {}).clampedTimespan nTargetTimespan = clamped ∧
      ((readChain algo chain {}).CountBlocks ≠ 0 → 0 < nTargetTimespan) ∧
      nTargetTimespan ≤ 1800 ∧ 0 ≤ clamped ∧ clamped ≤ 5400 := by
  have hcount : (readChain algo chain {}).CountBlocks ≤ 12 := by
    rw [readChain_init, countBlocks_foldl]
    exact (Nat.zero_add _).trans_le (length_gravityBlocks_le algo chain)
  have hspan : ((readChain algo chain {}).CountBlocks : Int) *
      network.getTargetSpacing (chain.length - 1) ≤ 1800 ∧
      0 ≤ ((readChain algo chain {}).CountBlocks : Int) *
        network.getTargetSpacing (chain.length - 1) ∧
      ((readChain algo chain {}).CountBlocks ≠ 0 →
        0 < ((readChain algo chain {}).CountBlocks : Int) *
          network.getTargetSpacing (chain.length - 1)) := by
    rcases network.getTargetSpacing_cases (chain.length - 1) with h | h <;> rw [h] <;> omega
  obtain ⟨hle, hnonneg, hpos⟩ := hspan
  refine ⟨_, _, rfl, rfl, hpos, hle, ?_, ?_⟩
  · rw [clampedTimespan_eq hnonneg]
    omega
  · rw [clampedTimespan_eq hnonneg]
    omega

theorem converts_gravityFormula :
    (gravityFormula network chain algo).Converts := by
  obtain ⟨span, clamped, hspan, hclamped, hpos, hle, hlow, hhigh⟩ :=
    gravityTimes network chain algo
  unfold gravityFormula
  dsimp only
  rw [hspan, hclamped]
  split
  · trivial
  · split
    next => trivial
    next hcount =>
      have hpos := hpos hcount
      have haverage : (averageFormula 0 (.value 0) (gravityBlocks algo chain)).Converts :=
        converts_averageFormula ((Nat.zero_add _).trans_le (length_gravityBlocks_le algo chain))
          trivial
      exact .div_cast (haverage.mul_cast hlow (by omega)) hpos (by omega)

namespace Lwma

theorem sameAlgoBlocks_spec {algo : Algo} {chain found blocks : List CBlockHeader}
    (h : sameAlgoBlocks algo chain found = some blocks) (hfound : found.length ≤ N) :
    blocks.length = N + 1 ∧ ∀ block ∈ blocks, block ∈ found ∨ block ∈ chain := by
  induction chain generalizing found with
  | nil => cases h
  | cons block ancestors ih =>
    have hnext : ∀ b ∈ (if block.algo = algo then found ++ [block] else found),
        b ∈ found ∨ b = block := by
      intro b hb
      split at hb
      · rcases mem_append.mp hb with hb | hb
        · exact .inl hb
        · exact .inr (mem_singleton.mp hb)
      · exact .inl hb
    have hlength : (if block.algo = algo then found ++ [block] else found).length ≤ N + 1 := by
      split
      · rw [length_append, length_singleton]
        omega
      · omega
    rw [sameAlgoBlocks] at h
    generalize (if block.algo = algo then found ++ [block] else found) = found' at *
    by_cases hlow : ancestors.length < 100
    · rw [if_pos hlow] at h
      cases h
    · rw [if_neg hlow] at h
      by_cases hshort : found'.length < N + 1
      · rw [if_pos hshort] at h
        obtain ⟨hcount, hmem⟩ := ih h (by omega)
        refine ⟨hcount, fun b hb => ?_⟩
        rcases hmem b hb with hb | hb
        · rcases hnext b hb with hb | rfl
          · exact .inl hb
          · exact .inr mem_cons_self
        · exact .inr (mem_cons_of_mem _ hb)
      · rw [if_neg hshort] at h
        cases h
        refine ⟨by omega, fun b hb => ?_⟩
        rcases hnext b hb with hb | rfl
        · exact .inl hb
        · exact .inr mem_cons_self

theorem sumUp_t_le (FTL T k : Int) {block_Prev : CBlockHeader} {s : Sums} (hFTL : 0 ≤ FTL)
    (hT : 0 ≤ T) (hj : 0 ≤ s.j) :
    2 * (sumUp FTL T k block_Prev later s).t ≤
      2 * s.t + 6 * T * (later.length * (2 * s.j + later.length + 1)) := by
  induction later generalizing block_Prev s with
  | nil => simp [sumUp]
  | cons block later ih =>
    have hsolve : solvetime FTL T block_Prev block ≤ 6 * T := by
      unfold solvetime
      omega
    have hterm := mul_le_mul_of_nonneg_right hsolve (show 0 ≤ s.j + 1 by omega)
    rw [sumUp]
    refine (@ih block _ (show 0 ≤ s.j + 1 by omega)).trans ?_
    push_cast [length_cons]
    linarith

end Lwma

theorem converts_sumFormula {k : Int} (hpos : 0 < k * Lwma.N) (hlt : k * Lwma.N < 2 ^ 64)
    (hsum : sum.Converts) : (sumFormula k sum later).Converts := by
  induction later generalizing sum with
  | nil => exact hsum
  | cons block later ih => exact ih ⟨hsum, .div_cast trivial hpos hlt⟩

theorem weightedTime_bounds (FTL T k : Int) {earliest : CBlockHeader}
    (hlater : later.length = Lwma.N) (hFTL : 0 ≤ FTL) (hT : 0 ≤ T) (hk : 2 * k = 3660 * T) :
    k / 10 ≤ (if (Lwma.sumUp FTL T k earliest later {}).t < k / 10 then k / 10
      else (Lwma.sumUp FTL T k earliest later {}).t) ∧
    (if (Lwma.sumUp FTL T k earliest later {}).t < k / 10 then k / 10
      else (Lwma.sumUp FTL T k earliest later {}).t) ≤ 6 * k := by
  have hle := @Lwma.sumUp_t_le later FTL T k earliest {} hFTL hT (le_refl _)
  rw [hlater] at hle
  dsimp only [Lwma.N] at hle
  split_ifs <;> omega

theorem lwmaConstants (height : Nat) :
    ∃ T k : Int, network.getTargetSpacing height = T ∧ Lwma.N * (Lwma.N + 1) * T / 2 = k ∧
      0 ≤ T ∧ 2 * k = 3660 * T ∧ 0 < k * Lwma.N ∧ k * Lwma.N < 2 ^ 32 := by
  rcases network.getTargetSpacing_cases height with h | h
  · exact ⟨60, 109800, h, by decide, by decide, by decide, by decide, by decide⟩
  · exact ⟨150, 274500, h, by decide, by decide, by decide, by decide, by decide⟩

theorem lwmaFormula_cases :
    lwmaFormula network chain algo = v1Formula network chain ∨
    ∃ (t k : Int) (later : List CBlockHeader), later.length = Lwma.N ∧
      (∀ block ∈ later, block ∈ chain) ∧ 0 ≤ t ∧ t ≤ 6 * k ∧ 0 < k * Lwma.N ∧
      k * Lwma.N < 2 ^ 32 ∧
      lwmaFormula network chain algo = .mul (.cast 64 t) (sumFormula k (.value 0) later) := by
  obtain ⟨T, k, hT, hk, hTnonneg, hkT, hpos, hlt⟩ := lwmaConstants network (chain.length - 1)
  unfold lwmaFormula
  dsimp only
  rw [hT, hk]
  cases hwindow : Lwma.sameAlgoBlocks algo chain [] with
  | none => exact .inl rfl
  | some blocks =>
    obtain ⟨hlength, hmem⟩ := Lwma.sameAlgoBlocks_spec hwindow (Nat.zero_le _)
    rw [Option.map_some]
    cases hreverse : blocks.reverse with
    | nil => exact .inl rfl
    | cons earliest later =>
      have hcount := congrArg List.length hreverse
      rw [length_reverse, hlength, length_cons] at hcount
      have hbounds := @weightedTime_bounds later (getMaxClockDrift (chain.length - 1)) T k
        earliest (by omega) (by omega) hTnonneg hkT
      refine .inr ⟨_, k, later, by omega, fun block hblock => ?_, ?_, hbounds.2, hpos, hlt, rfl⟩
      · refine (hmem block ?_).resolve_left not_mem_nil
        rw [← mem_reverse, hreverse]
        exact mem_cons_of_mem _ hblock
      · exact le_trans (by omega) hbounds.1

theorem converts_nextFormula : (nextFormula network chain algo).Converts := by
  unfold nextFormula
  split_ifs
  · exact converts_v1Formula network chain
  · exact converts_gravityFormula network chain algo
  · exact converts_v1Formula network chain
  · rcases lwmaFormula_cases network chain algo with
      heq | ⟨t, k, later, -, -, ht, htk, hk, hkN, heq⟩
    · rw [heq]
      exact converts_v1Formula network chain
    · rw [heq]
      refine ⟨⟨ht, ?_⟩, converts_sumFormula hk (hkN.trans (by decide)) trivial⟩
      rw [Lwma.N] at hkN
      omega

/-! ## Products and sums -/

section InRange

variable {chain : List CBlockHeader} {hi : Nat}

variable (network : Network) (algo : Algo)

theorem inRange_v1Formula_iff : (v1Formula network chain).InRange 256 ↔ FitsV1 chain := by
  unfold v1Formula FitsV1
  rcases chain with _ | ⟨pindexPrev, _ | ⟨pindexPrevPrev, ancestors⟩⟩
  · exact Iff.rfl
  · exact Iff.rfl
  · dsimp only
    split
    next hlow => exact ⟨fun _ hheight => absurd hheight (by grind), fun _ => trivial⟩
    next hheight =>
      rw [emaFactors_eq]
      refine ⟨fun h _ => h.1.2.2, fun h => ⟨⟨trivial, trivial, h ?_⟩, trivial⟩⟩
      have := (not_or.mp hheight).2
      omega

theorem averageFormula_succ {count running : Nat} (haverage : average.ideal = running) :
    ((averageFormula (count + 1) average blocks).InRange 256 ↔
      average.InRange 256 ∧ SumsFit (count + 1) running blocks) ∧
    (averageFormula (count + 1) average blocks).ideal =
      runningAverage (count + 1) running blocks := by
  induction blocks generalizing count average running with
  | nil => exact ⟨(and_iff_left trivial).symm, haverage⟩
  | cons block blocks ih =>
    have hideal : (Formula.div (.add (.mul average (.cast 32 (count + 2 : Nat)))
        (.value block.target)) (.cast 64 (count + 3 : Nat))).ideal =
          nextAverage (count + 1) running block.target := by
      rw [nextAverage, if_neg (Nat.succ_ne_zero count)]
      dsimp only [Formula.ideal]
      rw [haverage]
      push_cast
      rfl
    obtain ⟨hrange, hrunning⟩ := @ih _ (count + 1) _ hideal
    refine ⟨hrange.trans ?_, hrunning⟩
    have hfits : (Formula.div (.add (.mul average (.cast 32 (count + 2 : Nat)))
        (.value block.target)) (.cast 64 (count + 3 : Nat))).InRange 256 ↔
          average.InRange 256 ∧ running * (count + 1 + 1) + block.target < 2 ^ 256 := by
      dsimp only [Formula.InRange, Formula.ideal]
      rw [haverage]
      constructor
      · rintro ⟨⟨⟨hrange, -, -⟩, -, hsum⟩, -⟩
        exact ⟨hrange, by exact_mod_cast hsum⟩
      · rintro ⟨hrange, hsum⟩
        have hsum : (running : Int) * (count + 2 : Nat) + block.target < 2 ^ 256 := by
          exact_mod_cast hsum
        exact ⟨⟨⟨hrange, trivial, by omega⟩, trivial, hsum⟩, trivial⟩
    rw [hfits, SumsFit, and_assoc]
    simp

theorem averageFormula_iff :
    ((averageFormula 0 (.value 0) blocks).InRange 256 ↔ SumsFit 0 0 blocks) ∧
      (averageFormula 0 (.value 0) blocks).ideal = runningAverage 0 0 blocks := by
  cases blocks with
  | nil => exact ⟨Iff.rfl, rfl⟩
  | cons block blocks =>
    obtain ⟨hrange, hideal⟩ := @averageFormula_succ blocks (.value block.target) 0 block.target rfl
    refine ⟨hrange.trans ?_, hideal⟩
    simp [SumsFit, nextAverage, Formula.InRange]

theorem le_of_switch {network : Network} {height : Nat}
    (h : ¬ height < network.MULTI_ALGO_SWITCH_BLOCK) : PastBlocksMin ≤ height := by
  have hswitch : network.MULTI_ALGO_SWITCH_BLOCK = 340000 := by cases network <;> rfl
  rw [PastBlocksMin]
  omega

theorem inRange_gravityFormula_iff (hheight : PastBlocksMin ≤ chain.length - 1) :
    (gravityFormula network chain algo).InRange 256 ↔ FitsGravity network chain algo := by
  obtain ⟨hrange, hideal⟩ := @averageFormula_iff (gravityBlocks algo chain)
  unfold gravityFormula FitsGravity
  dsimp only
  rw [if_neg (not_lt.mpr hheight)]
  split
  next hcount =>
    have hblocks : gravityBlocks algo chain = [] := by
      rw [readChain_init, countBlocks_foldl] at hcount
      exact eq_nil_of_length_eq_zero ((Nat.zero_add _).symm.trans hcount)
    rw [hblocks]
    exact ⟨fun _ => ⟨trivial, by simp [runningAverage]⟩, fun _ => trivial⟩
  next =>
    dsimp only [Formula.InRange]
    rw [hrange, hideal]
    exact ⟨fun h => ⟨h.1.1, h.1.2.2⟩, fun h => ⟨⟨h.1, trivial, h.2⟩, trivial⟩⟩

theorem sumsFit_of_le {count running : Nat} (hfit : hi * 5400 < 2 ^ 256)
    (hcount : count + blocks.length ≤ PastBlocksMin)
    (htargets : ∀ block ∈ blocks, block.target ≤ hi) (hrunning : running ≤ hi) :
    SumsFit count running blocks ∧ runningAverage count running blocks ≤ hi := by
  induction blocks generalizing count running with
  | nil => exact ⟨trivial, hrunning⟩
  | cons block blocks ih =>
    obtain ⟨htarget, htargets⟩ := forall_mem_cons.mp htargets
    rw [length_cons, PastBlocksMin] at hcount
    have hproduct : running * (count + 1) ≤ hi * (count + 1) := Nat.mul_le_mul_right _ hrunning
    have hbound : hi * (count + 1) ≤ hi * 12 := Nat.mul_le_mul_left hi (by omega)
    have hnext : nextAverage count running block.target ≤ hi := by
      unfold nextAverage
      split
      · exact htarget
      · refine Nat.div_le_of_le_mul ?_
        rw [show (count + 2) * hi = hi * (count + 1) + hi by ring]
        omega
    obtain ⟨hsums, hle⟩ := @ih (count + 1) _ (by rw [PastBlocksMin]; omega) htargets hnext
    exact ⟨⟨fun _ => by omega, hsums⟩, hle⟩

theorem mem_of_mem_gravityBlocks {algo : Algo} {block : CBlockHeader}
    (h : block ∈ gravityBlocks algo chain) : block ∈ chain :=
  (dropLast_sublist chain).subset (mem_of_mem_filter (mem_of_mem_take h))

theorem inRange_sumFormula {k : Int} (hpos : 0 < k * Lwma.N)
    (htargets : ∀ block ∈ later, block.target ≤ hi) (hsum : sum.InRange 256 ∧ 0 ≤ sum.ideal)
    (hfit : sum.ideal + later.length * (hi / (k * Lwma.N)) < 2 ^ 256) :
    (sumFormula k sum later).InRange 256 ∧ 0 ≤ (sumFormula k sum later).ideal ∧
      (sumFormula k sum later).ideal ≤ sum.ideal + later.length * (hi / (k * Lwma.N)) := by
  induction later generalizing sum with
  | nil => exact ⟨hsum.1, hsum.2, by simp [sumFormula]⟩
  | cons block later ih =>
    obtain ⟨htarget, htargets⟩ := forall_mem_cons.mp htargets
    have hpart : (block.target : Int) / (k * Lwma.N) ≤ hi / (k * Lwma.N) :=
      Int.ediv_le_ediv hpos (by exact_mod_cast htarget)
    have hnonneg : 0 ≤ (block.target : Int) / (k * Lwma.N) :=
      Int.ediv_nonneg (Int.natCast_nonneg _) hpos.le
    have hrest : 0 ≤ (later.length : Int) * (hi / (k * Lwma.N)) :=
      mul_nonneg (Int.natCast_nonneg _) (hnonneg.trans hpart)
    push_cast [length_cons] at hfit
    rw [add_mul, one_mul] at hfit
    obtain ⟨hrange, hlow, hhigh⟩ := @ih
      (.add sum (.div (.value block.target) (.cast 64 (k * Lwma.N)))) htargets
      ⟨⟨hsum.1, ⟨trivial, trivial⟩, by dsimp only [Formula.ideal]; omega⟩,
        by dsimp only [Formula.ideal]; omega⟩
      (by dsimp only [Formula.ideal]; omega)
    refine ⟨hrange, hlow, hhigh.trans ?_⟩
    push_cast [length_cons]
    rw [add_mul, one_mul]
    dsimp only [Formula.ideal]
    omega

variable (hfit : hi * 5400 < 2 ^ 256) (htargets : ∀ block ∈ chain, block.target ≤ hi)

include hfit htargets

theorem fitsV1_of_le : FitsV1 chain := by
  unfold FitsV1
  split
  next pindexPrev pindexPrevPrev ancestors =>
    intro _
    obtain ⟨hlow, hhigh⟩ := actualSpacing_bounds pindexPrev pindexPrevPrev
    have htarget : (pindexPrev.target : Int) ≤ hi := by
      exact_mod_cast htargets pindexPrev mem_cons_self
    have hproduct := mul_le_mul htarget
      (show 30 + 2 * actualSpacing 60 pindexPrev pindexPrevPrev ≤ 5400 by omega) (by omega)
      (by omega)
    have hfit : (hi : Int) * 5400 < 2 ^ 256 := by exact_mod_cast hfit
    exact lt_of_le_of_lt hproduct hfit
  next => trivial

theorem fitsGravity_of_le : FitsGravity network chain algo := by
  obtain ⟨span, clamped, hspan, hclamped, -, -, hlow, hhigh⟩ := gravityTimes network chain algo
  obtain ⟨hsums, hle⟩ := @sumsFit_of_le (gravityBlocks algo chain) hi 0 0 hfit
    ((Nat.zero_add _).trans_le (length_gravityBlocks_le algo chain))
    (fun block hblock => htargets block (mem_of_mem_gravityBlocks hblock)) (Nat.zero_le hi)
  refine ⟨hsums, ?_⟩
  rw [hspan, hclamped]
  have hproduct := mul_le_mul (Int.ofNat_le.mpr hle) hhigh hlow (Int.natCast_nonneg hi)
  have hfit : (hi : Int) * 5400 < 2 ^ 256 := by exact_mod_cast hfit
  exact lt_of_le_of_lt hproduct hfit

theorem inRange_lwmaFormula : (lwmaFormula network chain algo).InRange 256 := by
  rcases lwmaFormula_cases network chain algo with
    heq | ⟨t, k, later, hlength, hmem, ht, htk, hk, -, heq⟩
  · rw [heq]
    exact (inRange_v1Formula_iff network).mpr (fitsV1_of_le hfit htargets)
  · rw [heq]
    have hfit : (hi : Int) * 5400 < 2 ^ 256 := by exact_mod_cast hfit
    have hpart : k * Lwma.N * (hi / (k * Lwma.N)) ≤ hi := Int.mul_ediv_self_le hk.ne'
    have hpartNonneg : 0 ≤ (hi : Int) / (k * Lwma.N) := Int.ediv_nonneg (by omega) hk.le
    have hkpos : 1 ≤ k := by
      rw [Lwma.N] at hk
      omega
    have hwindow : (Lwma.N : Int) * (hi / (k * Lwma.N)) ≤ hi := by
      refine le_trans ?_ hpart
      refine mul_le_mul_of_nonneg_right ?_ hpartNonneg
      exact le_mul_of_one_le_left (by decide) hkpos
    obtain ⟨hrange, hlow, hhigh⟩ := @inRange_sumFormula later (.value 0) hi k hk
      (fun block hblock => htargets block (hmem block hblock)) ⟨trivial, le_refl _⟩
      (by rw [hlength]; dsimp only [Formula.ideal]; omega)
    rw [hlength] at hhigh
    refine ⟨trivial, hrange, ?_⟩
    have hproduct := mul_le_mul htk hhigh hlow (show 0 ≤ 6 * k by omega)
    dsimp only [Formula.ideal] at hproduct ⊢
    have hsix : 6 * k * ((0 : Nat) + Lwma.N * (hi / (k * Lwma.N))) =
        6 * (k * Lwma.N * (hi / (k * Lwma.N))) := by
      push_cast
      ring
    rw [hsix] at hproduct
    omega

end InRange

/-! ## Exactness -/

/-- The next target is exact: no operation of the formula wraps or divides by zero, and the
result is the compact form of the value over the integers. -/
def ExactTarget (network : Network) (chain : List CBlockHeader) (algo : Algo) : Prop :=
  (nextFormula network chain algo).Exact 256 ∧
  getNextTargetRequired network chain algo =
    getCompact (min (network.powLimit : Int) (nextFormula network chain algo).ideal).toNat

theorem exactTarget_iff :
    ExactTarget network chain algo ↔ (nextFormula network chain algo).InRange 256 := by
  constructor
  · exact fun h => (Formula.exact_iff.mp h.1).2
  · intro h
    have hexact := Formula.exact_iff.mpr ⟨converts_nextFormula network chain algo, h⟩
    refine ⟨hexact, ?_⟩
    rw [getNextTargetRequired, nextTarget_eq_formula, ← hexact.eval_eq]
    congr 1
    omega

theorem inRange_nextFormula {network : Network} {chain : List CBlockHeader}
    (hnetwork : network ≠ .regtest) (htargets : ∀ block ∈ chain, block.target ≤ network.powLimit) :
    (nextFormula network chain algo).InRange 256 := by
  have hfit : network.powLimit * 5400 < 2 ^ 256 := by
    cases network with
    | main => decide
    | test => decide
    | regtest => exact absurd rfl hnetwork
  have hv1 := (inRange_v1Formula_iff network).mpr (fitsV1_of_le hfit htargets)
  unfold nextFormula
  split_ifs with _ hheight
  · exact hv1
  · exact (inRange_gravityFormula_iff network algo (le_of_switch hheight)).mpr
      (fitsGravity_of_le network algo hfit htargets)
  · exact hv1
  · exact inRange_lwmaFormula network algo hfit htargets

/-- On the regression test network: no product and no sum over the targets of the chain
reaches `2 ^ 256`. -/
def RegtestFits (chain : List CBlockHeader) (algo : Algo) : Prop :=
  (chain.length - 1 < 340000 → FitsV1 chain) ∧
    (340000 ≤ chain.length - 1 → FitsGravity .regtest chain algo)

theorem inRange_nextFormula_regtest : (nextFormula .regtest chain algo).InRange 256 ↔
    RegtestFits chain algo := by
  have hdispatch : nextFormula .regtest chain algo = if chain.length - 1 < 340000 then
      v1Formula .regtest chain else gravityFormula .regtest chain algo := if_pos (.inr rfl)
  rw [hdispatch]
  by_cases hheight : chain.length - 1 < 340000
  · rw [if_pos hheight, inRange_v1Formula_iff]
    exact ⟨fun h => ⟨fun _ => h, fun hle => absurd hheight (not_lt.mpr hle)⟩, fun h => h.1 hheight⟩
  · rw [if_neg hheight, inRange_gravityFormula_iff _ _ (@le_of_switch .regtest _ hheight)]
    exact ⟨fun h => ⟨fun hlt => absurd hlt hheight, fun _ => h⟩, fun h => h.2 (not_lt.mp hheight)⟩

/-- The next target is exact on the main and the test network, and on the regression test
network exactly if the targets and times of the chain fit. -/
theorem exactTarget_iff_fits (network : Network) (chain : List CBlockHeader) (algo : Algo)
    (htargets : ∀ block ∈ chain, 1 ≤ block.target ∧ block.target ≤ network.powLimit) :
    ExactTarget network chain algo ↔ (network = .regtest → RegtestFits chain algo) := by
  rw [exactTarget_iff]
  by_cases hnetwork : network = .regtest
  · subst hnetwork
    rw [inRange_nextFormula_regtest]
    exact ⟨fun h _ => h, fun h => h rfl⟩
  · exact ⟨fun _ h => absurd h hnetwork, fun _ =>
      inRange_nextFormula algo hnetwork fun block hblock => (htargets block hblock).2⟩

end Targets

namespace RegtestLimit

def block (nBits nTime : Nat) : CBlockHeader := { CBlockHeader.null with nTime, nBits }

def chain (nBits : Nat) : List CBlockHeader := block nBits 60 :: List.replicate 451 (block nBits 0)

theorem target_of_mem_chain {nBits : Nat} {header : CBlockHeader} (h : header ∈ chain nBits) :
    header.target = targetOf nBits := by
  rcases mem_cons.mp h with rfl | h
  · rfl
  · rw [eq_of_mem_replicate h]
    rfl

/-- At the target of the limit the product with the factor 150 wraps, so that the next
target is far below the one that the formula gives, the limit. -/
theorem wrapped_product :
    (∀ header ∈ chain 0x207fffff,
      1 ≤ header.target ∧ header.target ≤ Network.regtest.powLimit) ∧
    (nextFormula .regtest (chain 0x207fffff) .scrypt).ideal = targetOf 0x207fffff * 150 / 90 ∧
    getCompact Network.regtest.powLimit = 0x207fffff ∧
    getNextTargetRequired .regtest (chain 0x207fffff) .scrypt = 0x2002d82b := by
  have hformula : nextFormula .regtest (chain 0x207fffff) .scrypt =
      .div (.mul (.value (targetOf 0x207fffff)) (.cast 32 150)) (.cast 64 90) := by
    decide +kernel
  refine ⟨?_, ?_, by decide +kernel, ?_⟩
  · intro header hheader
    rw [target_of_mem_chain hheader]
    decide
  · rw [hformula]
    rfl
  · rw [getNextTargetRequired, nextTarget_eq_formula, hformula]
    decide +kernel

/-- A common target: its product with the factor 150 is far below `2 ^ 256`. -/
theorem regtestFits_chain : RegtestFits (chain 0x1b0404cb) .scrypt := by
  have hfits : ∀ ancestors, FitsV1 (block 0x1b0404cb 60 :: block 0x1b0404cb 0 :: ancestors) :=
    fun _ _ => by decide
  refine ⟨fun _ => hfits (List.replicate 450 _), fun hheight => ?_⟩
  rw [chain, length_cons, length_replicate] at hheight
  exact absurd hheight (by decide)

theorem exactTarget_iff_fits_small : ExactTarget .regtest (chain 0x1b0404cb) .scrypt := by
  refine (exactTarget_iff_fits .regtest (chain 0x1b0404cb) .scrypt ?_).mpr fun _ =>
    regtestFits_chain
  intro header hheader
  rw [target_of_mem_chain hheader]
  decide

end RegtestLimit

end Verge
