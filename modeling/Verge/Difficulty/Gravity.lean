import Mathlib.Data.List.TakeDrop
import Mathlib.Tactic.Ring
import Verge.Difficulty.Retarget

/-!
# What `DarkGravityWave3` reads

The loop passes over the blocks of other algorithms and stops after twelve blocks, so
it is a fold over the last twelve blocks of the algorithm above the genesis block.
Their average is between the least and the greatest of their targets, and the time
differences telescope.
-/

namespace Verge

open List GravityState

def gravityBlocks (algo : Algo) (chain : List CBlockHeader) : List CBlockHeader :=
  (sameAlgo algo chain.dropLast).take PastBlocksMax

theorem length_gravityBlocks_le (algo : Algo) (chain : List CBlockHeader) :
    (gravityBlocks algo chain).length ≤ 12 :=
  length_take_le PastBlocksMax _

theorem toUInt32_of_lt {n : Int} (hlow : 0 ≤ n) (hhigh : n < 2 ^ 32) : toUInt32 n = n.toNat := by
  rw [toUInt32, Int.emod_eq_of_lt hlow hhigh]

theorem toUInt64_of_lt {n : Int} (hlow : 0 ≤ n) (hhigh : n < 2 ^ 64) : toUInt64 n = n.toNat := by
  rw [toUInt64, Int.emod_eq_of_lt hlow hhigh]

theorem mul256_of_lt {a b : Nat} (h : a * b < 2 ^ 256) : mul256 a b = a * b := Nat.mod_eq_of_lt h

theorem add256_of_lt {a b : Nat} (h : a + b < 2 ^ 256) : add256 a b = a + b := Nat.mod_eq_of_lt h

theorem actualSpacing_bounds (pindexPrev pindexPrevPrev : CBlockHeader) :
    0 ≤ actualSpacing 60 pindexPrev pindexPrevPrev ∧
      actualSpacing 60 pindexPrev pindexPrevPrev ≤ 60 := by
  unfold actualSpacing
  dsimp only
  split_ifs <;> omega

theorem emaFactors_eq (pindexPrev pindexPrevPrev : CBlockHeader) :
    emaFactors pindexPrev pindexPrevPrev =
      (30 + 2 * actualSpacing 60 pindexPrev pindexPrevPrev, 90) := by
  have hspacing : min (2 * 30 : Int) (30 * 1) = 30 := by decide
  have hinterval : (60 : Int) / 30 = 2 := by decide
  unfold emaFactors
  dsimp only
  rw [hspacing, hinterval, Prod.mk.injEq]
  exact ⟨by omega, by decide⟩

namespace GravityState

variable {algo : Algo} {chain blocks : List CBlockHeader} {s : GravityState}

@[simp] theorem countBlocks_read (s : GravityState) (block : CBlockHeader) :
    (s.read block).CountBlocks = s.CountBlocks + 1 := rfl

@[simp] theorem lastBlockTime_read (s : GravityState) (block : CBlockHeader) :
    (s.read block).LastBlockTime = block.nTime := rfl

theorem nActualTimespan_read (h : 0 < s.LastBlockTime) (block : CBlockHeader) :
    (s.read block).nActualTimespan = s.nActualTimespan + (s.LastBlockTime - block.nTime) :=
  if_pos h

theorem average_read (h : s.CountBlocks < PastBlocksMin) (block : CBlockHeader) :
    (s.read block).PastDifficultyAverage =
        average (s.CountBlocks + 1) s.PastDifficultyAveragePrev block.target ∧
      (s.read block).PastDifficultyAveragePrev = (s.read block).PastDifficultyAverage :=
  ⟨if_pos h, if_pos h⟩

theorem readChain_eq (s : GravityState) :
    readChain algo chain s =
      ((sameAlgo algo chain.dropLast).take (PastBlocksMax - s.CountBlocks)).foldl read s := by
  induction chain generalizing s with
  | nil => simp [readChain, sameAlgo]
  | cons block ancestors ih =>
    cases ancestors with
    | nil => simp [readChain, sameAlgo]
    | cons pprev ancestors =>
      rw [readChain, dropLast_cons_cons, sameAlgo, filter_cons]
      by_cases hcount : PastBlocksMax ≤ s.CountBlocks
      · rw [if_pos hcount, Nat.sub_eq_zero_of_le hcount, take_zero, foldl_nil]
      · rw [if_neg hcount]
        by_cases halgo : block.algo = algo
        · rw [if_neg (not_not.mpr halgo), if_pos (beq_iff_eq.mpr halgo), ih,
            show PastBlocksMax - s.CountBlocks =
              PastBlocksMax - (s.CountBlocks + 1) + 1 by omega]
          rfl
        · rw [if_pos halgo, if_neg (by simpa using halgo)]
          exact ih s

theorem readChain_init : readChain algo chain {} = (gravityBlocks algo chain).foldl read {} :=
  readChain_eq {}

theorem countBlocks_foldl (blocks : List CBlockHeader) (s : GravityState) :
    (blocks.foldl read s).CountBlocks = s.CountBlocks + blocks.length := by
  induction blocks generalizing s with
  | nil => rfl
  | cons block blocks ih =>
    rw [foldl_cons, ih, countBlocks_read, length_cons]
    omega

def exactAverage (CountBlocks PastDifficultyAveragePrev target : Nat) : Nat :=
  if CountBlocks = 1 then target
  else (PastDifficultyAveragePrev * CountBlocks + target) / (CountBlocks + 1)

theorem average_eq_exactAverage {count prev target : Nat} (hcount : count ≤ PastBlocksMin)
    (h : count ≠ 1 → prev * count + target < 2 ^ 256) :
    average count prev target = exactAverage count prev target := by
  unfold average exactAverage
  by_cases hone : count = 1
  · rw [if_pos hone, if_pos hone]
  · have hfit := h hone
    have hconv : toUInt32 count = count := by
      rw [toUInt32_of_lt (by omega) (by rw [PastBlocksMin] at hcount; omega), Int.toNat_natCast]
    rw [if_neg hone, if_neg hone, hconv, mul256_of_lt (by omega), add256_of_lt hfit]

theorem exactAverage_bounds {count prev target lo hi : Nat}
    (hprev : count ≠ 1 → lo ≤ prev ∧ prev ≤ hi) (htarget : lo ≤ target ∧ target ≤ hi) :
    lo ≤ exactAverage count prev target ∧ exactAverage count prev target ≤ hi := by
  unfold exactAverage
  by_cases hone : count = 1
  · rw [if_pos hone]
    exact htarget
  · obtain ⟨hlo, hhi⟩ := hprev hone
    have hlow := Nat.mul_le_mul_right count hlo
    have hhigh := Nat.mul_le_mul_right count hhi
    rw [if_neg hone]
    constructor
    · rw [Nat.le_div_iff_mul_le (by omega), Nat.mul_succ]
      omega
    · refine Nat.div_le_of_le_mul ?_
      rw [Nat.succ_mul, Nat.mul_comm count hi]
      omega

theorem foldl_average_bounds {lo hi : Nat} (hfit : hi * 13 < 2 ^ 256)
    (hcount : s.CountBlocks + blocks.length ≤ PastBlocksMin)
    (hs : s.CountBlocks ≠ 0 → lo ≤ s.PastDifficultyAverage ∧ s.PastDifficultyAverage ≤ hi ∧
      s.PastDifficultyAveragePrev = s.PastDifficultyAverage)
    (hblocks : ∀ block ∈ blocks, lo ≤ block.target ∧ block.target ≤ hi)
    (hread : s.CountBlocks + blocks.length ≠ 0) :
    lo ≤ (blocks.foldl read s).PastDifficultyAverage ∧
      (blocks.foldl read s).PastDifficultyAverage ≤ hi := by
  induction blocks generalizing s with
  | nil =>
    obtain ⟨hlo, hhi, -⟩ := hs hread
    exact ⟨hlo, hhi⟩
  | cons block blocks ih =>
    rw [length_cons] at hcount
    obtain ⟨hblock, hblocks⟩ := forall_mem_cons.mp hblocks
    obtain ⟨havg, hprev⟩ := average_read (s := s) (by omega) block
    have hprevious : s.CountBlocks + 1 ≠ 1 →
        lo ≤ s.PastDifficultyAveragePrev ∧ s.PastDifficultyAveragePrev ≤ hi := by
      intro hne
      obtain ⟨hlo, hhi, heq⟩ := hs (by omega)
      exact heq ▸ ⟨hlo, hhi⟩
    have hbounds := exactAverage_bounds hprevious hblock
    rw [← average_eq_exactAverage (by omega), ← havg] at hbounds
    · refine ih ?_ (fun _ => ⟨hbounds.1, hbounds.2, hprev⟩) hblocks ?_
      · rw [countBlocks_read]
        omega
      · rw [countBlocks_read]
        omega
    · intro hne
      rw [PastBlocksMin] at hcount
      have hmul := Nat.mul_le_mul (hprevious hne).2 (show s.CountBlocks + 1 ≤ 12 by omega)
      omega

theorem foldl_nActualTimespan (newest : Int) (hs : s.nActualTimespan = newest - s.LastBlockTime)
    (hlast : blocks ≠ [] → 0 < s.LastBlockTime)
    (htimes : ∀ block ∈ blocks.dropLast, 0 < block.nTime) :
    (blocks.foldl read s).nActualTimespan = newest - (blocks.foldl read s).LastBlockTime := by
  induction blocks generalizing s with
  | nil => exact hs
  | cons block blocks ih =>
    have hspan : (s.read block).nActualTimespan = newest - (s.read block).LastBlockTime := by
      rw [nActualTimespan_read (hlast (by simp)), hs, lastBlockTime_read]
      omega
    cases blocks with
    | nil => exact hspan
    | cons next blocks =>
      rw [dropLast_cons_cons, forall_mem_cons] at htimes
      refine ih hspan (fun _ => ?_) htimes.2
      rw [lastBlockTime_read]
      exact_mod_cast htimes.1

theorem foldl_lastBlockTime {oldest : CBlockHeader} (h : oldest ∈ blocks.getLast?) :
    (blocks.foldl read s).LastBlockTime = oldest.nTime := by
  induction blocks generalizing s with
  | nil => cases h
  | cons block blocks ih =>
    cases blocks with
    | nil =>
      cases h
      rfl
    | cons next blocks => exact ih h

theorem readChain_nActualTimespan {newest oldest : CBlockHeader}
    (hnewest : newest ∈ (gravityBlocks algo chain).head?)
    (holdest : oldest ∈ (gravityBlocks algo chain).getLast?)
    (htimes : ∀ block ∈ (gravityBlocks algo chain).dropLast, 0 < block.nTime) :
    (readChain algo chain {}).nActualTimespan = (newest.nTime : Int) - oldest.nTime := by
  rw [readChain_init]
  cases hblocks : gravityBlocks algo chain with
  | nil =>
    rw [hblocks] at hnewest
    cases hnewest
  | cons block blocks =>
    rw [hblocks] at hnewest holdest htimes
    cases hnewest
    have hlast := foldl_lastBlockTime (s := {}) holdest
    rw [foldl_cons] at hlast ⊢
    rw [foldl_nActualTimespan newest.nTime, hlast]
    · exact (sub_self _).symm
    · intro hne
      rw [lastBlockTime_read]
      exact_mod_cast htimes newest (by
        cases blocks with
        | nil => exact absurd rfl hne
        | cons next blocks => exact mem_cons_self)
    · intro b hb
      cases blocks with
      | nil => cases hb
      | cons next blocks => exact htimes b (mem_cons_of_mem _ hb)

theorem clampedTimespan_eq {nTargetTimespan : Int} (h : 0 ≤ nTargetTimespan) :
    s.clampedTimespan nTargetTimespan =
      max (nTargetTimespan / 3) (min s.nActualTimespan (nTargetTimespan * 3)) := by
  unfold clampedTimespan
  dsimp only
  split_ifs <;> omega

end GravityState

theorem Network.getTargetSpacing_of_le (network : Network) {height : Nat} (h : 340000 ≤ height) :
    network.getTargetSpacing height = 150 := by
  unfold getTargetSpacing
  rw [if_neg (by cases network <;> decide), if_neg (by omega)]

theorem gravityBlocks_ne_nil {algo : Algo} {chain : List CBlockHeader}
    (h : sameAlgo algo chain.dropLast ≠ []) : gravityBlocks algo chain ≠ [] := by
  intro hnil
  rcases take_eq_nil_iff.mp hnil with hzero | hempty
  · cases hzero
  · exact h hempty

theorem darkGravityWave3Target_eq (network : Network) {chain : List CBlockHeader} {algo : Algo}
    {hi : Nat} (hheight : 340000 ≤ chain.length - 1) (halgo : sameAlgo algo chain.dropLast ≠ [])
    (hfit : hi * 5400 < 2 ^ 256)
    (htargets : ∀ block ∈ gravityBlocks algo chain, block.target ≤ hi) :
    ∃ average clamped : Nat,
      (∀ lo, (∀ block ∈ gravityBlocks algo chain, lo ≤ block.target) → lo ≤ average) ∧
      average ≤ hi ∧
      (clamped : Int) = (readChain algo chain {}).clampedTimespan
        ((gravityBlocks algo chain).length * 150) ∧
      darkGravityWave3Target network chain algo = min network.powLimit
        (average * clamped / ((gravityBlocks algo chain).length * 150)) := by
  have hcount : (readChain algo chain {}).CountBlocks =
      (gravityBlocks algo chain).length := by
    rw [readChain_init, countBlocks_foldl]
    exact Nat.zero_add _
  have hpos := length_pos_iff.mpr (gravityBlocks_ne_nil halgo)
  have hmax := length_gravityBlocks_le algo chain
  have hbounds : ∀ lo, (∀ block ∈ gravityBlocks algo chain, lo ≤ block.target) →
      lo ≤ (readChain algo chain {}).PastDifficultyAverage ∧
        (readChain algo chain {}).PastDifficultyAverage ≤ hi := by
    intro lo hlo
    rw [readChain_init]
    refine foldl_average_bounds (by omega) ?_ (fun h => absurd rfl h)
      (fun block hblock => ⟨hlo block hblock, htargets block hblock⟩) ?_
    · exact (Nat.zero_add _).trans_le hmax
    · exact (Nat.zero_add _).trans_ne hpos.ne'
  have hclamp := clampedTimespan_eq (s := readChain algo chain {})
    (show 0 ≤ ((gravityBlocks algo chain).length : Int) * 150 by omega)
  refine ⟨_, ((readChain algo chain {}).clampedTimespan
    ((gravityBlocks algo chain).length * 150)).toNat, fun lo hlo => (hbounds lo hlo).1,
    (hbounds 0 fun _ _ => Nat.zero_le _).2, by omega, ?_⟩
  unfold darkGravityWave3Target
  dsimp only
  rw [if_neg (by rw [PastBlocksMin]; omega), hcount, if_neg hpos.ne',
    network.getTargetSpacing_of_le hheight, toUInt32_of_lt (by omega) (by omega),
    toUInt64_of_lt (by omega) (by omega), mul256_of_lt]
  · congr 2
  · have hle := Nat.mul_le_mul (hbounds 0 fun _ _ => Nat.zero_le _).2
      (show ((readChain algo chain {}).clampedTimespan
        ((gravityBlocks algo chain).length * 150)).toNat ≤ 5400 by omega)
    exact lt_of_le_of_lt hle hfit

/-- The change of the difficulty in one step on the main network.  The bounds hold for any
times. -/
theorem darkGravityWave3_bounded_change {chain : List CBlockHeader} {algo : Algo}
    (hheight : Network.main.MULTI_ALGO_SWITCH_BLOCK ≤ chain.length - 1)
    (halgo : sameAlgo algo chain.dropLast ≠ [])
    (htargets : ∀ block ∈ gravityBlocks algo chain, block.target ≤ Network.main.powLimit) :
    let n := (gravityBlocks algo chain).length
    let S := Network.main.getTargetSpacing (chain.length - 1)
    1 ≤ n ∧ n ≤ 12 ∧ (GravityState.readChain algo chain {}).CountBlocks = n ∧
      (∀ newest ∈ (gravityBlocks algo chain).head?, ∀ oldest ∈ (gravityBlocks algo chain).getLast?,
        (∀ block ∈ (gravityBlocks algo chain).dropLast, 0 < block.nTime) →
        (GravityState.readChain algo chain {}).clampedTimespan (n * S) =
          max (n * S / 3) (min ((newest.nTime : Int) - oldest.nTime) (3 * (n * S)))) ∧
      ∀ tmin tmax, (∀ block ∈ gravityBlocks algo chain,
          tmin ≤ block.target ∧ block.target ≤ tmax) →
        (tmin - 12) / 3 ≤ darkGravityWave3Target .main chain algo ∧
          darkGravityWave3Target .main chain algo ≤ min Network.main.powLimit (3 * tmax) := by
  intro n S
  have hS : S = 150 := Network.main.getTargetSpacing_of_le hheight
  have hpos : 1 ≤ n := length_pos_iff.mpr (gravityBlocks_ne_nil halgo)
  have hmax : n ≤ 12 := length_gravityBlocks_le algo chain
  refine ⟨hpos, hmax, ?_, fun newest hnewest oldest holdest htimes => ?_, fun tmin tmax ht => ?_⟩
  · rw [readChain_init, countBlocks_foldl]
    exact Nat.zero_add _
  · rw [clampedTimespan_eq (by rw [hS]; omega),
      readChain_nActualTimespan hnewest holdest htimes, Int.mul_comm (n * S) 3]
  · have hfit : min tmax Network.main.powLimit * 5400 < 2 ^ 256 :=
      lt_of_le_of_lt (Nat.mul_le_mul_right _ (Nat.min_le_right _ _)) (by decide)
    obtain ⟨average, clamped, hlow, hhigh, hclamped, htarget⟩ := darkGravityWave3Target_eq
      .main hheight halgo hfit
      (fun block hblock => Nat.le_min.mpr ⟨(ht block hblock).2, htargets block hblock⟩)
    have havg := hlow tmin fun block hblock => (ht block hblock).1
    rw [clampedTimespan_eq (by omega)] at hclamped
    have hdiv : tmin / 3 ≤ average * clamped / (n * 150) := by
      rw [Nat.le_div_iff_mul_le (by omega)]
      calc tmin / 3 * (n * 150) = tmin / 3 * 3 * (n * 50) := by ring
        _ ≤ average * clamped := Nat.mul_le_mul (by omega) (by omega)
    have hmul : average * clamped / (n * 150) ≤ 3 * tmax := by
      refine Nat.div_le_of_le_mul ?_
      calc average * clamped ≤ tmax * (n * 450) := Nat.mul_le_mul (by omega) (by omega)
        _ = n * 150 * (3 * tmax) := by ring
    have hlimit : tmin ≤ Network.main.powLimit := by omega
    rw [htarget]
    exact ⟨Nat.le_min.mpr ⟨by omega, (Nat.div_le_div_right (Nat.sub_le tmin 12)).trans hdiv⟩,
      Nat.le_min.mpr ⟨Nat.min_le_left _ _, (Nat.min_le_right _ _).trans hmul⟩⟩

namespace FewBlocks

def x17Block : CBlockHeader := { CBlockHeader.null with nVersion := 6144 }

def scryptBlock (nTime : Nat) : CBlockHeader :=
  { CBlockHeader.null with nTime, nBits := 0x03000001 }

def chain (latest : List CBlockHeader) : List CBlockHeader :=
  latest ++ (List.replicate 340000 x17Block ++ [scryptBlock 1])

variable (latest : List CBlockHeader)

theorem dropLast_chain : (chain latest).dropLast = latest ++ List.replicate 340000 x17Block := by
  rw [chain, ← append_assoc, dropLast_concat]

theorem sameAlgo_chain : sameAlgo .scrypt (chain latest).dropLast = sameAlgo .scrypt latest := by
  rw [dropLast_chain, sameAlgo, filter_append, filter_replicate, if_neg (by decide),
    append_nil, sameAlgo]

theorem length_chain : (chain latest).length - 1 = latest.length + 340000 := by
  rw [chain, length_append, length_append, length_replicate, length_singleton]
  omega

/-- An algorithm that only the genesis block has used gives no average, and the difference
after a block of time zero is left out. -/
theorem unread_genesis_and_zero_time :
    (Network.main.MULTI_ALGO_SWITCH_BLOCK ≤ (chain []).length - 1 ∧
      scryptBlock 1 ∈ sameAlgo .scrypt (chain []) ∧
      (GravityState.readChain .scrypt (chain []) {}).CountBlocks = 0 ∧
      darkGravityWave3Target .main (chain []) .scrypt = Network.main.powLimit) ∧
    (gravityBlocks .scrypt (chain [scryptBlock 1000, scryptBlock 0, scryptBlock 500]) =
        [scryptBlock 1000, scryptBlock 0, scryptBlock 500] ∧
      (GravityState.readChain .scrypt (chain [scryptBlock 1000, scryptBlock 0, scryptBlock 500])
        {}).clampedTimespan (3 * 150) = 1000 ∧
      max (3 * 150 / 3) (min ((1000 : Int) - 500) (3 * (3 * 150))) = 500) := by
  have hread : ∀ latest, gravityBlocks .scrypt (chain latest) =
      (sameAlgo .scrypt latest).take PastBlocksMax := fun latest => by
    rw [gravityBlocks, sameAlgo_chain]
  have hcount : (readChain .scrypt (chain []) {}).CountBlocks = 0 := by
    rw [readChain_init, hread]
    rfl
  refine ⟨⟨(length_chain []).ge, ?_, hcount, ?_⟩, ?_, ?_, by decide⟩
  · rw [sameAlgo, chain, mem_filter]
    exact ⟨mem_append_right _ (mem_append_right _ (mem_singleton_self _)), by decide⟩
  · unfold darkGravityWave3Target
    dsimp only
    rw [length_chain, if_neg (by decide), hcount, if_pos rfl]
  · rw [hread]
    decide
  · rw [readChain_init, hread]
    decide

theorem darkGravityWave3_bounded_change_two :
    darkGravityWave3Target .main (chain [scryptBlock 1000, scryptBlock 850]) .scrypt ≤
      min Network.main.powLimit (3 * 1) := by
  have hblocks : gravityBlocks .scrypt (chain [scryptBlock 1000, scryptBlock 850]) =
      [scryptBlock 1000, scryptBlock 850] := by
    rw [gravityBlocks, sameAlgo_chain]
    decide
  have hbounds := @darkGravityWave3_bounded_change (chain [scryptBlock 1000, scryptBlock 850])
    .scrypt (by rw [length_chain]; decide) (by rw [sameAlgo_chain]; decide)
    (by rw [hblocks]; decide)
  exact (hbounds.2.2.2.2 1 1 (by rw [hblocks]; decide)).2

end FewBlocks

end Verge
