import Mathlib.Data.List.Infix
import Verge.Validation.TestBlockValidity

/-!
# How often a mining algorithm is used

`hasUsedValidMiningAlgorithm` compares a block with the ten blocks before it.  The
bound that follows is about every algorithm and every window of eleven blocks: the
latest block of an algorithm in a window has all its other blocks before it.
-/

namespace Verge

open List

/-- The blocks of an algorithm in the window that ends at the first header; the window is
shorter near the genesis block. -/
def windowCount (algo : Algo) (chain : List CBlockHeader) : Nat :=
  (chain.take (2 * SAME_ALGO_MAX_COUNT + 1)).countP fun header => getAlgo header.nVersion == algo

/-- A chain whose headers passed `ContextualCheckBlockHeader` with the check of the
algorithm switched on, each with the clock of its time. -/
def AcceptedChain (flexibleMiningAlgorithms : Int) : List CBlockHeader → Prop
  | [] => True
  | block :: pindexPrev =>
    (pindexPrev ≠ [] → ∃ params nAdjustedTime state state',
      params.FlexibleMiningAlgorithms = flexibleMiningAlgorithms ∧
      contextualCheckBlockHeader params nAdjustedTime true block pindexPrev state =
        (true, state')) ∧
    AcceptedChain flexibleMiningAlgorithms pindexPrev

section Windows

variable {flexibleMiningAlgorithms : Int} {chain : List CBlockHeader}

theorem hasUsedValidMiningAlgorithm_iff {block : CBlockHeader} {pindexPrev : List CBlockHeader} :
    hasUsedValidMiningAlgorithm block pindexPrev = true ↔
      windowCount (getAlgo block.nVersion) (block :: pindexPrev) ≤ SAME_ALGO_MAX_COUNT + 1 := by
  simp [hasUsedValidMiningAlgorithm, windowCount]

theorem hasUsedValidMiningAlgorithm_of_accepted {block : CBlockHeader}
    {pindexPrev : List CBlockHeader} (h : AcceptedChain flexibleMiningAlgorithms chain)
    (hblock : block :: pindexPrev <:+ chain)
    (hheight : flexibleMiningAlgorithms < pindexPrev.length) :
    hasUsedValidMiningAlgorithm block pindexPrev = true := by
  induction chain with
  | nil => simp at hblock
  | cons tip ancestors ih =>
    rcases suffix_cons_iff.mp hblock with heq | hblock
    · cases heq
      by_cases hgenesis : pindexPrev = []
      · subst hgenesis
        rfl
      · obtain ⟨params, nAdjustedTime, state, state', rfl, hcheck⟩ := h.1 hgenesis
        unfold contextualCheckBlockHeader at hcheck
        simp only at hcheck
        split_ifs at hcheck with hbits hcheckpoint htime hnew hversion halgo
        all_goals cases hcheck
        by_contra hrule
        exact halgo ⟨trivial, hheight, by simpa using hrule⟩
    · exact ih h.2 hblock

/-- By induction on the window from its latest block on: the first block of the algorithm
has the rest of the window among the ten blocks before it. -/
theorem countP_take_le {n : Nat} (algo : Algo) (hn : n ≤ 2 * SAME_ALGO_MAX_COUNT + 1)
    (hrule : ∀ block pindexPrev, block :: pindexPrev <:+ chain →
      flexibleMiningAlgorithms < pindexPrev.length →
      hasUsedValidMiningAlgorithm block pindexPrev = true)
    (hheight : flexibleMiningAlgorithms + n < chain.length) :
    (chain.take n).countP (fun header => getAlgo header.nVersion == algo) ≤
      SAME_ALGO_MAX_COUNT + 1 := by
  induction chain generalizing n with
  | nil => simp
  | cons block pindexPrev ih =>
    cases n with
    | zero => simp
    | succ n =>
      rw [length_cons] at hheight
      rw [take_succ_cons, countP_cons]
      by_cases halgo : getAlgo block.nVersion = algo
      · subst halgo
        have hself := hrule block pindexPrev (suffix_refl _) (by omega)
        rw [hasUsedValidMiningAlgorithm, decide_eq_true_iff] at hself
        have hprefix := (take_sublist_take_left (l := pindexPrev)
          (show n ≤ 2 * SAME_ALGO_MAX_COUNT by omega)).countP_le
          (p := fun header => getAlgo header.nVersion == getAlgo block.nVersion)
        rw [if_pos (beq_self_eq_true _)]
        omega
      · rw [if_neg (by simpa using halgo)]
        exact ih (by omega) (fun b r hb => hrule b r (hb.trans (suffix_cons _ _)))
          (by push_cast at hheight; omega)

/-- An accepted chain has at most six blocks of an algorithm in every window of eleven above
the height of the rule, and no block is rejected whose window keeps to that. -/
theorem algorithm_windows (flexibleMiningAlgorithms : Int) (chain : List CBlockHeader) :
    (AcceptedChain flexibleMiningAlgorithms chain →
      ∀ window, window <:+ chain → 2 * SAME_ALGO_MAX_COUNT + 1 ≤ window.length →
        flexibleMiningAlgorithms < (window.length : Int) - (2 * SAME_ALGO_MAX_COUNT + 1) →
        ∀ algo, windowCount algo window ≤ SAME_ALGO_MAX_COUNT + 1) ∧
    (∀ block pindexPrev, block :: pindexPrev <:+ chain →
      (hasUsedValidMiningAlgorithm block pindexPrev = true ↔
        windowCount (getAlgo block.nVersion) (block :: pindexPrev) ≤ SAME_ALGO_MAX_COUNT + 1)) ∧
    ((∀ window, window <:+ chain → 2 * SAME_ALGO_MAX_COUNT + 1 ≤ window.length →
        flexibleMiningAlgorithms < (window.length : Int) - (2 * SAME_ALGO_MAX_COUNT + 1) →
        ∀ algo, windowCount algo window ≤ SAME_ALGO_MAX_COUNT + 1) →
      ∀ block pindexPrev, block :: pindexPrev <:+ chain →
        2 * SAME_ALGO_MAX_COUNT ≤ pindexPrev.length →
        flexibleMiningAlgorithms + 2 * SAME_ALGO_MAX_COUNT < pindexPrev.length →
        hasUsedValidMiningAlgorithm block pindexPrev = true) := by
  refine ⟨fun haccepted window hwindow _ hheight algo => ?_,
    fun block pindexPrev _ => hasUsedValidMiningAlgorithm_iff,
    fun hbound block pindexPrev hblock hlong hheight => ?_⟩
  · refine countP_take_le algo le_rfl (fun block pindexPrev hblock hlow =>
      hasUsedValidMiningAlgorithm_of_accepted haccepted (hblock.trans hwindow) hlow) ?_
    push_cast
    omega
  · refine hasUsedValidMiningAlgorithm_iff.mpr (hbound _ hblock ?_ ?_ _)
    · rw [length_cons]
      omega
    · rw [length_cons]
      push_cast
      omega

end Windows

/-! ## Sample chains -/

/-- A header of `BLOCK_VERSION_STEALTH` for an algorithm. -/
def headerOf (algoBits nTime : Nat) : CBlockHeader :=
  { CBlockHeader.null with nVersion := 4 + algoBits, nTime, nBits := 0x1e0fffff }

/-- Thirteen blocks, scrypt and X17 in turn. -/
def alternating : List CBlockHeader :=
  (List.range 13).reverse.map fun k =>
    headerOf (if k % 2 = 0 then BLOCK_VERSION_SCRYPT else BLOCK_VERSION_X17) (1700000000 + 30 * k)

def lowDifficulty : ContextRules where
  getNextWorkRequired _ _ _ := 0x1e0fffff
  lastCheckpoint := none
  csvActive _ := false
  segwitActive _ := false
  BIP34Height := 1000
  STEALTH_TX_SWITCH_BLOCK := 1
  FlexibleMiningAlgorithms := 0

theorem acceptedChain_of_tails (params : ContextRules) {chain : List CBlockHeader}
    (h : ∀ tail ∈ chain.tails, ∀ block ∈ tail.head?, tail.tail ≠ [] →
      contextualCheckBlockHeader params block.nTime true block tail.tail {} = (true, {})) :
    AcceptedChain params.FlexibleMiningAlgorithms chain := by
  induction chain with
  | nil => trivial
  | cons block pindexPrev ih =>
    refine ⟨fun hne => ⟨params, block.nTime, {}, {}, rfl, ?_⟩, ih fun tail htail => ?_⟩
    · exact h (block :: pindexPrev) (by simp) block rfl hne
    · exact h tail ((mem_tails _ _).mpr (((mem_tails _ _).mp htail).trans (suffix_cons _ _)))

theorem algorithm_windows_alternating :
    AcceptedChain 0 alternating ∧ windowCount .scrypt alternating = SAME_ALGO_MAX_COUNT + 1 ∧
      ∀ algo, windowCount algo alternating ≤ SAME_ALGO_MAX_COUNT + 1 := by
  have haccepted : AcceptedChain 0 alternating :=
    acceptedChain_of_tails lowDifficulty (by decide +kernel)
  exact ⟨haccepted, by decide, (algorithm_windows 0 alternating).1 haccepted alternating
    (suffix_refl _) (by decide) (by decide)⟩

/-- No window of this chain is above height 2042000, but its last block is, and it is
the eleventh scrypt block in a row. -/
theorem scrypt_chain_rejected :
    let block := headerOf BLOCK_VERSION_SCRYPT 1700000000
    let chain := List.replicate 2042002 block
    (∀ window, window <:+ chain → 2 * SAME_ALGO_MAX_COUNT + 1 ≤ window.length →
      (2042000 : Int) < (window.length : Int) - (2 * SAME_ALGO_MAX_COUNT + 1) →
      ∀ algo, windowCount algo window ≤ SAME_ALGO_MAX_COUNT + 1) ∧
    block :: List.replicate 2042001 block <:+ chain ∧
    hasUsedValidMiningAlgorithm block (List.replicate 2042001 block) = false := by
  refine ⟨fun window hwindow _ hheight => ?_, suffix_refl _, ?_⟩
  · have hlength := hwindow.length_le
    rw [length_replicate] at hlength
    rw [SAME_ALGO_MAX_COUNT] at hheight
    omega
  · rw [hasUsedValidMiningAlgorithm, take_replicate]
    decide

end Verge
