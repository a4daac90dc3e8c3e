import Mathlib.Data.List.Chain
import Verge.Difficulty.Gravity

/-!
# The target at the desired rate

What the two formulas make of blocks of one algorithm that all have the same target
and come exactly as often as they should.  `DarkGravityWave3` compares the eleven
intervals between its twelve blocks with the time for twelve, so that it lowers the
target by a twelfth each time.  The weighted mean of the test network has as many
intervals as targets and keeps the target.
-/

namespace Verge

open List GravityState

def Apart (spacing : Int) (newer older : CBlockHeader) : Prop :=
  (newer.nTime : Int) = older.nTime + spacing

instance (spacing : Int) (newer older : CBlockHeader) : Decidable (Apart spacing newer older) :=
  inferInstanceAs (Decidable (_ = _))

/-- Blocks, latest first, that all have the same `nBits` and the same distance. -/
structure Steady (spacing : Int) (nBits : Nat) (blocks : List CBlockHeader) : Prop where
  nBits : ∀ block ∈ blocks, block.nBits = nBits
  spacing : blocks.IsChain (Apart spacing)

theorem Steady.target {spacing : Int} {nBits : Nat} {blocks : List CBlockHeader}
    (h : Steady spacing nBits blocks) : ∀ block ∈ blocks, block.target = targetOf nBits := by
  intro block hblock
  rw [CBlockHeader.target, h.nBits block hblock]

section Times

variable {spacing : Int} {blocks : List CBlockHeader}

theorem nTime_eq_of_isChain (h : blocks.IsChain (Apart spacing)) {newest oldest : CBlockHeader}
    (hnewest : newest ∈ blocks.head?) (holdest : oldest ∈ blocks.getLast?) :
    (newest.nTime : Int) = oldest.nTime + spacing * (blocks.length - 1) := by
  induction blocks generalizing newest with
  | nil => cases hnewest
  | cons block blocks ih =>
    cases hnewest
    cases blocks with
    | nil =>
      cases holdest
      simp
    | cons next blocks =>
      obtain ⟨hnext, hrest⟩ := isChain_cons_cons.mp h
      have htail := ih hrest rfl holdest
      rw [Apart, htail] at hnext
      rw [hnext]
      push_cast [length_cons]
      ring

theorem nTime_pos_of_isChain (hspacing : 0 < spacing) (h : blocks.IsChain (Apart spacing)) :
    ∀ block ∈ blocks.dropLast, 0 < block.nTime := by
  induction blocks with
  | nil => exact forall_mem_nil _
  | cons block blocks ih =>
    cases blocks with
    | nil => exact forall_mem_nil _
    | cons next blocks =>
      obtain ⟨hnext, hrest⟩ := isChain_cons_cons.mp h
      rw [dropLast_cons_cons, forall_mem_cons]
      refine ⟨?_, ih hrest⟩
      unfold Apart at hnext
      omega

end Times

section

variable {algo : Algo} {chain : List CBlockHeader} {nBits : Nat}
  (hlength : 13 ≤ (sameAlgo algo chain).length)
  (hsteady : Steady 150 nBits ((sameAlgo algo chain).take 13))

include hlength

theorem gravityBlocks_eq_take : gravityBlocks algo chain = (sameAlgo algo chain).take 12 := by
  rcases eq_nil_or_concat chain with rfl | ⟨front, genesis, rfl⟩
  · cases hlength
  · rw [concat_eq_append, sameAlgo, filter_append, length_append] at hlength
    have hone := length_filter_le (fun header : CBlockHeader => header.algo == algo) [genesis]
    rw [length_singleton] at hone
    rw [gravityBlocks, concat_eq_append, dropLast_concat, sameAlgo, sameAlgo,
      filter_append, take_append_of_le_length (by omega)]
    rfl

include hsteady

theorem darkGravityWave3Target_steady (network : Network) (hheight : 340000 ≤ chain.length - 1)
    (htarget : targetOf nBits * 5400 < 2 ^ 256) :
    darkGravityWave3Target network chain algo =
      min network.powLimit (targetOf nBits * 11 / 12) := by
  have hread := gravityBlocks_eq_take hlength
  have htake : (sameAlgo algo chain).take 12 = ((sameAlgo algo chain).take 13).take 12 := by
    rw [take_take]
    rfl
  have hspaced : (gravityBlocks algo chain).IsChain (Apart 150) := by
    rw [hread, htake]
    exact hsteady.spacing.take 12
  have htargets : ∀ block ∈ gravityBlocks algo chain, block.target = targetOf nBits := by
    rw [hread, htake]
    exact fun block hblock => hsteady.target block (mem_of_mem_take hblock)
  have hcount : (gravityBlocks algo chain).length = 12 := by
    rw [hread, length_take]
    omega
  have hne : gravityBlocks algo chain ≠ [] := by
    intro hnil
    rw [hnil] at hcount
    cases hcount
  have halgo : sameAlgo algo chain.dropLast ≠ [] := by
    intro hnil
    rw [gravityBlocks, hnil] at hne
    exact hne take_nil
  have hnewest : (gravityBlocks algo chain).head hne ∈ (gravityBlocks algo chain).head? :=
    List.head?_eq_some_head hne
  have holdest : (gravityBlocks algo chain).getLast hne ∈ (gravityBlocks algo chain).getLast? :=
    List.getLast?_eq_some_getLast hne
  obtain ⟨average, clamped, hlow, hhigh, hclamped, hnext⟩ := darkGravityWave3Target_eq network
    hheight halgo htarget fun block hblock => (htargets block hblock).le
  have haverage : average = targetOf nBits :=
    le_antisymm hhigh (hlow _ fun block hblock => (htargets block hblock).ge)
  have hspan := readChain_nActualTimespan hnewest holdest
    (nTime_pos_of_isChain (by decide) hspaced)
  have htimes := nTime_eq_of_isChain hspaced hnewest holdest
  rw [hcount] at htimes hclamped hnext
  have hclamp : clamped = 1650 := by
    rw [clampedTimespan_eq (by decide), hspan] at hclamped
    omega
  rw [hnext, haverage, hclamp]
  congr 1
  omega

theorem darkGravityWave3_steady_iff
    (hheight : Network.main.MULTI_ALGO_SWITCH_BLOCK ≤ chain.length - 1)
    (htarget : targetOf nBits ≤ Network.main.powLimit / 3) :
    darkGravityWave3 .main chain algo = getCompact (targetOf nBits) ↔ targetOf nBits = 0 := by
  have hlimit : Network.main.powLimit / 3 * 5400 < 2 ^ 256 := by decide
  have hfit : targetOf nBits * 5400 < 2 ^ 256 :=
    lt_of_le_of_lt (Nat.mul_le_mul_right _ htarget) hlimit
  have hnext := darkGravityWave3Target_steady hlength hsteady .main hheight hfit
  have hbelow : targetOf nBits * 11 / 12 ≤ Network.main.powLimit := by
    generalize Network.main.powLimit = limit at htarget ⊢
    omega
  rw [Nat.min_eq_right hbelow] at hnext
  rw [darkGravityWave3, hnext]
  constructor
  · intro heq
    have hle := targetOf_getCompact_le (show targetOf nBits * 11 / 12 < 2 ^ 256 by omega)
    have hge := le_targetOf_getCompact (show targetOf nBits < 2 ^ 256 by omega)
    rw [heq] at hle
    omega
  · intro hzero
    rw [hzero]

end

namespace Lwma

theorem sameAlgoBlocks_eq {algo : Algo} {newer older found : List CBlockHeader}
    {earliest : CBlockHeader} (hfull : (found ++ sameAlgo algo newer).length = N)
    (halgo : earliest.algo = algo) :
    sameAlgoBlocks algo (newer ++ earliest :: older) found =
      if older.length < 100 then none
      else some (found ++ (sameAlgo algo newer ++ [earliest])) := by
  induction newer generalizing found with
  | nil =>
    rw [sameAlgo, filter_nil, append_nil] at hfull
    rw [nil_append, sameAlgoBlocks, if_pos halgo]
    have hlength : (found ++ [earliest]).length = N + 1 := by
      rw [length_append, hfull, length_singleton]
    rw [hlength, if_neg (Nat.lt_irrefl _)]
    rfl
  | cons block newer ih =>
    have hfound : (if block.algo = algo then found ++ [block] else found) ++
        sameAlgo algo newer = found ++ sameAlgo algo (block :: newer) := by
      by_cases hblock : block.algo = algo <;> simp [sameAlgo, hblock]
    have hlow : (newer ++ earliest :: older).length < 100 → older.length < 100 := by
      rw [length_append, length_cons]
      omega
    rw [← hfound] at hfull
    rw [cons_append, sameAlgoBlocks, ← append_assoc, ← hfound]
    generalize (if block.algo = algo then found ++ [block] else found) = found' at hfull ⊢
    have hshort : found'.length < N + 1 := by
      rw [length_append] at hfull
      omega
    by_cases hend : (newer ++ earliest :: older).length < 100
    · rw [if_pos hend, if_pos (hlow hend)]
    · rw [if_neg hend, if_pos hshort, ih hfull, append_assoc]

theorem sumUp_steady (FTL T k : Int) {target : Nat} {block_Prev : CBlockHeader}
    {later : List CBlockHeader} {s : Sums} (hFTL : 0 ≤ FTL) (hT : 0 ≤ T)
    (hspaced : (block_Prev :: later).IsChain fun older newer => Apart T newer older)
    (htargets : ∀ block ∈ later, block.target = target)
    (hfit : s.sum_target + later.length * (target / toUInt64 (k * N)) < 2 ^ 256) :
    2 * (sumUp FTL T k block_Prev later s).t =
        2 * s.t + T * (later.length * (2 * s.j + later.length + 1)) ∧
      (sumUp FTL T k block_Prev later s).sum_target =
        s.sum_target + later.length * (target / toUInt64 (k * N)) := by
  induction later generalizing block_Prev s with
  | nil => simp [sumUp]
  | cons block later ih =>
    obtain ⟨hnext, hrest⟩ := isChain_cons_cons.mp hspaced
    obtain ⟨htarget, htargets⟩ := forall_mem_cons.mp htargets
    have hsolve : solvetime FTL T block_Prev block = T := by
      unfold Apart at hnext
      unfold solvetime
      omega
    rw [length_cons, Nat.succ_mul] at hfit
    have hadd : add256 s.sum_target (block.target / toUInt64 (k * N)) =
        s.sum_target + target / toUInt64 (k * N) := by
      rw [htarget]
      exact add256_of_lt (by omega)
    rw [sumUp, hsolve, hadd]
    obtain ⟨htime, hsum⟩ := @ih block
      { t := s.t + T * (s.j + 1), j := s.j + 1,
        sum_target := s.sum_target + target / toUInt64 (k * N) } hrest htargets
      (by dsimp only; omega)
    rw [htime, hsum]
    constructor
    · push_cast [length_cons]
      ring
    · rw [length_cons, Nat.succ_mul]
      dsimp only
      omega

def kN : Nat := 16470000

end Lwma

theorem lwmaNextTarget_steady {algo : Algo} {newer older : List CBlockHeader}
    {earliest : CBlockHeader} {nBits : Nat}
    (hheight : 340000 ≤ (newer ++ earliest :: older).length - 1)
    (hcount : (sameAlgo algo newer).length = Lwma.N) (halgo : earliest.algo = algo)
    (hsteady : Steady 150 nBits (sameAlgo algo newer ++ [earliest]))
    (htarget : targetOf nBits ≤ Network.test.powLimit) :
    lwmaNextTarget .test (newer ++ earliest :: older) algo =
      if older.length < 100 then nextTargetV1 .test (newer ++ earliest :: older)
      else targetOf nBits / Lwma.kN * Lwma.kN := by
  have hfirst := @Lwma.sameAlgoBlocks_eq algo newer older [] earliest hcount halgo
  unfold lwmaNextTarget
  dsimp only
  rw [hfirst, Network.test.getTargetSpacing_of_le hheight]
  by_cases hlow : older.length < 100
  · rw [if_pos hlow, if_pos hlow, Option.map_none]
  · rw [if_neg hlow, if_neg hlow, Option.map_some, nil_append, reverse_append,
      reverse_singleton, singleton_append]
    dsimp only
    have hreverse : (earliest :: (sameAlgo algo newer).reverse).IsChain
        fun older newer => Apart 150 newer older := by
      have hchain := isChain_reverse (R := fun older newer => Apart 150 newer older)
        (l := sameAlgo algo newer ++ [earliest])
      rw [reverse_append, reverse_singleton, singleton_append] at hchain
      exact hchain.mpr hsteady.spacing
    have hk : ((Lwma.N : Int) * (Lwma.N + 1) * 150 / 2) = 274500 := by decide
    have hkN : toUInt64 (274500 * Lwma.N) = Lwma.kN := by decide
    have hlength : (sameAlgo algo newer).reverse.length = 60 := length_reverse.trans hcount
    have hsmall : targetOf nBits / Lwma.kN * Lwma.kN ≤ targetOf nBits := Nat.div_mul_le_self _ _
    have hlimit : Network.test.powLimit < 2 ^ 255 := by decide
    have hlast : targetOf nBits / Lwma.kN * 60 ≤ targetOf nBits / Lwma.kN * Lwma.kN :=
      Nat.mul_le_mul_left _ (by decide)
    rw [hk]
    generalize (getMaxClockDrift ((newer ++ earliest :: older).length - 1)) = FTL
    obtain ⟨htime, hsum⟩ := Lwma.sumUp_steady FTL 150 274500 (s := {}) (by omega) (by decide)
      hreverse (fun block hblock => hsteady.target block
        (mem_append_left _ (mem_reverse.mp hblock)))
      (by rw [hkN, hlength]; dsimp only; omega)
    rw [hlength] at htime hsum
    rw [hkN] at hsum
    generalize Lwma.sumUp FTL 150 274500 earliest (sameAlgo algo newer).reverse {} = sums
      at htime hsum ⊢
    have hweighted : sums.t = 274500 := by
      dsimp only at htime
      omega
    have hproduct : 274500 * sums.sum_target = targetOf nBits / Lwma.kN * Lwma.kN := by
      rw [hsum, Lwma.kN]
      dsimp only
      omega
    rw [hweighted, if_neg (by decide), show toUInt64 274500 = 274500 from rfl,
      mul256_of_lt (by omega), hproduct, Nat.min_eq_right (by omega)]

def WithinKN (a b : Nat) : Prop := a < b + Lwma.kN ∧ b < a + Lwma.kN

instance (a b : Nat) : Decidable (WithinKN a b) := inferInstanceAs (Decidable (_ ∧ _))

/-- What `GetNextTargetRequired_V1` makes of the last two blocks, of whatever algorithm. -/
theorem nextTargetV1_of_long (network : Network) {last prev : CBlockHeader}
    {ancestors : List CBlockHeader} (hlong : 449 ≤ ancestors.length) :
    nextTargetV1 network (last :: prev :: ancestors) =
      min network.powLimit
        (mul256 last.target (30 + 2 * (actualSpacing 60 last prev).toNat) / 90) := by
  have hfirst : ¬(ancestors = [] ∨ ancestors.length + 1 < 450) := by
    rintro (rfl | hshort)
    · exact absurd hlong (by decide)
    · omega
  obtain ⟨hlow, hhigh⟩ := actualSpacing_bounds last prev
  rw [nextTargetV1, if_neg hfirst, emaFactors_eq]
  dsimp only
  rw [toUInt32_of_lt (by omega) (by omega), Int.toNat_add (by decide) (by omega),
    Int.toNat_mul (by decide) hlow]
  rfl

theorem exists_cons_cons_of_count {algo : Algo} {newer : List CBlockHeader}
    (hcount : (sameAlgo algo newer).length = Lwma.N) :
    ∃ last prev rest, newer = last :: prev :: rest := by
  have hlength : Lwma.N ≤ newer.length := hcount ▸ length_filter_le _ _
  match newer, hlength with
  | last :: prev :: rest, _ => exact ⟨last, prev, rest, rfl⟩

/-- `DarkGravityWave3` keeps the target only if it is zero.  The weighted mean keeps it up
to `k * N` unless one of its blocks is so early that the first formula takes its place; that
one moves the target of the last block, of whatever algorithm, by the time it took. -/
theorem steady_target_iff (algo : Algo) :
    (∀ (chain : List CBlockHeader) (nBits : Nat),
      Network.main.MULTI_ALGO_SWITCH_BLOCK ≤ chain.length - 1 →
      13 ≤ (sameAlgo algo chain).length → Steady 150 nBits ((sameAlgo algo chain).take 13) →
      targetOf nBits ≤ Network.main.powLimit / 3 →
      (darkGravityWave3 .main chain algo = getCompact (targetOf nBits) ↔ targetOf nBits = 0)) ∧
    (∀ (newer older : List CBlockHeader) (earliest : CBlockHeader) (nBits : Nat),
      340000 < (newer ++ earliest :: older).length - 1 →
      (sameAlgo algo newer).length = Lwma.N → earliest.algo = algo →
      Steady 150 nBits (sameAlgo algo newer ++ [earliest]) →
      targetOf nBits ≤ Network.test.powLimit →
      (WithinKN (lwmaNextTarget .test (newer ++ earliest :: older) algo) (targetOf nBits) ↔
        100 ≤ older.length ∨
          ∃ last prev rest, newer = last :: prev :: rest ∧
            WithinKN
              (min Network.test.powLimit
                (mul256 last.target (30 + 2 * (actualSpacing 60 last prev).toNat) / 90))
              (targetOf nBits))) := by
  constructor
  · intro chain nBits hheight hlength hsteady htarget
    exact darkGravityWave3_steady_iff hlength hsteady hheight htarget
  · intro newer older earliest nBits hheight hcount halgo hsteady htarget
    rw [lwmaNextTarget_steady hheight.le hcount halgo hsteady htarget]
    by_cases hlow : older.length < 100
    · obtain ⟨last, prev, rest, rfl⟩ := exists_cons_cons_of_count hcount
      have hlong : 449 ≤ (rest ++ earliest :: older).length := by
        rw [cons_append, cons_append, length_cons, length_cons] at hheight
        omega
      rw [if_pos hlow, or_iff_right (Nat.not_le.mpr hlow), cons_append, cons_append,
        nextTargetV1_of_long .test hlong]
      constructor
      · exact fun hwithin => ⟨last, prev, rest, rfl, hwithin⟩
      · rintro ⟨_, _, _, heq, hwithin⟩
        obtain ⟨rfl, rfl, rfl⟩ : last = _ ∧ prev = _ ∧ rest = _ := by
          simpa only [cons.injEq] using heq
        exact hwithin
    · rw [if_neg hlow]
      refine iff_of_true ?_ (.inl (Nat.not_lt.mp hlow))
      have hrest := Nat.div_add_mod' (targetOf nBits) Lwma.kN
      have hmod := Nat.mod_lt (targetOf nBits) (show Lwma.kN > 0 by decide)
      unfold WithinKN
      omega

namespace FewBlocks

def steadyBlock (nTime : Nat) : CBlockHeader :=
  { CBlockHeader.null with nTime, nBits := 0x1b0404cb }

def steadyBlocks : Nat → List CBlockHeader
  | 0 => []
  | count + 1 => steadyBlock (1000 + 150 * (count + 1)) :: steadyBlocks count

theorem length_steadyBlocks (count : Nat) : (steadyBlocks count).length = count := by
  induction count with
  | zero => rfl
  | succ count ih => rw [steadyBlocks, length_cons, ih]

theorem steady_steadyBlocks (count : Nat) :
    Steady 150 0x1b0404cb (steadyBlocks count ++ [steadyBlock 1000]) := by
  induction count with
  | zero => exact ⟨by decide, .singleton _⟩
  | succ count ih =>
    refine ⟨forall_mem_cons.mpr ⟨rfl, ih.nBits⟩, ?_⟩
    have hspacing := ih.spacing
    cases count with
    | zero => exact .cons_cons (by decide) hspacing
    | succ count =>
      refine .cons_cons ?_ hspacing
      unfold Apart steadyBlock
      dsimp only
      omega

theorem sameAlgo_steadyBlocks (count : Nat) :
    sameAlgo .scrypt (steadyBlocks count) = steadyBlocks count := by
  have hscrypt : ∀ nTime, ((steadyBlock nTime).algo == .scrypt) = true :=
    fun _ => show (getAlgo 0 == .scrypt) = true by decide
  induction count with
  | zero => rfl
  | succ count ih =>
    rw [steadyBlocks, sameAlgo, filter_cons, if_pos (hscrypt _), ← sameAlgo, ih]

def steadyChain : List CBlockHeader := chain (steadyBlocks 12 ++ [steadyBlock 1000])

theorem height_steadyChain : Network.main.MULTI_ALGO_SWITCH_BLOCK < steadyChain.length - 1 := by
  rw [steadyChain, length_chain]
  decide

theorem sameAlgo_steadyChain :
    ∃ older, sameAlgo .scrypt steadyChain = (steadyBlocks 12 ++ [steadyBlock 1000]) ++ older := by
  refine ⟨sameAlgo .scrypt (List.replicate 340000 x17Block ++ [scryptBlock 1]), ?_⟩
  rw [steadyChain, chain, sameAlgo, filter_append, filter_append, ← sameAlgo,
    sameAlgo_steadyBlocks, ← sameAlgo]
  congr 1

theorem length_sameAlgo_steadyChain : 13 ≤ (sameAlgo .scrypt steadyChain).length := by
  obtain ⟨older, hsame⟩ := sameAlgo_steadyChain
  rw [hsame, length_append, length_append, length_steadyBlocks, length_singleton]
  omega

theorem steady_steadyChain :
    Steady 150 0x1b0404cb ((sameAlgo .scrypt steadyChain).take 13) := by
  obtain ⟨older, hsame⟩ := sameAlgo_steadyChain
  rw [hsame, take_left' (by decide)]
  exact steady_steadyBlocks 12

theorem steady_rate_lowers_target :
    Network.main.MULTI_ALGO_SWITCH_BLOCK < steadyChain.length - 1 ∧
    13 ≤ (sameAlgo .scrypt steadyChain).length ∧
    Steady 150 0x1b0404cb ((sameAlgo .scrypt steadyChain).take 13) ∧
    targetOf 0x1b0404cb ≤ Network.main.powLimit / 3 ∧
    getCompact (targetOf 0x1b0404cb) = 0x1b0404cb ∧
    darkGravityWave3Target .main steadyChain .scrypt = targetOf 0x1b0404cb * 11 / 12 ∧
    darkGravityWave3 .main steadyChain .scrypt = 0x1b03af0f := by
  have htarget : darkGravityWave3Target .main steadyChain .scrypt =
      targetOf 0x1b0404cb * 11 / 12 := by
    rw [darkGravityWave3Target_steady length_sameAlgo_steadyChain steady_steadyChain .main
      height_steadyChain.le (by decide)]
    decide
  refine ⟨height_steadyChain, length_sameAlgo_steadyChain, steady_steadyChain, by decide,
    by decide +kernel, htarget, ?_⟩
  rw [darkGravityWave3, htarget]
  decide +kernel

theorem steady_target_iff_sixty :
    darkGravityWave3 .main steadyChain .scrypt ≠ getCompact (targetOf 0x1b0404cb) ∧
    WithinKN (lwmaNextTarget .test
      (steadyBlocks 60 ++ steadyBlock 1000 :: List.replicate 340000 x17Block) .scrypt)
      (targetOf 0x1b0404cb) := by
  obtain ⟨hgravity, hlwma⟩ := steady_target_iff .scrypt
  constructor
  · rw [Ne, hgravity steadyChain 0x1b0404cb height_steadyChain.le length_sameAlgo_steadyChain
      steady_steadyChain (by decide)]
    decide
  · refine (hlwma _ _ _ 0x1b0404cb ?_ ?_ (by decide) ?_ (by decide)).mpr (.inl ?_)
    · rw [length_append, length_cons, length_replicate, length_steadyBlocks]
      decide
    · rw [sameAlgo_steadyBlocks]
      exact length_steadyBlocks 60
    · rw [sameAlgo_steadyBlocks]
      exact steady_steadyBlocks 60
    · rw [length_replicate]
      decide

end FewBlocks

end Verge
