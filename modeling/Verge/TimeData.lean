import Mathlib.Data.Finset.Card
import Verge.Foundation.MiddleElement
import Verge.Primitives

/-!
# Time offsets of the peers

`AddTimeData` of `timedata.cpp` with its median filter.  The addresses are left open.  A
call also yields the exact results of its negations, which in the source are of type
`int64_t`: `abs64` of the least number has none.
-/

namespace Verge

open Foundation List

def abs64 (n : Int) : Int := if 0 ≤ n then n else (-n).bmod (2 ^ 64)

def abs64Results (n : Int) : List Int := if 0 ≤ n then [] else [-n]

def VERGE_TIMEDATA_MAX_SAMPLES : Nat := 200

structure CMedianFilter where
  vValues : List Int
  nSize : Nat

namespace CMedianFilter

def vSorted (filter : CMedianFilter) : List Int := filter.vValues.insertionSort (· ≤ ·)

def input (filter : CMedianFilter) (value : Int) : CMedianFilter :=
  let vValues := if filter.vValues.length = filter.nSize then filter.vValues.tail
    else filter.vValues
  { filter with vValues := vValues ++ [value] }

def median (filter : CMedianFilter) : Int :=
  let vSortedSize := filter.vSorted.length
  if vSortedSize % 2 = 1 then filter.vSorted.getD (vSortedSize / 2) 0
  else ((filter.vSorted.getD (vSortedSize / 2 - 1) 0 +
    filter.vSorted.getD (vSortedSize / 2) 0).bmod (2 ^ 64)).tdiv 2

def size (filter : CMedianFilter) : Nat := filter.vValues.length

end CMedianFilter

structure TimeData (α : Type) where
  setKnown : List α
  vTimeOffsets : CMedianFilter
  nTimeOffset : Int
  fDone : Bool

namespace TimeData

variable {α : Type} [DecidableEq α]

omit [DecidableEq α] in
def init : TimeData α := ⟨[], ⟨[0], VERGE_TIMEDATA_MAX_SAMPLES⟩, 0, false⟩

def addTimeData (maxtimeadjustment : Int) (s : TimeData α) (ip : α) (nOffsetSample : Int) :
    TimeData α × List Int :=
  if s.setKnown.length = VERGE_TIMEDATA_MAX_SAMPLES then (s, [])
  else if ip ∈ s.setKnown then (s, [])
  else
    let vTimeOffsets := s.vTimeOffsets.input nOffsetSample
    let s := { s with setKnown := s.setKnown ++ [ip], vTimeOffsets := vTimeOffsets }
    if 5 ≤ vTimeOffsets.size ∧ vTimeOffsets.size % 2 = 1 then
      let nMedian := vTimeOffsets.median
      if abs64 nMedian ≤ max 0 maxtimeadjustment then
        ({ s with nTimeOffset := nMedian }, abs64Results nMedian)
      else if s.fDone then ({ s with nTimeOffset := 0 }, abs64Results nMedian)
      else
        let fMatch := vTimeOffsets.vSorted.any fun nOffset =>
          nOffset != 0 && decide (abs64 nOffset < 5 * 60)
        ({ s with nTimeOffset := 0, fDone := !fMatch },
          abs64Results nMedian ++ vTimeOffsets.vSorted.flatMap fun nOffset =>
            if nOffset = 0 then [] else abs64Results nOffset)
    else (s, [])

def run (maxtimeadjustment : Int) (calls : List (α × Int)) : TimeData α :=
  calls.foldl (fun s call => (s.addTimeData maxtimeadjustment call.1 call.2).1) init

/-- The first sample of each of the first 200 addresses. -/
def accepted (calls : List (α × Int)) : List (α × Int) :=
  calls.foldl (fun seen call => if seen.length = VERGE_TIMEDATA_MAX_SAMPLES ∨
    call.1 ∈ seen.map Prod.fst then seen else seen ++ [call]) []

section

variable (maxtimeadjustment : Int) (calls : List (α × Int)) (call : α × Int)

theorem accepted_concat :
    accepted (calls ++ [call]) = if (accepted calls).length = VERGE_TIMEDATA_MAX_SAMPLES ∨
      call.1 ∈ (accepted calls).map Prod.fst then accepted calls else accepted calls ++ [call] := by
  rw [accepted, foldl_append]
  rfl

theorem run_concat :
    run maxtimeadjustment (calls ++ [call]) =
      ((run maxtimeadjustment calls).addTimeData maxtimeadjustment call.1 call.2).1 := by
  simp [run]

theorem length_accepted_le : (accepted calls).length ≤ VERGE_TIMEDATA_MAX_SAMPLES := by
  induction calls using List.reverseRecOn with
  | nil => simp [accepted]
  | append_singleton calls last ih =>
    rw [accepted_concat]
    split
    · exact ih
    · rw [length_append, length_singleton]
      omega

end

theorem mem_accepted_of_mem_calls {calls : List (α × Int)}
    (hroom : (accepted calls).length < VERGE_TIMEDATA_MAX_SAMPLES) {ip : α}
    (h : ip ∈ calls.map Prod.fst) : ip ∈ (accepted calls).map Prod.fst := by
  induction calls using List.reverseRecOn with
  | nil => simp at h
  | append_singleton calls last ih =>
    rw [map_append, mem_append] at h
    by_cases hskip : (accepted calls).length = VERGE_TIMEDATA_MAX_SAMPLES ∨
        last.1 ∈ (accepted calls).map Prod.fst
    · rw [accepted_concat, if_pos hskip] at hroom ⊢
      rcases h with h | h
      · exact ih hroom h
      · obtain rfl : ip = last.1 := by simpa using h
        exact hskip.resolve_left (by omega)
    · rw [accepted_concat, if_neg hskip] at hroom ⊢
      rw [length_append, length_singleton] at hroom
      rw [map_append, mem_append]
      exact h.imp_left (ih (by omega))

theorem length_accepted_of_card {calls : List (α × Int)}
    (h : VERGE_TIMEDATA_MAX_SAMPLES ≤ (calls.map Prod.fst).toFinset.card) :
    (accepted calls).length = VERGE_TIMEDATA_MAX_SAMPLES := by
  refine (length_accepted_le calls).antisymm (not_lt.mp fun hroom => ?_)
  have hsub : (calls.map Prod.fst).toFinset ⊆ ((accepted calls).map Prod.fst).toFinset :=
    fun ip hip => mem_toFinset.mpr
      (mem_accepted_of_mem_calls hroom (mem_toFinset.mp hip))
  have hcard := (Finset.card_le_card hsub).trans (toFinset_card_le _)
  rw [length_map] at hcard
  omega

def Proper (n : Int) : Prop := -2 ^ 63 < n ∧ n < 2 ^ 63

omit [DecidableEq α] in
theorem abs64_eq {n : Int} (h : Proper n) : abs64 n = n.natAbs := by
  obtain ⟨hlow, hhigh⟩ := h
  unfold abs64
  split
  · omega
  · rw [Int.bmod_eq_of_le (by omega) (by omega)]
    omega

theorem inInt64_abs64Results {n r : Int} (h : Proper n) (hr : r ∈ abs64Results n) :
    inInt64 r := by
  obtain ⟨hlow, hhigh⟩ := h
  unfold abs64Results at hr
  split at hr
  · simp at hr
  · obtain rfl := mem_singleton.mp hr
    exact ⟨by omega, by omega⟩

theorem median_eq {filter : CMedianFilter} (h : filter.size % 2 = 1) :
    filter.median = middle 0 filter.vValues ∧ filter.median ∈ filter.vValues := by
  have hlength : filter.vSorted.length = filter.vValues.length := length_insertionSort _ _
  have hk : filter.vSorted.length / 2 < filter.vSorted.length := by
    rw [CMedianFilter.size, ← hlength] at h
    omega
  rw [CMedianFilter.median, if_pos (by rwa [hlength])]
  refine ⟨by rw [hlength]; rfl, ?_⟩
  rw [getD_eq_getElem _ _ hk]
  exact (mem_insertionSort (· ≤ ·)).mp (getElem_mem hk)

/-- The median of the initial 0 and the samples accepted up to some call, at an odd count
of at least five. -/
def EarlierMedian (calls : List (α × Int)) (n : Int) : Prop :=
  ∃ earlier later, calls = earlier ++ later ∧ 5 ≤ (accepted earlier).length + 1 ∧
    ((accepted earlier).length + 1) % 2 = 1 ∧ n = middle 0 (0 :: (accepted earlier).map Prod.snd)

/-- What the calls made so far leave: the accepted samples after the initial 0, as long as
there is room, and as offset 0 or an earlier median. -/
structure After (maxtimeadjustment : Int) (calls : List (α × Int)) (s : TimeData α) : Prop where
  known : s.setKnown = (accepted calls).map Prod.fst
  nSize : s.vTimeOffsets.nSize = VERGE_TIMEDATA_MAX_SAMPLES
  proper : ∀ value ∈ s.vTimeOffsets.vValues, Proper value
  values : (accepted calls).length < VERGE_TIMEDATA_MAX_SAMPLES →
    s.vTimeOffsets.vValues = 0 :: (accepted calls).map Prod.snd
  offset : s.nTimeOffset = 0 ∨
    s.nTimeOffset.natAbs ≤ max 0 maxtimeadjustment ∧ EarlierMedian calls s.nTimeOffset

variable {maxtimeadjustment : Int} {calls : List (α × Int)} {s : TimeData α} {ip : α}
  {nOffsetSample : Int}

theorem addTimeData_of_skip (hs : After maxtimeadjustment calls s)
    (hskip : (accepted calls).length = VERGE_TIMEDATA_MAX_SAMPLES ∨
      ip ∈ (accepted calls).map Prod.fst) :
    s.addTimeData maxtimeadjustment ip nOffsetSample = (s, []) := by
  unfold addTimeData
  rw [hs.known, length_map]
  rcases hskip with hfull | hknown
  · rw [if_pos hfull]
  · rw [if_pos hknown, ite_self]

theorem After.call (hs : After maxtimeadjustment calls s) (hsample : Proper nOffsetSample) :
    After maxtimeadjustment (calls ++ [(ip, nOffsetSample)])
        (s.addTimeData maxtimeadjustment ip nOffsetSample).1 ∧
      ∀ r ∈ (s.addTimeData maxtimeadjustment ip nOffsetSample).2, inInt64 r := by
  have hle := length_accepted_le calls
  have hoffset : s.nTimeOffset = 0 ∨ s.nTimeOffset.natAbs ≤ max 0 maxtimeadjustment ∧
      EarlierMedian (calls ++ [(ip, nOffsetSample)]) s.nTimeOffset := by
    refine hs.offset.imp_right (And.imp_right ?_)
    rintro ⟨earlier, later, hcalls, hmedian⟩
    exact ⟨earlier, later ++ [_], by rw [hcalls, append_assoc], hmedian⟩
  by_cases hskip : (accepted calls).length = VERGE_TIMEDATA_MAX_SAMPLES ∨
      ip ∈ (accepted calls).map Prod.fst
  · have haccepted : accepted (calls ++ [(ip, nOffsetSample)]) = accepted calls := by
      rw [accepted_concat, if_pos hskip]
    rw [addTimeData_of_skip hs hskip]
    exact ⟨⟨haccepted ▸ hs.known, hs.nSize, hs.proper, haccepted ▸ hs.values, hoffset⟩, by simp⟩
  have haccepted : accepted (calls ++ [(ip, nOffsetSample)]) =
      accepted calls ++ [(ip, nOffsetSample)] := by rw [accepted_concat, if_neg hskip]
  obtain ⟨hroom, hnew⟩ := not_or.mp hskip
  have hvalues := hs.values (by omega)
  unfold addTimeData
  rw [hs.known, length_map, if_neg hroom, if_neg hnew]
  generalize hfilter : s.vTimeOffsets.input nOffsetSample = filter
  have hproper : ∀ value ∈ filter.vValues, Proper value := by
    intro value hvalue
    rw [← hfilter] at hvalue
    rcases mem_append.mp hvalue with hvalue | hvalue
    · refine hs.proper value ?_
      split at hvalue
      · exact mem_of_mem_tail hvalue
      · exact hvalue
    · exact mem_singleton.mp hvalue ▸ hsample
  have hsize : filter.size = min VERGE_TIMEDATA_MAX_SAMPLES ((accepted calls).length + 2) := by
    rw [← hfilter]
    simp only [CMedianFilter.size, CMedianFilter.input, hvalues, hs.nSize]
    split <;> simp_all <;> omega
  have hvalues' : (accepted calls).length + 1 < VERGE_TIMEDATA_MAX_SAMPLES →
      filter.vValues = 0 :: (accepted (calls ++ [(ip, nOffsetSample)])).map Prod.snd := by
    intro hlt
    rw [← hfilter, haccepted]
    simp only [CMedianFilter.input, hvalues, hs.nSize]
    rw [if_neg (by simp; omega)]
    simp
  have hafter : ∀ s' : TimeData α, s'.setKnown = (accepted calls).map Prod.fst ++ [ip] →
      s'.vTimeOffsets = filter → (s'.nTimeOffset = 0 ∨
        s'.nTimeOffset.natAbs ≤ max 0 maxtimeadjustment ∧
          EarlierMedian (calls ++ [(ip, nOffsetSample)]) s'.nTimeOffset) →
      After maxtimeadjustment (calls ++ [(ip, nOffsetSample)]) s' := by
    rintro s' hknown hfilter' hoffset'
    refine ⟨by rw [hknown, haccepted]; simp, ?_, hfilter' ▸ hproper, fun hlt => ?_, hoffset'⟩
    · rw [hfilter', ← hfilter]
      exact hs.nSize
    · rw [hfilter']
      rw [haccepted, length_append] at hlt
      exact hvalues' hlt
  simp only
  split
  case isFalse => exact ⟨hafter _ rfl rfl hoffset, by simp⟩
  case isTrue hodd =>
    have hMAX : VERGE_TIMEDATA_MAX_SAMPLES = 200 := rfl
    obtain ⟨hmedian, hmem⟩ := median_eq hodd.2
    have hnMedian := hproper _ hmem
    have hresults := fun r => inInt64_abs64Results (r := r) hnMedian
    split
    case isTrue hclose =>
      refine ⟨hafter _ rfl rfl (.inr ⟨?_, _, [], (append_nil _).symm, ?_⟩), hresults⟩
      · rwa [abs64_eq hnMedian] at hclose
      · rw [haccepted, length_append, length_singleton, ← haccepted,
          ← hvalues' (by omega)]
        exact ⟨by omega, by omega, hmedian⟩
    split
    · exact ⟨hafter _ rfl rfl (.inl rfl), hresults⟩
    · refine ⟨hafter _ rfl rfl (.inl rfl), fun r hr => ?_⟩
      rcases mem_append.mp hr with hr | hr
      · exact hresults r hr
      · obtain ⟨nOffset, hin, hr⟩ := mem_flatMap.mp hr
        split at hr
        · simp at hr
        · exact inInt64_abs64Results
            (hproper nOffset ((mem_insertionSort (· ≤ ·)).mp hin)) hr

theorem after_run (h : ∀ call ∈ calls, Proper call.2) :
    After maxtimeadjustment calls (run maxtimeadjustment calls) := by
  induction calls using List.reverseRecOn with
  | nil => exact ⟨rfl, rfl, by simp [run, init, Proper], fun _ => rfl, .inl rfl⟩
  | append_singleton calls call ih =>
    obtain ⟨hcalls, hcall⟩ := forall_mem_append.mp h
    rw [run_concat]
    exact (After.call (ih hcalls) (hcall call (by simp))).1

/-- Unless a sample is the least value of `int64_t`, the offset is within the limit and an
earlier median, nothing overflows, and 200 addresses fix it. -/
theorem timeOffset_limited (maxtimeadjustment : Int) (calls : List (α × Int))
    (h : ∀ call ∈ calls, inInt64 call.2 ∧ call.2 ≠ -2 ^ 63) :
    (run maxtimeadjustment calls).nTimeOffset.natAbs ≤ max 0 maxtimeadjustment ∧
    ((run maxtimeadjustment calls).nTimeOffset ≠ 0 →
      EarlierMedian calls (run maxtimeadjustment calls).nTimeOffset) ∧
    (∀ ip nOffsetSample, inInt64 nOffsetSample → nOffsetSample ≠ -2 ^ 63 →
      ∀ r ∈ ((run maxtimeadjustment calls).addTimeData maxtimeadjustment ip nOffsetSample).2,
        inInt64 r) ∧
    (VERGE_TIMEDATA_MAX_SAMPLES ≤ (calls.map Prod.fst).toFinset.card → ∀ ip nOffsetSample,
      ((run maxtimeadjustment calls).addTimeData maxtimeadjustment ip nOffsetSample).1 =
        run maxtimeadjustment calls) := by
  have hproper : ∀ n, inInt64 n → n ≠ -2 ^ 63 → Proper n := fun n hrange hne =>
    ⟨lt_of_le_of_ne hrange.1 hne.symm, hrange.2⟩
  have hrun : After maxtimeadjustment calls (run maxtimeadjustment calls) :=
    after_run fun call hcall => hproper _ (h call hcall).1 (h call hcall).2
  refine ⟨?_, fun hne => (hrun.offset.resolve_left hne).2, fun ip n hrange hne => ?_,
    fun hcard ip n => ?_⟩
  · rcases hrun.offset with hzero | hbound
    · rw [hzero]
      exact le_max_left 0 _
    · exact hbound.1
  · exact (hrun.call (hproper n hrange hne)).2
  · rw [addTimeData_of_skip hrun (.inl (length_accepted_of_card hcard))]

/-- The fourth sample makes the median of five values the offset. -/
theorem timeOffset_limited_four_calls :
    let calls := [((1 : Nat), 30), (2, 40), (3, 50), (4, 60)]
    (run 4200 calls).nTimeOffset = 40 ∧ EarlierMedian calls 40 ∧
      (run 4200 calls).nTimeOffset.natAbs ≤ max (0 : Int) 4200 := by
  have h := timeOffset_limited 4200 [((1 : Nat), 30), (2, 40), (3, 50), (4, 60)] (by decide)
  have hoffset : (run 4200 [((1 : Nat), 30), (2, 40), (3, 50), (4, 60)]).nTimeOffset = 40 := by
    decide +kernel
  rw [hoffset] at h
  exact ⟨hoffset, h.2.1 (by decide), hoffset ▸ h.1⟩

/-- Four peers with the least offset: it is the median, and its negation is itself. -/
theorem timeOffset_leaves_limit :
    let calls := [((1 : Nat), -2 ^ 63), (2, -2 ^ 63), (3, -2 ^ 63), (4, -2 ^ 63)]
    (∀ call ∈ calls, inInt64 call.2) ∧ (run 4200 calls).nTimeOffset = -2 ^ 63 ∧
      ∃ r ∈ ((run 4200 (calls.take 3)).addTimeData 4200 4 (-2 ^ 63)).2, ¬ inInt64 r := by
  decide +kernel

end TimeData

end Verge
