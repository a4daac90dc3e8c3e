import Verge.Foundation.Ancestry
import Verge.Foundation.AssocMap
import Verge.Foundation.MiddleElement
import Verge.Validation.TestBlockValidity

/-!
# Version bits

`AbstractThresholdConditionChecker` of `versionbits.cpp`.  A deployment's state
is fixed per period; `GetStateFor` finds it by walking back over period ends until
one is known, then forward again, and remembers what it computed in a cache that
all branches of the block tree share.  Against it stands the plain recursion of
BIP 9, which goes through all periods of a chain from the first on.

The walk back stops at a period that ends before the start time.  That is right
because median times never decrease along a chain, and only if no period that ends
before the start time ends at or after the timeout.
-/

namespace Verge

open Foundation List Ancestry Option

inductive ThresholdState where
  | DEFINED
  | STARTED
  | LOCKED_IN
  | ACTIVE
  | FAILED
  deriving DecidableEq, Repr

def ALWAYS_ACTIVE : Int := -1

structure AbstractThresholdConditionChecker (ι : Type) where
  condition : ι → Bool
  beginTime : Int
  endTime : Int
  period : Nat
  threshold : Int
  period_pos : 0 < period

/-- Headers on a tree, each with a time after the median time past of its parent, as
`ContextualCheckBlockHeader` demands. -/
structure TimedTree (ι : Type) extends Ancestry ι where
  header : ι → CBlockHeader
  time_after : ∀ {i j}, parent i = some j →
    getMedianTimePast (toAncestry.accumulate (fun pprev i => header i :: pprev.getD []) j) <
      (header i).nTime

namespace TimedTree

variable {ι : Type} (t : TimedTree ι)

def headers (i : ι) : List CBlockHeader :=
  t.accumulate (fun pprev i => t.header i :: pprev.getD []) i

def medianTimePast (i : ι) : Int := getMedianTimePast (t.headers i)

def getAncestor (pindex : ι) (height : Int) : Option ι :=
  if height < 0 then none else t.ancestor pindex height.toNat

variable {t}

theorem getMedianTimePast_eq (pindex : List CBlockHeader) :
    getMedianTimePast pindex =
      middle 0 ((pindex.map CBlockHeader.nTime).take nMedianTimeSpan) := by
  simp only [getMedianTimePast, middle, map_take, length_insertionSort]

theorem headers_parent {i j : ι} (h : t.parent i = some j) :
    t.headers i = t.header i :: t.headers j := by
  rw [headers, accumulate_parent _ h]
  rfl

theorem headers_ne_nil (i : ι) : t.headers i ≠ [] := by
  cases h : t.parent i with
  | some j => simp [headers_parent h]
  | none => simp [headers, t.parent_eq_none h, accumulate_root]

theorem medianTimePast_le_of_parent {i j : ι} (h : t.parent i = some j) :
    t.medianTimePast j ≤ t.medianTimePast i := by
  have hafter : getMedianTimePast (t.headers j) < (t.header i).nTime := t.time_after h
  rw [getMedianTimePast_eq] at hafter
  unfold medianTimePast
  rw [headers_parent h, getMedianTimePast_eq, getMedianTimePast_eq, map_cons, Int.ofNat_le]
  exact middle_take_le_middle_take_cons 0 (by simp [headers_ne_nil]) (by decide) hafter.le

theorem medianTimePast_mono {a i : ι} (h : t.IsAncestor a i) :
    t.medianTimePast a ≤ t.medianTimePast i := by
  obtain ⟨n, hn⟩ := h
  induction n generalizing i with
  | zero => exact (congrArg t.medianTimePast (Option.some.inj hn)).ge
  | succ n ih =>
    obtain ⟨j, hj, hup⟩ := bind_eq_some_iff.mp hn
    exact (ih hup).trans (medianTimePast_le_of_parent hj)

theorem getAncestor_eq_some {a i : ι} {h : Int} :
    t.getAncestor i h = some a ↔ t.IsAncestor a i ∧ (t.height a : Int) = h := by
  unfold getAncestor
  split
  · constructor
    · simp
    · omega
  · rw [ancestor_eq_some]
    exact and_congr_right fun _ => by omega

theorem exists_getAncestor {i : ι} {h : Int} (h0 : 0 ≤ h) (hle : h ≤ t.height i) :
    ∃ a, t.getAncestor i h = some a := by
  obtain ⟨a, ha, hheight⟩ := exists_ancestor (show h.toNat ≤ t.height i by omega)
  exact ⟨a, getAncestor_eq_some.mpr ⟨ha, by omega⟩⟩

end TimedTree

abbrev ThresholdConditionCache (ι : Type) := AssocMap (Option ι) ThresholdState

namespace AbstractThresholdConditionChecker

open ThresholdState

variable {ι : Type} (checker : AbstractThresholdConditionChecker ι) (t : TimedTree ι)

def periodEnd (pindexPrev : Option ι) : Option ι :=
  pindexPrev.bind fun pindex =>
    t.getAncestor pindex (t.height pindex - ((t.height pindex + 1) % checker.period : Nat))

section Code

variable [DecidableEq ι]

/-- Walk back to a period end whose state is in the cache, collecting the ones on
the way. -/
def walkBack : Nat → ThresholdConditionCache ι → Option ι → List ι →
    ThresholdConditionCache ι × Option ι × List ι
  | 0, cache, pindexPrev, vToCompute => (cache, pindexPrev, vToCompute)
  | fuel + 1, cache, pindexPrev, vToCompute =>
    if (cache.lookup pindexPrev).isSome then (cache, pindexPrev, vToCompute)
    else
      match pindexPrev with
      | none => (cache.insert none DEFINED, none, vToCompute)
      | some pindex =>
        if t.medianTimePast pindex < checker.beginTime then
          (cache.insert (some pindex) DEFINED, some pindex, vToCompute)
        else
          walkBack fuel cache (t.getAncestor pindex (t.height pindex - checker.period))
            (pindex :: vToCompute)

def countBack : Nat → Option ι → Except Failure Nat
  | 0, _ => .ok 0
  | _ + 1, none => .error (.error "null pointer")
  | n + 1, some pindexCount => do
    let count ← countBack n (t.parent pindexCount)
    return count + if checker.condition pindexCount then 1 else 0

def stateNext (state : ThresholdState) (pindexPrev : ι) : Except Failure ThresholdState :=
  match state with
  | DEFINED =>
    if checker.endTime ≤ t.medianTimePast pindexPrev then .ok FAILED
    else if checker.beginTime ≤ t.medianTimePast pindexPrev then .ok STARTED
    else .ok DEFINED
  | STARTED =>
    if checker.endTime ≤ t.medianTimePast pindexPrev then .ok FAILED
    else do
      let count ← checker.countBack t checker.period (some pindexPrev)
      return if checker.threshold ≤ count then LOCKED_IN else STARTED
  | LOCKED_IN => .ok ACTIVE
  | FAILED => .ok FAILED
  | ACTIVE => .ok ACTIVE

def walkForward : List ι → ThresholdState → ThresholdConditionCache ι →
    Except Failure (ThresholdState × ThresholdConditionCache ι)
  | [], state, cache => .ok (state, cache)
  | pindexPrev :: vToCompute, state, cache => do
    let stateNext ← checker.stateNext t state pindexPrev
    walkForward vToCompute stateNext (cache.insert (some pindexPrev) stateNext)

def walkLimit (pindexPrev : Option ι) : Nat := (pindexPrev.elim 0 fun pindex =>
  t.height pindex + 1) + 1

def getStateFor (pindexPrev : Option ι) (cache : ThresholdConditionCache ι) :
    Except Failure (ThresholdState × ThresholdConditionCache ι) :=
  if checker.beginTime = ALWAYS_ACTIVE then .ok (ACTIVE, cache)
  else
    let pindexPrev := checker.periodEnd t pindexPrev
    let (cache, pindexPrev, vToCompute) :=
      checker.walkBack t (walkLimit t pindexPrev) cache pindexPrev []
    match cache.lookup pindexPrev with
    | none => .error (.assertion "cache.count(pindexPrev)")
    | some state => checker.walkForward t vToCompute state cache

def sinceLoop (initialState : ThresholdState) : Nat → ι → Option ι →
    ThresholdConditionCache ι → Except Failure (ι × ThresholdConditionCache ι)
  | 0, pindexPrev, _, cache => .ok (pindexPrev, cache)
  | _ + 1, pindexPrev, none, cache => .ok (pindexPrev, cache)
  | fuel + 1, pindexPrev, some previousPeriodParent, cache => do
    let (state, cache) ← checker.getStateFor t (some previousPeriodParent) cache
    if state = initialState then
      sinceLoop initialState fuel previousPeriodParent
        (t.getAncestor previousPeriodParent (t.height previousPeriodParent - checker.period))
        cache
    else .ok (pindexPrev, cache)

def getStateSinceHeightFor (pindexPrev : Option ι) (cache : ThresholdConditionCache ι) :
    Except Failure (Nat × ThresholdConditionCache ι) :=
  if checker.beginTime = ALWAYS_ACTIVE then .ok (0, cache)
  else do
    let (initialState, cache) ← checker.getStateFor t pindexPrev cache
    if initialState = DEFINED then .ok (0, cache)
    else
      match checker.periodEnd t pindexPrev with
      | none => .error (.error "null pointer")
      | some pindexPrev =>
        let (pindexPrev, cache) ← checker.sinceLoop t initialState (t.height pindexPrev + 1)
          pindexPrev (t.getAncestor pindexPrev (t.height pindexPrev - checker.period)) cache
        return (t.height pindexPrev + 1, cache)

end Code

/-! ## BIP 9 without a cache -/

def signalling (pindex : ι) : Nat :=
  (List.range checker.period).countP fun d =>
    (t.ancestor pindex (t.height pindex - d)).any checker.condition

def afterPeriod (state : ThresholdState) (pindex : ι) : ThresholdState :=
  match state with
  | DEFINED =>
    if checker.endTime ≤ t.medianTimePast pindex then FAILED
    else if checker.beginTime ≤ t.medianTimePast pindex then STARTED
    else DEFINED
  | STARTED =>
    if checker.endTime ≤ t.medianTimePast pindex then FAILED
    else if checker.threshold ≤ checker.signalling t pindex then LOCKED_IN
    else STARTED
  | LOCKED_IN => ACTIVE
  | FAILED => FAILED
  | ACTIVE => ACTIVE

/-- The state of period `k` of the chain that ends at `pindex`, from the first
period on. -/
def bip9Period (pindex : ι) : Nat → ThresholdState
  | 0 => DEFINED
  | k + 1 =>
    match t.ancestor pindex ((k + 1) * checker.period - 1) with
    | none => DEFINED
    | some last => checker.afterPeriod t (bip9Period pindex k) last

def periodOf (pindexPrev : ι) : Nat := (t.height pindexPrev + 1) / checker.period

/-- The state of the block after `pindexPrev`; the genesis block has none before it. -/
def bip9 (pindexPrev : Option ι) : ThresholdState :=
  pindexPrev.elim DEFINED fun pindex => checker.bip9Period t pindex (checker.periodOf t pindex)

/-- The first height of the maximal run of periods in the state of the block after
`pindexPrev`. -/
def IsSinceHeight (pindexPrev : Option ι) (height : Nat) : Prop :=
  match pindexPrev with
  | none => height = 0
  | some pindex => ∃ first ≤ checker.periodOf t pindex, height = first * checker.period ∧
      (∀ k, first ≤ k → k ≤ checker.periodOf t pindex →
        checker.bip9Period t pindex k = checker.bip9 t (some pindex)) ∧
      (first = 0 ∨ checker.bip9Period t pindex (first - 1) ≠ checker.bip9 t (some pindex))

/-! ## The recursion depends on the period only -/

variable {checker t} {a i : ι} {k : Nat}

theorem bip9Period_eq_of_isAncestor (ha : t.IsAncestor a i)
    (hk : k * checker.period ≤ t.height a + 1) :
    checker.bip9Period t a k = checker.bip9Period t i k := by
  induction k with
  | zero => rfl
  | succ k ih =>
    have hpos := checker.period_pos
    have hmul : (k + 1) * checker.period = k * checker.period + checker.period := Nat.succ_mul k _
    rw [bip9Period, bip9Period, ha.ancestor_eq (by omega), ih (by omega)]

theorem bip9_eq_bip9Period (ha : t.IsAncestor a i) (hk : t.height a + 1 = k * checker.period) :
    checker.bip9 t (some a) = checker.bip9Period t i k := by
  have hperiod : checker.periodOf t a = k := by
    rw [periodOf, hk, Nat.mul_div_cancel _ checker.period_pos]
  rw [bip9, elim_some, hperiod, bip9Period_eq_of_isAncestor ha hk.ge]

theorem eq_zero_of_getAncestor_eq_none {pindex : ι}
    (hk : t.height pindex + 1 = (k + 1) * checker.period)
    (h : t.getAncestor pindex (t.height pindex - checker.period) = none) : k = 0 := by
  by_contra hne
  have hle : checker.period ≤ k * checker.period :=
    Nat.le_mul_of_pos_left _ (Nat.pos_of_ne_zero hne)
  rw [Nat.succ_mul] at hk
  obtain ⟨a, ha⟩ := t.exists_getAncestor (i := pindex)
    (h := t.height pindex - checker.period) (by omega) (by omega)
  simp [h] at ha

variable (checker t) in
theorem periodEnd_cases (pindex : ι) :
    (checker.periodEnd t (some pindex) = none ∧ checker.periodOf t pindex = 0) ∨
    ∃ last, checker.periodEnd t (some pindex) = some last ∧ t.IsAncestor last pindex ∧
      t.height last + 1 = checker.periodOf t pindex * checker.period := by
  have hdiv := Nat.div_add_mod (t.height pindex + 1) checker.period
  have hmod := Nat.mod_le (t.height pindex + 1) checker.period
  have hperiod : checker.periodOf t pindex * checker.period =
      t.height pindex + 1 - (t.height pindex + 1) % checker.period := by
    rw [periodOf, Nat.mul_comm]
    omega
  simp only [periodEnd, bind_some]
  by_cases hneg : t.height pindex < (t.height pindex + 1) % checker.period
  · refine .inl ⟨?_, ?_⟩
    · rw [TimedTree.getAncestor, if_pos (by omega)]
    · have hzero : checker.periodOf t pindex * checker.period = 0 := by omega
      have hpos := checker.period_pos
      rcases Nat.mul_eq_zero.mp hzero with h | h <;> omega
  · obtain ⟨last, hlast⟩ := t.exists_getAncestor (i := pindex)
      (h := t.height pindex - ((t.height pindex + 1) % checker.period : Nat))
      (by omega) (by omega)
    obtain ⟨hanc, hheight⟩ := TimedTree.getAncestor_eq_some.mp hlast
    exact .inr ⟨last, hlast, hanc, by omega⟩

theorem bip9_periodEnd (pindexPrev : Option ι) :
    checker.bip9 t (checker.periodEnd t pindexPrev) = checker.bip9 t pindexPrev := by
  cases pindexPrev with
  | none => rfl
  | some pindex =>
    rcases periodEnd_cases checker t pindex with
      ⟨hnone, hperiod⟩ | ⟨last, hlast, hanc, hheight⟩
    · rw [hnone, bip9, bip9, elim_some, hperiod]
      rfl
    · rw [hlast, bip9_eq_bip9Period hanc hheight]
      rfl

theorem exists_period_of_dvd {n : Nat} (h : checker.period ∣ n + 1) :
    ∃ k, n + 1 = (k + 1) * checker.period := by
  obtain ⟨k, hk⟩ := h
  cases k with
  | zero => omega
  | succ k => exact ⟨k, hk.trans (Nat.mul_comm _ _)⟩

variable {pindex : ι} {state : ThresholdState} {cache : ThresholdConditionCache ι}

theorem bip9_step (hend : checker.period ∣ t.height pindex + 1) :
    checker.bip9 t (some pindex) = checker.afterPeriod t
      (checker.bip9 t (t.getAncestor pindex (t.height pindex - checker.period))) pindex := by
  obtain ⟨k, hk⟩ := exists_period_of_dvd hend
  have hmul : (k + 1) * checker.period = k * checker.period + checker.period := Nat.succ_mul k _
  have hself : t.ancestor pindex ((k + 1) * checker.period - 1) = some pindex :=
    ancestor_eq_some.mpr ⟨.refl pindex, by omega⟩
  have hprev : checker.bip9 t (t.getAncestor pindex (t.height pindex - checker.period)) =
      checker.bip9Period t pindex k := by
    cases hanc : t.getAncestor pindex (t.height pindex - checker.period) with
    | some a =>
      obtain ⟨ha, hheight⟩ := TimedTree.getAncestor_eq_some.mp hanc
      exact bip9_eq_bip9Period ha (by omega)
    | none =>
      rw [eq_zero_of_getAncestor_eq_none hk hanc]
      rfl
  rw [bip9_eq_bip9Period (.refl pindex) hk, bip9Period, hself, hprev]

theorem bip9Period_succ (h : (k + 1) * checker.period ≤ t.height pindex + 1) :
    ∃ last, t.IsAncestor last pindex ∧ t.height last + 1 = (k + 1) * checker.period ∧
      checker.bip9Period t pindex (k + 1) =
        checker.afterPeriod t (checker.bip9Period t pindex k) last := by
  have hpos : 0 < (k + 1) * checker.period := Nat.mul_pos (Nat.succ_pos k) checker.period_pos
  obtain ⟨last, hanc, hheight⟩ := exists_ancestor
    (show (k + 1) * checker.period - 1 ≤ t.height pindex by omega)
  refine ⟨last, hanc, by omega, ?_⟩
  rw [bip9Period, ancestor_eq_some.mpr ⟨hanc, hheight⟩]

theorem periodOf_mul_le (pindex : ι) :
    checker.periodOf t pindex * checker.period ≤ t.height pindex + 1 := Nat.div_mul_le_self _ _

theorem bip9Period_of_le {S : ThresholdState → Prop}
    (hkeep : ∀ state last, S state → S (checker.afterPeriod t state last)) {k n : Nat} (hle : k ≤ n)
    (hn : n * checker.period ≤ t.height pindex + 1) (h : S (checker.bip9Period t pindex k)) :
    S (checker.bip9Period t pindex n) := by
  induction n, hle using Nat.le_induction with
  | base => exact h
  | succ n hle ih =>
    obtain ⟨last, -, -, hsucc⟩ := bip9Period_succ hn
    rw [hsucc]
    exact hkeep _ _ (ih ((Nat.mul_le_mul_right _ (Nat.le_succ n)).trans hn))

theorem afterPeriod_ne_defined {last : ι} (h : state ≠ DEFINED) :
    checker.afterPeriod t state last ≠ DEFINED := by
  cases state with
  | DEFINED => exact absurd rfl h
  | STARTED =>
    simp only [afterPeriod]
    split_ifs <;> simp
  | LOCKED_IN => simp [afterPeriod]
  | ACTIVE => simp [afterPeriod]
  | FAILED => simp [afterPeriod]

theorem bip9_eq_of_periodOf_eq (ha : t.IsAncestor a i)
    (h : checker.periodOf t a = checker.periodOf t i) :
    checker.bip9 t (some a) = checker.bip9 t (some i) := by
  rw [bip9, bip9, elim_some, elim_some, ← h]
  exact bip9Period_eq_of_isAncestor ha (periodOf_mul_le a)

theorem bip9_of_isAncestor (hkeep : ∀ last, checker.afterPeriod t state last = state)
    (ha : t.IsAncestor a i) (h : checker.bip9 t (some a) = state) :
    checker.bip9 t (some i) = state := by
  have hle : checker.periodOf t a ≤ checker.periodOf t i :=
    Nat.div_le_div_right (Nat.succ_le_succ ha.height_le)
  refine bip9Period_of_le (S := (· = state)) ?_ hle (periodOf_mul_le i) ?_
  · rintro _ last rfl
    exact hkeep last
  · rw [← bip9Period_eq_of_isAncestor ha (periodOf_mul_le a)]
    exact h

/-! ## Counting back -/

variable (checker) in
theorem countBack_eq {n : Nat} (h : n ≤ t.height pindex + 1) :
    checker.countBack t n (some pindex) = .ok ((List.range n).countP fun d =>
      (t.ancestor pindex (t.height pindex - d)).any checker.condition) := by
  induction n generalizing pindex with
  | zero => rfl
  | succ n ih =>
    have hself : t.ancestor pindex (t.height pindex) = some pindex :=
      ancestor_eq_some.mpr ⟨.refl pindex, rfl⟩
    rw [range_succ_eq_map, countP_cons, countP_map, countBack]
    simp only [Nat.sub_zero, hself, any_some]
    cases n with
    | zero => simp [countBack]
    | succ n =>
      obtain ⟨pprev, hpprev⟩ := exists_parent (t := t.toAncestry) (i := pindex)
        (by omega)
      have hheight := t.height_parent hpprev
      rw [hpprev, ih (by omega)]
      have hcount : ∀ d, t.ancestor pprev (t.height pprev - d) =
          t.ancestor pindex (t.height pindex - (d + 1)) := by
        intro d
        rw [hheight, Nat.add_sub_add_right]
        exact (Ancestry.IsAncestor.of_parent hpprev).ancestor_eq (Nat.sub_le _ _)
      simp only [hcount]
      rfl

theorem stateNext_eq (h : checker.period ≤ t.height pindex + 1) :
    checker.stateNext t state pindex = .ok (checker.afterPeriod t state pindex) := by
  have hcount := countBack_eq checker h
  cases state with
  | STARTED =>
    simp only [stateNext, afterPeriod, hcount]
    split
    · rfl
    · rfl
  | DEFINED =>
    simp only [stateNext, afterPeriod]
    split
    · rfl
    · split <;> rfl
  | LOCKED_IN => rfl
  | ACTIVE => rfl
  | FAILED => rfl

/-! ## The shortcut of the walk back -/

def NoEarlyTimeout (checker : AbstractThresholdConditionChecker ι) (t : TimedTree ι) : Prop :=
  ∀ pindex, checker.period ∣ t.height pindex + 1 →
    t.medianTimePast pindex < checker.beginTime → t.medianTimePast pindex < checker.endTime

theorem noEarlyTimeout_of_le (h : checker.beginTime ≤ checker.endTime) :
    checker.NoEarlyTimeout t := fun _ _ hlt => lt_of_lt_of_le hlt h

theorem bip9Period_eq_defined (hgap : checker.NoEarlyTimeout t)
    (hbefore : t.medianTimePast pindex < checker.beginTime) (k : Nat) :
    checker.bip9Period t pindex k = DEFINED := by
  induction k with
  | zero => rfl
  | succ k ih =>
    rw [bip9Period, ih]
    cases hlast : t.ancestor pindex ((k + 1) * checker.period - 1) with
    | none => rfl
    | some last =>
      obtain ⟨hanc, hheight⟩ := ancestor_eq_some.mp hlast
      have hpos : 0 < (k + 1) * checker.period :=
        Nat.mul_pos (Nat.succ_pos k) checker.period_pos
      have hend : checker.period ∣ t.height last + 1 := ⟨k + 1, by
        rw [Nat.mul_comm]
        omega⟩
      have hstart := lt_of_le_of_lt (TimedTree.medianTimePast_mono hanc) hbefore
      have htimeout := hgap last hend hstart
      simp only [afterPeriod, if_neg (not_le.mpr htimeout), if_neg (not_le.mpr hstart)]

/-! ## The cache -/

variable [DecidableEq ι]

def CacheOK (checker : AbstractThresholdConditionChecker ι) (t : TimedTree ι)
    (cache : ThresholdConditionCache ι) : Prop :=
  ∀ pindexPrev state, cache.lookup pindexPrev = some state → state = checker.bip9 t pindexPrev

theorem cacheOK_empty : checker.CacheOK t ∅ := by
  intro pindexPrev state h
  simp at h

theorem CacheOK.insert (h : checker.CacheOK t cache) (pindexPrev : Option ι) :
    checker.CacheOK t (cache.insert pindexPrev (checker.bip9 t pindexPrev)) := by
  intro p state hlookup
  rcases AssocMap.of_lookup_insert hlookup with ⟨rfl, rfl⟩ | ⟨-, hlookup⟩
  · rfl
  · exact h p state hlookup

/-- `vToCompute` leads from `pindexPrev`, period end by period end, to `target`. -/
def Leads (checker : AbstractThresholdConditionChecker ι) (t : TimedTree ι) :
    Option ι → List ι → Option ι → Prop
  | pindexPrev, [], target => pindexPrev = target
  | pindexPrev, pindex :: vToCompute, target =>
    checker.period ∣ t.height pindex + 1 ∧
      t.getAncestor pindex (t.height pindex - checker.period) = pindexPrev ∧
      Leads checker t (some pindex) vToCompute target

def IsPeriodEnd (checker : AbstractThresholdConditionChecker ι) (t : TimedTree ι)
    (pindexPrev : Option ι) : Prop :=
  ∀ pindex, pindexPrev = some pindex → checker.period ∣ t.height pindex + 1

omit [DecidableEq ι] in
theorem isPeriodEnd_periodEnd (pindexPrev : Option ι) :
    checker.IsPeriodEnd t (checker.periodEnd t pindexPrev) := by
  intro last hlast
  cases pindexPrev with
  | none => cases hlast
  | some pindex =>
    rcases periodEnd_cases checker t pindex with
      ⟨hnone, -⟩ | ⟨last', hlast', -, hheight⟩
    · simp [hnone] at hlast
    · rw [hlast', Option.some.injEq] at hlast
      exact hlast ▸ ⟨_, hheight.trans (Nat.mul_comm _ _)⟩

omit [DecidableEq ι] in
theorem isPeriodEnd_previous (hend : checker.period ∣ t.height pindex + 1) :
    checker.IsPeriodEnd t (t.getAncestor pindex (t.height pindex - checker.period)) := by
  intro a ha
  obtain ⟨-, hheight⟩ := TimedTree.getAncestor_eq_some.mp ha
  have hsum : t.height a + 1 + checker.period = t.height pindex + 1 := by omega
  exact (Nat.dvd_add_left (dvd_refl _)).mp (hsum ▸ hend)

omit [DecidableEq ι] in
variable (checker t) in
theorem walkLimit_previous (pindex : ι) :
    walkLimit t (t.getAncestor pindex (t.height pindex - checker.period)) <
      walkLimit t (some pindex) := by
  have hpos := checker.period_pos
  cases h : t.getAncestor pindex (t.height pindex - checker.period) with
  | none => simp [walkLimit]
  | some a =>
    obtain ⟨-, hheight⟩ := TimedTree.getAncestor_eq_some.mp h
    simp only [walkLimit, elim_some]
    omega

theorem walkBack_spec (hgap : checker.NoEarlyTimeout t) {target : Option ι} :
    ∀ {fuel : Nat} {cache : ThresholdConditionCache ι} {pindexPrev : Option ι}
      {vToCompute : List ι}, walkLimit t pindexPrev ≤ fuel → checker.CacheOK t cache →
      checker.IsPeriodEnd t pindexPrev → checker.Leads t pindexPrev vToCompute target →
      ∃ cache' pindexPrev' vToCompute',
        checker.walkBack t fuel cache pindexPrev vToCompute =
          (cache', pindexPrev', vToCompute') ∧ checker.CacheOK t cache' ∧
        cache'.lookup pindexPrev' = some (checker.bip9 t pindexPrev') ∧
        checker.Leads t pindexPrev' vToCompute' target := by
  intro fuel
  induction fuel with
  | zero =>
    intro cache pindexPrev vToCompute hfuel
    simp [walkLimit] at hfuel
  | succ fuel ih =>
    intro cache pindexPrev vToCompute hfuel hcache hend hleads
    unfold walkBack
    split
    case isTrue hsome =>
      obtain ⟨state, hstate⟩ := isSome_iff_exists.mp hsome
      exact ⟨_, _, _, rfl, hcache, by rw [hstate, hcache _ _ hstate], hleads⟩
    case isFalse =>
      cases pindexPrev with
      | none =>
        exact ⟨_, _, _, rfl, hcache.insert none, AList.lookup_insert _, hleads⟩
      | some pindex =>
        dsimp only
        split
        case isTrue hbefore =>
          have hdefined : checker.bip9 t (some pindex) = DEFINED :=
            bip9Period_eq_defined hgap hbefore _
          rw [← hdefined]
          exact ⟨_, _, _, rfl, hcache.insert (some pindex), AList.lookup_insert _, hleads⟩
        case isFalse =>
          have hlast := hend pindex rfl
          exact ih (by have := walkLimit_previous checker t pindex; omega)
            hcache (isPeriodEnd_previous hlast) ⟨hlast, rfl, hleads⟩

theorem walkForward_spec {vToCompute : List ι} {pindexPrev target : Option ι}
    (hcache : checker.CacheOK t cache) (hleads : checker.Leads t pindexPrev vToCompute target) :
    ∃ cache', checker.walkForward t vToCompute (checker.bip9 t pindexPrev) cache =
      .ok (checker.bip9 t target, cache') ∧ checker.CacheOK t cache' := by
  induction vToCompute generalizing pindexPrev cache with
  | nil =>
    cases hleads
    exact ⟨cache, rfl, hcache⟩
  | cons pindex vToCompute ih =>
    obtain ⟨hend, rfl, hleads⟩ := hleads
    have hle := Nat.le_of_dvd (Nat.succ_pos _) hend
    obtain ⟨cache', hrun, hcache'⟩ := ih (hcache.insert (some pindex)) hleads
    refine ⟨cache', ?_, hcache'⟩
    rw [walkForward, stateNext_eq hle, ← bip9_step hend]
    exact hrun

/-! ## A timeout before the start -/

omit [DecidableEq ι] in
theorem bip9Period_before_start (hbefore : t.medianTimePast pindex < checker.beginTime) (k : Nat) :
    checker.bip9Period t pindex k = DEFINED ∨ checker.bip9Period t pindex k = FAILED := by
  induction k with
  | zero => exact .inl rfl
  | succ k ih =>
    rw [bip9Period]
    cases hlast : t.ancestor pindex ((k + 1) * checker.period - 1) with
    | none => exact .inl rfl
    | some last =>
      obtain ⟨hanc, -⟩ := ancestor_eq_some.mp hlast
      have hstart := lt_of_le_of_lt (TimedTree.medianTimePast_mono hanc) hbefore
      rcases ih with ih | ih
      · simp only [ih, afterPeriod, if_neg (not_le.mpr hstart)]
        split <;> simp
      · simp [ih, afterPeriod]

/-- The condition on the timeout cannot be dropped: at a period end that violates it the
walk back stops at once, where the recursion has failed. -/
theorem getStateFor_of_early_timeout (hstart : checker.beginTime ≠ ALWAYS_ACTIVE)
    (hend : checker.period ∣ t.height pindex + 1)
    (htimeout : checker.endTime ≤ t.medianTimePast pindex)
    (hbefore : t.medianTimePast pindex < checker.beginTime) :
    (∃ cache, checker.getStateFor t (some pindex) ∅ = .ok (DEFINED, cache)) ∧
      checker.bip9 t (some pindex) = FAILED := by
  constructor
  · have hself : checker.periodEnd t (some pindex) = some pindex := by
      rw [periodEnd, bind_some, Nat.mod_eq_zero_of_dvd hend]
      exact TimedTree.getAncestor_eq_some.mpr ⟨.refl pindex, by simp⟩
    refine ⟨(∅ : ThresholdConditionCache ι).insert (some pindex) DEFINED, ?_⟩
    rw [getStateFor, if_neg hstart]
    dsimp only
    rw [hself, walkLimit, walkBack, if_neg (by simp), if_pos hbefore]
    simp only [AList.lookup_insert]
    rfl
  · obtain ⟨k, hk⟩ := exists_period_of_dvd hend
    have hself : t.ancestor pindex ((k + 1) * checker.period - 1) = some pindex :=
      ancestor_eq_some.mpr ⟨.refl pindex, by rw [← hk]; rfl⟩
    rw [bip9_eq_bip9Period (.refl pindex) hk, bip9Period, hself]
    rcases bip9Period_before_start hbefore k with hstate | hstate
    · simp [hstate, afterPeriod, htimeout]
    · simp [hstate, afterPeriod]

/-! ## States read through the cache -/

section

variable (hstart : checker.beginTime ≠ ALWAYS_ACTIVE) (hgap : checker.NoEarlyTimeout t)
  (hcache : checker.CacheOK t cache)

include hstart hgap

include hcache in
theorem getStateFor_spec (pindexPrev : Option ι) :
    ∃ cache', checker.getStateFor t pindexPrev cache =
      .ok (checker.bip9 t pindexPrev, cache') ∧ checker.CacheOK t cache' := by
  obtain ⟨cache₁, p, v, hwalk, hcache₁, hlookup, hleads⟩ :=
    walkBack_spec hgap le_rfl hcache (isPeriodEnd_periodEnd pindexPrev)
      (show checker.Leads t _ [] (checker.periodEnd t pindexPrev) from rfl)
  obtain ⟨cache', hrun, hcache'⟩ := walkForward_spec hcache₁ hleads
  refine ⟨cache', ?_, hcache'⟩
  rw [bip9_periodEnd] at hrun
  rw [getStateFor, if_neg hstart]
  dsimp only
  rw [hwalk]
  dsimp only
  rw [hlookup]
  exact hrun

/-! ## The height since which a state holds -/

theorem sinceLoop_spec {initialState : ThresholdState} (hinitial : initialState ≠ DEFINED)
    {n : Nat} :
    ∀ {fuel : Nat} {last : ι} {first : Nat} {cache : ThresholdConditionCache ι},
      t.height last < fuel → checker.CacheOK t cache → t.IsAncestor last pindex →
      t.height last + 1 = first * checker.period → first ≤ n →
      (∀ k, first ≤ k → k ≤ n → checker.bip9Period t pindex k = initialState) →
      ∃ last' first' cache', checker.sinceLoop t initialState fuel last
          (t.getAncestor last (t.height last - checker.period)) cache = .ok (last', cache') ∧
        checker.CacheOK t cache' ∧ t.height last' + 1 = first' * checker.period ∧ first' ≤ n ∧
        (∀ k, first' ≤ k → k ≤ n → checker.bip9Period t pindex k = initialState) ∧
        checker.bip9Period t pindex (first' - 1) ≠ initialState := by
  intro fuel
  induction fuel with
  | zero =>
    intro last first cache hfuel
    omega
  | succ fuel ih =>
    intro last first cache hfuel hcache hanc hheight hle hrun
    have hpos := checker.period_pos
    cases first with
    | zero => omega
    | succ first =>
    have hmul : (first + 1) * checker.period = first * checker.period + checker.period :=
      Nat.succ_mul first _
    cases hprev : t.getAncestor last (t.height last - checker.period) with
    | none =>
      obtain rfl : first = 0 := eq_zero_of_getAncestor_eq_none hheight hprev
      exact ⟨last, 1, cache, rfl, hcache, hheight, hle, hrun, hinitial.symm⟩
    | some previous =>
      obtain ⟨hancPrev, hheightPrev⟩ := TimedTree.getAncestor_eq_some.mp hprev
      have hclose : t.height previous + 1 = first * checker.period := by omega
      obtain ⟨cache₁, hstate, hcache₁⟩ :=
        getStateFor_spec hstart hgap hcache (some previous)
      rw [bip9_eq_bip9Period (hancPrev.trans hanc) hclose] at hstate
      rw [sinceLoop, hstate]
      by_cases hsame : checker.bip9Period t pindex first = initialState
      · have hrun' : ∀ k, first ≤ k → k ≤ n → checker.bip9Period t pindex k = initialState := by
          intro k hk hkn
          rcases Nat.lt_or_eq_of_le hk with hlt | rfl
          · exact hrun k hlt hkn
          · exact hsame
        obtain ⟨last', first', cache', hloop, hspec⟩ :=
          ih (by omega) hcache₁ (hancPrev.trans hanc) hclose (by omega) hrun'
        exact ⟨last', first', cache', (if_pos hsame).trans hloop, hspec⟩
      · exact ⟨last, first + 1, cache₁, if_neg hsame, hcache₁, hheight, hle, hrun, hsame⟩

include hcache

theorem getStateSinceHeightFor_spec (pindexPrev : Option ι) :
    ∃ height cache', checker.getStateSinceHeightFor t pindexPrev cache = .ok (height, cache') ∧
      checker.CacheOK t cache' ∧ checker.IsSinceHeight t pindexPrev height := by
  obtain ⟨cache₁, hstate, hcache₁⟩ := getStateFor_spec hstart hgap hcache pindexPrev
  rw [getStateSinceHeightFor, if_neg hstart, hstate]
  cases pindexPrev with
  | none => exact ⟨0, cache₁, rfl, hcache₁, rfl⟩
  | some pindex =>
    by_cases hdefined : checker.bip9 t (some pindex) = DEFINED
    · refine ⟨0, cache₁, if_pos hdefined, hcache₁, 0, Nat.zero_le _, (Nat.zero_mul _).symm, ?_,
        .inl rfl⟩
      intro k _ hk
      rw [hdefined]
      by_contra hne
      exact bip9Period_of_le (S := (· ≠ DEFINED)) (fun _ _ => afterPeriod_ne_defined) hk
        (periodOf_mul_le pindex) hne hdefined
    · rcases periodEnd_cases checker t pindex with
        ⟨-, hperiod⟩ | ⟨last, hlast, hanc, hheight⟩
      · rw [bip9, elim_some, hperiod] at hdefined
        exact absurd rfl hdefined
      · obtain ⟨last', first, cache', hloop, hcache', hclose, hle, hrun, hbreak⟩ :=
          sinceLoop_spec hstart hgap hdefined (Nat.lt_succ_self (t.height last))
            hcache₁ hanc hheight le_rfl fun k hk hkn => by
              rw [Nat.le_antisymm hkn hk]
              rfl
        refine ⟨t.height last' + 1, cache', ?_, hcache', first, hle, hclose, hrun, .inr hbreak⟩
        refine (if_neg hdefined).trans ?_
        simp only [hlast, hloop]
        rfl

/-! ## Queries that share a cache -/

inductive Query (ι : Type) where
  | getStateFor (pindexPrev : Option ι)
  | getStateSinceHeightFor (pindexPrev : Option ι)

inductive Answer where
  | state (state : ThresholdState)
  | sinceHeight (height : Nat)
  deriving DecidableEq

def answer (checker : AbstractThresholdConditionChecker ι) (t : TimedTree ι)
    (cache : ThresholdConditionCache ι) :
    Query ι → Except Failure (Answer × ThresholdConditionCache ι)
  | .getStateFor pindexPrev =>
    (checker.getStateFor t pindexPrev cache).map (Prod.map .state id)
  | .getStateSinceHeightFor pindexPrev =>
    (checker.getStateSinceHeightFor t pindexPrev cache).map (Prod.map .sinceHeight id)

def answers (checker : AbstractThresholdConditionChecker ι) (t : TimedTree ι) :
    List (Query ι) → ThresholdConditionCache ι → Except Failure (List Answer)
  | [], _ => .ok []
  | query :: queries, cache => do
    let (answer, cache) ← checker.answer t cache query
    let answers ← answers checker t queries cache
    return answer :: answers

def FollowsBip9 (checker : AbstractThresholdConditionChecker ι) (t : TimedTree ι) :
    Query ι → Answer → Prop
  | .getStateFor pindexPrev, answer => answer = .state (checker.bip9 t pindexPrev)
  | .getStateSinceHeightFor pindexPrev, answer =>
    ∃ height, answer = .sinceHeight height ∧ checker.IsSinceHeight t pindexPrev height

theorem answer_spec (query : Query ι) :
    ∃ answer cache', checker.answer t cache query = .ok (answer, cache') ∧
      checker.CacheOK t cache' ∧ checker.FollowsBip9 t query answer := by
  cases query with
  | getStateFor pindexPrev =>
    obtain ⟨cache', hstate, hcache'⟩ := getStateFor_spec hstart hgap hcache pindexPrev
    exact ⟨_, cache', by rw [answer, hstate]; rfl, hcache', rfl⟩
  | getStateSinceHeightFor pindexPrev =>
    obtain ⟨height, cache', hrun, hcache', hsince⟩ :=
      getStateSinceHeightFor_spec hstart hgap hcache pindexPrev
    exact ⟨_, cache', by rw [answer, hrun]; rfl, hcache', height, rfl, hsince⟩

theorem answers_spec (queries : List (Query ι)) :
    ∃ answers, checker.answers t queries cache = .ok answers ∧
      List.Forall₂ (checker.FollowsBip9 t) queries answers := by
  induction queries generalizing cache with
  | nil => exact ⟨[], rfl, .nil⟩
  | cons query queries ih =>
    obtain ⟨answer, cache', hanswer, hcache', hfollows⟩ := answer_spec hstart hgap hcache query
    obtain ⟨rest, hrest, hall⟩ := ih hcache'
    exact ⟨answer :: rest, by rw [answers, hanswer]; simp only [bind, Except.bind, hrest]; rfl,
      .cons hfollows hall⟩

end

/-- Unless a period ends between the timeout and a later start, every query over one cache
follows BIP 9, and the terminal states are never left. -/
theorem queries_follow_bip9 (checker : AbstractThresholdConditionChecker ι) (t : TimedTree ι)
    (hstart : checker.beginTime ≠ ALWAYS_ACTIVE) (hgap : checker.NoEarlyTimeout t) :
    (∀ queries, ∃ answers, checker.answers t queries ∅ = .ok answers ∧
      List.Forall₂ (checker.FollowsBip9 t) queries answers) ∧
    (∀ a i, t.IsAncestor a i → checker.periodOf t a = checker.periodOf t i →
      checker.bip9 t (some a) = checker.bip9 t (some i)) ∧
    (∀ a i, t.IsAncestor a i → ∀ state, state = ACTIVE ∨ state = FAILED →
      checker.bip9 t (some a) = state → checker.bip9 t (some i) = state) := by
  refine ⟨fun queries => answers_spec hstart hgap cacheOK_empty queries,
    fun a i => bip9_eq_of_periodOf_eq, ?_⟩
  intro a i ha state hstate
  refine bip9_of_isAncestor (fun last => ?_) ha
  rcases hstate with rfl | rfl <;> rfl

end AbstractThresholdConditionChecker

/-! ## Sample trees -/

def headerAt (nTime : Nat) : CBlockHeader := ⟨4, 0, 0, nTime, 1, 0, 0⟩

def sixBlocks : TimedTree (Fin 6) where
  root := 0
  parent i := if i = 0 then none else some (i - 1)
  height i := i.val
  header i := headerAt (10 * (i.val + 1))
  parent_eq_none := by decide
  height_root := by decide
  height_parent := by decide
  time_after := by decide +kernel

def everyBlockSignals (beginTime endTime : Int) (period : Nat) (h : 0 < period) :
    AbstractThresholdConditionChecker (Fin 6) := ⟨fun _ => true, beginTime, endTime, period, 2, h⟩

theorem queries_follow_bip9_sixBlocks :
    ((everyBlockSignals 15 1000 2 (by decide)).bip9 sixBlocks (some 5) = .ACTIVE) ∧
    ∃ answers, (everyBlockSignals 15 1000 2 (by decide)).answers sixBlocks
        [.getStateFor (some 4), .getStateSinceHeightFor (some 5), .getStateFor (some 1)] ∅ =
          .ok answers ∧
      List.Forall₂ ((everyBlockSignals 15 1000 2 (by decide)).FollowsBip9 sixBlocks)
        [.getStateFor (some 4), .getStateSinceHeightFor (some 5), .getStateFor (some 1)]
        answers :=
  ⟨by decide +kernel,
    ((everyBlockSignals 15 1000 2 (by decide)).queries_follow_bip9 sixBlocks (by decide)
      (AbstractThresholdConditionChecker.noEarlyTimeout_of_le (by decide))).1 _⟩

/-- A timeout before the start is not seen as long as the start is ahead, and a
deployment that is always active is in no state of BIP 9. -/
theorem queries_differ_from_bip9 :
    ((everyBlockSignals 100 15 2 (by decide)).answers sixBlocks [.getStateFor (some 5)] ∅ =
        .ok [.state .DEFINED] ∧
      (everyBlockSignals 100 15 2 (by decide)).bip9 sixBlocks (some 5) = .FAILED) ∧
    ((everyBlockSignals ALWAYS_ACTIVE 1000 2 (by decide)).answers sixBlocks
        [.getStateFor none] ∅ = .ok [.state .ACTIVE] ∧
      (everyBlockSignals ALWAYS_ACTIVE 1000 2 (by decide)).bip9 sixBlocks none =
        .DEFINED) := by
  refine ⟨⟨?_, by decide +kernel⟩, ⟨rfl, rfl⟩⟩
  rfl

end Verge
