import Verge.Chain.ActivateBestChain

/-!
# The tip a call of `ActivateBestChain` leaves

A round may roll blocks back and then find that the branch it wanted is invalid.  The tip
it leaves is worse than the one it started from, and the call goes on until it is not.
The best tip seen so far, here called home, can be returned to as long as it stays a
candidate, no block of its chain is found invalid, and the tip does not leave the blocks
that the rollback limit of home protects.
-/

namespace Verge

open Foundation BlockTree
open scoped CChainState

variable {ι : Type} [LinearOrder ι] {t : BlockTree ι} {s s' s₀ : CChainState ι}
  {verdict : ι → Verdict}

namespace BlockTree

variable {home tip target i j x : ι} {fInvalidFound : Bool}

theorem allowed_of_isAncestor (h : t.IsAncestor tip i) :
    t.isAutomaticReorgAllowed tip i = true := by
  obtain ⟨p, hp, hheight⟩ := exists_protected t tip
  exact (isAutomaticReorgAllowed_iff hp hheight).mpr (hp.trans h)

section

variable (hkeeps : t.isAutomaticReorgAllowed home tip = true)

include hkeeps

theorem allowed_of_lower (hle : t.height tip ≤ t.height home)
    (hi : t.isAutomaticReorgAllowed home i = true) :
    t.isAutomaticReorgAllowed tip i = true := by
  obtain ⟨p, hp, hpheight⟩ := exists_protected t home
  obtain ⟨q, hq, hqheight⟩ := exists_protected t tip
  rw [isAutomaticReorgAllowed_iff hp hpheight] at hkeeps hi
  rw [isAutomaticReorgAllowed_iff hq hqheight]
  have hqp : t.height q ≤ t.height p := by
    rw [hqheight, hpheight]
    exact Nat.sub_le_sub_right hle _
  exact (hq.of_height_le hkeeps hqp).trans hi

theorem allowed_of_higher (hle : t.height home ≤ t.height tip)
    (hi : t.isAutomaticReorgAllowed tip i = true) :
    t.isAutomaticReorgAllowed home i = true := by
  obtain ⟨p, hp, hpheight⟩ := exists_protected t home
  obtain ⟨q, hq, hqheight⟩ := exists_protected t tip
  rw [isAutomaticReorgAllowed_iff hp hpheight] at hkeeps ⊢
  rw [isAutomaticReorgAllowed_iff hq hqheight] at hi
  have hpq : t.height p ≤ t.height q := by
    rw [hpheight, hqheight]
    exact Nat.sub_le_sub_right hle _
  exact (hkeeps.of_height_le hq hpq).trans hi

theorem protectedHeight_lt (hi : t.IsAncestor i home) (hchain : ¬t.IsAncestor i tip) :
    t.protectedHeight home < t.height i := by
  obtain ⟨p, hp, hpheight⟩ := exists_protected t home
  rw [isAutomaticReorgAllowed_iff hp hpheight] at hkeeps
  by_contra hle
  exact hchain ((hi.of_height_le hp (by omega)).trans hkeeps)

end

structure Aim (t : BlockTree ι) (s : CChainState ι) (target : ι) : Prop where
  mem : target ∈ s.setBlockIndexCandidates
  allowed : t.isAutomaticReorgAllowed s.tip target = true
  usable : ∀ i, t.IsAncestor i target → ¬t.IsAncestor i s.tip → Usable s i

theorem aim_of_findMostWorkChain (h : t.findMostWorkChain s = .ok (some target, s')) :
    t.Aim s' target := by
  have htarget := isTarget_of_findMostWorkLoop h
  exact ⟨htarget.mem, htarget.allowed, fun i hi hchain => htarget.usable i hi hchain⟩

theorem Aim.not_blocked (h : t.Aim s target) (hi : t.IsAncestor i target) : ¬t.Blocked s i := by
  rintro ⟨x, hx, hchain, hunusable⟩
  exact hunusable (h.usable x (hx.trans hi) hchain)

omit [LinearOrder ι] in
theorem SameEntries.usable_of_failed (h : SameEntries s s')
    (hfailed : (s'.entry i).failed = true → (s.entry i).failed = true) (hi : Usable s i) :
    Usable s' i := ⟨unfailed_of_imp hfailed hi.1, (h i).2.2.trans hi.2⟩

namespace Connected

theorem usable_of_not_isAncestor (h : Connected t verdict s target fInvalidFound s')
    (haim : t.Aim s target) (hi : t.IsAncestor i s'.tip) (hchain : ¬t.IsAncestor i s.tip) :
    Usable s i := haim.usable i (hi.trans h.below) hchain

theorem blocked (h : Connected t verdict s target fInvalidFound s') (haim : t.Aim s target)
    (hi : t.Blocked s i) : t.Blocked s' i := by
  obtain ⟨x, hx, hchain, hunusable⟩ := hi
  refine ⟨x, hx, fun hx' => hunusable (h.usable_of_not_isAncestor haim hx' hchain), fun hu => ?_⟩
  exact hunusable ⟨unfailed_of_imp (h.failed x) hu.1, (h.same x).2.2 ▸ hu.2⟩

omit [LinearOrder ι] in
theorem blocked_of_invalid (hparent : t.parent x = some s'.tip)
    (hfailed : (s'.entry x).failed = true) (hi : t.IsAncestor x i) : t.Blocked s' i := by
  refine ⟨x, hi, not_isAncestor_of_parent hparent, fun hu => ?_⟩
  rw [hu.1] at hfailed
  cases hfailed

theorem aim (h : Connected t verdict s target false s') (haim : t.Aim s target) :
    t.Aim s' target where
  mem := by
    by_contra herased
    rcases h.erased target haim.mem herased with hlt | ⟨hfalse, -⟩
    · exact absurd (rank_le_of_isAncestor h.below) (not_le.mpr hlt)
    · cases hfalse
  allowed := allowed_of_isAncestor h.below
  usable := by
    intro i hi hchain
    have hold : ¬t.IsAncestor i s.tip := fun hi' => hchain (h.common i hi' hi)
    refine h.same.usable_of_failed (fun hfail => ?_) (haim.usable i hi hold)
    rcases h.marked i hfail with hbefore | ⟨hfalse, -⟩
    · exact hbefore
    · cases hfalse

end Connected

structure Anchored (t : BlockTree ι) (home : ι) (s : CChainState ι) : Prop where
  le : t.rank s s.tip ≤ t.rank s home
  mem : home ∈ s.setBlockIndexCandidates
  keeps : t.isAutomaticReorgAllowed home s.tip = true
  usable : ∀ i, t.IsAncestor i home ∨ t.IsAncestor i s.tip →
    t.protectedHeight home < t.height i → Usable s i
  closed : ∀ c ∈ s.setBlockIndexCandidates, ¬t.Blocked s c →
    t.isAutomaticReorgAllowed home c = true → ∀ i, t.IsAncestor i c →
      t.rank s home ≤ t.rank s i → i ∈ s.setBlockIndexCandidates

namespace Anchored

theorem usable_home (h : t.Anchored home s) (hi : t.IsAncestor i home)
    (hchain : ¬t.IsAncestor i s.tip) : Usable s i :=
  h.usable i (.inl hi) (protectedHeight_lt h.keeps hi hchain)

theorem usableCandidate (h : t.Anchored home s) : t.UsableCandidate s home := by
  refine ⟨h.mem, allowed_of_lower h.keeps (height_le_of_rank_le h.le)
    (allowed_of_isAncestor (.refl home)), ?_⟩
  rintro ⟨x, hx, hchain, hunusable⟩
  exact hunusable (h.usable_home hx hchain)

theorem searched (h : t.Anchored home s) (hs : Searched t s s') : t.Anchored home s' where
  le := by
    rw [hs.rank_eq, hs.tip]
    exact h.le
  mem := by
    by_contra herased
    exact hs.not_usableCandidate h.mem herased h.usableCandidate
  keeps := by
    rw [hs.tip]
    exact h.keeps
  usable := by
    intro i hi hheight
    rw [hs.tip] at hi
    have hbefore := h.usable i hi hheight
    refine hs.sameEntries.usable_of_failed (fun hfail => ?_) hbefore
    rcases hs.failed_before hfail with hfail | ⟨x, hx, -, hchain, hxfail⟩
    · exact hfail
    · -- the failed ancestor is outside the chain of the tip, so it is one of home
      rcases hi with hi | hi
      · have hxu := h.usable_home (hx.trans hi) hchain
        rw [hxu.1] at hxfail
        cases hxfail
      · exact absurd (hx.trans hi) hchain
  closed := by
    intro c hc hfree hallowed i hi hrank
    rw [hs.rank_eq] at hrank
    have hbefore : ¬t.Blocked s c := fun hblocked => hfree (hs.blocked_after hblocked)
    have hmem := h.closed c (hs.kept c hc) hbefore hallowed i hi hrank
    by_contra herased
    rcases hs.erased i hmem herased with hforbidden | ⟨x, hx, hchain, hunusable⟩
    · -- blocks as high as home on an allowed branch are allowed
      obtain ⟨p, hp, hpheight⟩ := exists_protected t home
      have hpi : t.IsAncestor p i := by
        refine ((isAutomaticReorgAllowed_iff hp hpheight).mp hallowed).of_height_le hi ?_
        exact hp.height_le.trans (height_le_of_rank_le hrank)
      have hpermitted := allowed_of_lower h.keeps (height_le_of_rank_le h.le)
        ((isAutomaticReorgAllowed_iff hp hpheight).mpr hpi)
      rw [hpermitted] at hforbidden
      cases hforbidden
    · exact hbefore ⟨x, hx.trans hi, hchain, hunusable⟩

section Step

variable (h : t.Anchored home s) (hstep : Connected t verdict s target fInvalidFound s')

include h hstep

theorem keeps_step (hallowed : t.isAutomaticReorgAllowed home target = true) :
    t.isAutomaticReorgAllowed home s'.tip = true := by
  obtain ⟨p, hp, hpheight⟩ := exists_protected t home
  rw [isAutomaticReorgAllowed_iff hp hpheight] at hallowed ⊢
  exact hstep.common p ((isAutomaticReorgAllowed_iff hp hpheight).mp h.keeps) hallowed

variable (haim : t.Aim s target)

include haim

theorem closed_step {c : ι} (hc : c ∈ s'.setBlockIndexCandidates) (hfree : ¬t.Blocked s' c)
    (hallowed : t.isAutomaticReorgAllowed home c = true) (hi : t.IsAncestor i c)
    (hhome : t.rank s home ≤ t.rank s i) (htip : t.rank s s'.tip ≤ t.rank s i) :
    i ∈ s'.setBlockIndexCandidates := by
  have hmem := h.closed c (hstep.kept c hc) (fun hblocked => hfree (hstep.blocked haim hblocked))
    hallowed i hi hhome
  by_contra herased
  rcases hstep.erased i hmem herased with hlt | ⟨-, hparent, -, hfailed⟩
  · exact absurd htip (not_le.mpr hlt)
  · exact hfree (Connected.blocked_of_invalid hparent hfailed hi)

variable (hfair : ∀ i, t.IsAncestor i home → ∀ c, verdict i ≠ .invalid c)

include hfair

theorem usable_step (hi : t.IsAncestor i home ∨ t.IsAncestor i s'.tip)
    (hheight : t.protectedHeight home < t.height i) : Usable s' i := by
  have hbefore : Usable s i := by
    rcases hi with hi | hi
    · exact h.usable i (.inl hi) hheight
    · by_cases hchain : t.IsAncestor i s.tip
      · exact h.usable i (.inr hchain) hheight
      · exact hstep.usable_of_not_isAncestor haim hi hchain
  refine hstep.same.usable_of_failed (fun hfail => ?_) hbefore
  rcases hstep.marked i hfail with hfail | ⟨-, hparent, hverdict⟩
  · exact hfail
  · rcases hi with hi | hi
    · exact absurd hverdict (hfair i hi false)
    · exact absurd hi (not_isAncestor_of_parent hparent)

variable (hallowed : t.isAutomaticReorgAllowed home target = true)

include hallowed

theorem step_stay (hworse : t.rank s s'.tip < t.rank s home) : t.Anchored home s' where
  le := by
    rw [hstep.same.rank_eq]
    exact hworse.le
  mem := by
    by_contra herased
    rcases hstep.erased home h.mem herased with hlt | ⟨-, -, hverdict, -⟩
    · exact absurd hworse (not_lt.mpr hlt.le)
    · exact hfair home (.refl home) false hverdict
  keeps := h.keeps_step hstep hallowed
  usable _ hi hheight := h.usable_step hstep haim hfair hi hheight
  closed := by
    intro c hc hfree hc' i hi hrank
    rw [hstep.same.rank_eq] at hrank
    exact h.closed_step hstep haim hc hfree hc' hi hrank (hworse.le.trans hrank)

theorem step_move (hbetter : t.rank s home ≤ t.rank s s'.tip) : t.Anchored s'.tip s' where
  le := le_rfl
  mem := by
    have hmem := h.closed target haim.mem (haim.not_blocked (.refl target)) hallowed s'.tip
      hstep.below hbetter
    by_contra herased
    rcases hstep.erased s'.tip hmem herased with hlt | ⟨-, hparent, -⟩
    · exact absurd hlt (lt_irrefl _)
    · exact not_isAncestor_of_parent hparent (.refl s'.tip)
  keeps := allowed_of_isAncestor (.refl s'.tip)
  usable := by
    intro i hi hheight
    have hi : t.IsAncestor i s'.tip := hi.elim id id
    refine h.usable_step hstep haim hfair (.inr hi) (lt_of_le_of_lt ?_ hheight)
    exact Nat.sub_le_sub_right (height_le_of_rank_le hbetter) _
  closed := by
    intro c hc hfree hc' i hi hrank
    rw [hstep.same.rank_eq] at hrank
    have hc' := allowed_of_higher (h.keeps_step hstep hallowed) (height_le_of_rank_le hbetter) hc'
    exact h.closed_step hstep haim hc hfree hc' hi (hbetter.trans hrank) hrank

end Step

end Anchored

end BlockTree

namespace Activation

variable {a b : Activation ι}

def home (a : Activation ι) : ι := if a.phase = .locked then a.startingTip else a.state.tip

omit [LinearOrder ι] in
theorem home_of_locked (h : a.phase = .locked) : a.home = a.startingTip := if_pos h

omit [LinearOrder ι] in
theorem home_of_not_locked (h : a.phase ≠ .locked) : a.home = a.state.tip := if_neg h

/-- No block of the chain on which the inner loop started is found invalid, and the limit
of that chain allows the target. -/
structure Fair (t : BlockTree ι) (verdict : ι → Verdict) (a : Activation ι) : Prop where
  valid : ∀ i, t.IsAncestor i a.startingTip → ∀ corruptionPossible,
    verdict i ≠ .invalid corruptionPossible
  allowed : ∀ target s, a.chooseTarget t = .ok (some target, s) →
    t.isAutomaticReorgAllowed a.startingTip target = true

/-- The cached target leads on from the tip, and it is no worse than home and within its
limit. -/
structure Cached (t : BlockTree ι) (home : ι) (s : CChainState ι) (target : ι) : Prop where
  aim : t.Aim s target
  above : t.IsAncestor s.tip target
  allowed : t.isAutomaticReorgAllowed home target = true
  le : t.rank s home ≤ t.rank s target

theorem cached_tip {target : ι} (haim : t.Aim s target) (h : t.IsAncestor s.tip target) :
    Cached t s.tip s target :=
  ⟨haim, h, allowed_of_isAncestor h, rank_le_of_isAncestor h⟩

structure OnCourse (t : BlockTree ι) (s₀ : CChainState ι) (a : Activation ι) : Prop where
  same : BlockTree.SameEntries s₀ a.state
  le : t.rank s₀ s₀.tip ≤ t.rank s₀ a.home
  anchored : t.Anchored a.home a.state
  cached : ∀ target, a.pindexMostWork = some target → Cached t a.home a.state target

namespace OnCourse

theorem start (h : t.Anchored s.tip s) : OnCourse t s (.start s) where
  same := .refl s
  le := le_rfl
  anchored := h
  cached := fun target htarget => by cases htarget

theorem of_not_locked (hphase : a.phase ≠ .locked) (hsame : BlockTree.SameEntries s₀ a.state)
    (hle : t.rank s₀ s₀.tip ≤ t.rank s₀ a.state.tip) (hanchored : t.Anchored a.state.tip a.state)
    (hcached : ∀ target, a.pindexMostWork = some target → Cached t a.state.tip a.state target) :
    OnCourse t s₀ a := by
  have hhome := home_of_not_locked hphase
  exact ⟨hsame, hhome ▸ hle, hhome ▸ hanchored, hhome ▸ hcached⟩

theorem of_locked (hphase : a.phase = .locked) (hsame : BlockTree.SameEntries s₀ a.state)
    (hle : t.rank s₀ s₀.tip ≤ t.rank s₀ a.startingTip)
    (hanchored : t.Anchored a.startingTip a.state)
    (hcached : ∀ target, a.pindexMostWork = some target → Cached t a.startingTip a.state target) :
    OnCourse t s₀ a := by
  have hhome := home_of_locked hphase
  exact ⟨hsame, hhome ▸ hle, hhome ▸ hanchored, hhome ▸ hcached⟩

theorem choose {found : Option ι} (h : OnCourse t s₀ a) (hphase : a.phase = .locked)
    (hchoose : a.chooseTarget t = .ok (found, s)) :
    BlockTree.SameEntries s₀ s ∧ t.Anchored a.startingTip s ∧
      ∃ target, found = some target ∧ t.Aim s target ∧
        t.rank s a.startingTip ≤ t.rank s target := by
  have hanchored := h.anchored
  have hcached := h.cached
  rw [home_of_locked hphase] at hanchored hcached
  unfold chooseTarget at hchoose
  split at hchoose
  case h_1 target htarget =>
    cases hchoose
    have hc := hcached target htarget
    exact ⟨h.same, hanchored, target, rfl, hc.aim, hc.le⟩
  case h_2 =>
    have hsearched := searched_findMostWorkLoop hchoose
    have hafter := hanchored.searched hsearched
    refine ⟨h.same.trans hsearched.sameEntries, hafter, ?_⟩
    cases found with
    | none =>
      have hempty := candidates_eq_nil_of_findMostWorkLoop (le_refl _) hchoose
      have hmem := hafter.mem
      rw [hempty] at hmem
      cases hmem
    | some target =>
      refine ⟨target, rfl, aim_of_findMostWorkChain hchoose, ?_⟩
      exact (isTarget_of_findMostWorkLoop hchoose).best _ hafter.mem

theorem move (h : OnCourse t s₀ a) (hfair : a.phase = .locked → a.Fair t verdict)
    (hmove : Move t verdict a b) : OnCourse t s₀ b := by
  have hle := h.le
  have hanchored := h.anchored
  have hcached := h.cached
  cases hmove with
  | idle => exact h
  | stop hphase =>
    rw [home_of_not_locked (by simp [hphase])] at hle hanchored hcached
    exact .of_not_locked (by simp) h.same hle hanchored hcached
  | lock hphase =>
    rw [home_of_not_locked (by simp [hphase])] at hle hanchored hcached
    exact .of_locked rfl h.same hle hanchored hcached
  | @settle found s hphase hchoose hreached =>
    rw [home_of_locked hphase] at hle
    obtain ⟨hsame, hafter, target, rfl, haim, hbest⟩ := h.choose hphase hchoose
    -- the target is the tip, so the tip is home
    obtain rfl : target = s.tip := hreached target rfl
    have hhome : a.startingTip = s.tip :=
      rank_injective t s (le_antisymm hbest hafter.le)
    rw [hhome] at hle hafter
    refine .of_not_locked (leaveInnerLoop_phase _) ?_ ?_ ?_ ?_
    · simpa using hsame
    · simpa using hle
    · simpa using hafter
    · simp only [leaveInnerLoop_pindexMostWork, leaveInnerLoop_state]
      intro target htarget
      cases htarget
      exact cached_tip haim (.refl _)
  | @again target s s' fInvalidFound hphase hchoose haway hstep hworse =>
    rw [home_of_locked hphase] at hle
    obtain ⟨hsame, hafter, target', htarget, haim, hbest⟩ := h.choose hphase hchoose
    cases htarget
    have hallowed := (hfair hphase).allowed target s hchoose
    have hconnected := connected_of_activateBestChainStep hstep
    rw [worse_iff, hconnected.same.rank_eq] at hworse
    refine .of_locked hphase (hsame.trans hconnected.same) hle
      (hafter.step_stay hconnected haim (hfair hphase).valid hallowed hworse) ?_
    intro target' htarget'
    cases fInvalidFound with
    | true => cases htarget'
    | false =>
      cases htarget'
      refine ⟨hconnected.aim haim, hconnected.below, hallowed, ?_⟩
      exact hconnected.same.rank_eq (t := t) ▸ hbest
  | @leave target s s' fInvalidFound hphase hchoose haway hstep hbetter =>
    rw [home_of_locked hphase] at hle
    obtain ⟨hsame, hafter, target', htarget, haim, hbest⟩ := h.choose hphase hchoose
    cases htarget
    have hallowed := (hfair hphase).allowed target s hchoose
    have hconnected := connected_of_activateBestChainStep hstep
    rw [not_worse_iff, hconnected.same.rank_eq] at hbetter
    refine .of_not_locked (leaveInnerLoop_phase _) ?_ ?_ ?_ ?_
    · rw [leaveInnerLoop_state]
      exact hsame.trans hconnected.same
    · rw [leaveInnerLoop_state]
      refine hle.trans ?_
      rw [← hsame.rank_eq]
      exact hbetter
    · rw [leaveInnerLoop_state]
      exact hafter.step_move hconnected haim (hfair hphase).valid hallowed hbetter
    · simp only [leaveInnerLoop_pindexMostWork, leaveInnerLoop_state]
      intro target' htarget'
      cases fInvalidFound with
      | true => cases htarget'
      | false =>
        cases htarget'
        exact cached_tip (hconnected.aim haim) hconnected.below

end OnCourse

inductive FairRuns (t : BlockTree ι) (a : Activation ι) : Activation ι → Prop
  | start : FairRuns t a a
  | move {b c : Activation ι} {made : Option (Round ι)} {verdict : ι → Verdict} {shutdown : Bool}
      (before : FairRuns t a b) (fair : b.phase = .locked → b.Fair t verdict)
      (next : b.next t verdict shutdown = .ok (made, c)) : FairRuns t a c

theorem onCourse_of_fairRuns (h : t.Anchored s.tip s) (hruns : FairRuns t (.start s) a) :
    OnCourse t s a := by
  induction hruns with
  | start => exact .start h
  | move _ hfair hnext ih => exact ih.move hfair (move_of_next hnext)

def AtTip (a : Activation ι) : Prop :=
  a.phase = .locked → a.pindexMostWork = none → a.state.tip = a.startingTip

section

variable (hvalid : ∀ i c, verdict i ≠ .invalid c)

include hvalid

theorem atTip_of_move (h : a.AtTip) (hmove : Move t verdict a b) : b.AtTip := by
  intro hlocked hnone
  cases hmove with
  | idle => exact h hlocked hnone
  | stop => cases hlocked
  | lock => rfl
  | settle => exact absurd hlocked (leaveInnerLoop_phase _)
  | @again target s s' fInvalidFound _ _ _ hstep =>
    cases fInvalidFound with
    | false => cases hnone
    | true =>
      obtain ⟨x, c, -, -, hinvalid, -⟩ :=
        (connected_of_activateBestChainStep hstep).invalid rfl
      exact absurd hinvalid (hvalid x c)
  | leave => exact absurd hlocked (leaveInnerLoop_phase _)

theorem fair_of_valid (h : OnCourse t s₀ a) (htip : a.AtTip) (hphase : a.phase = .locked) :
    a.Fair t verdict where
  valid i _ c := hvalid i c
  allowed target s hchoose := by
    unfold chooseTarget at hchoose
    split at hchoose
    case h_1 pindex hcached =>
      cases hchoose
      have hallowed := (h.cached target hcached).allowed
      rwa [home_of_locked hphase] at hallowed
    case h_2 hnone =>
      have hallowed := (aim_of_findMostWorkChain hchoose).allowed
      rwa [(searched_findMostWorkLoop hchoose).tip, htip hphase hnone] at hallowed

theorem fairRuns_of_run {n : Nat} {c : Activation ι} {made : List (Round ι)}
    (h : t.Anchored s.tip s) (hb : FairRuns t (.start s) b) (htip : b.AtTip)
    (hrun : b.run t verdict n = .ok (made, c)) :
    FairRuns t (.start s) c := by
  induction n generalizing b made with
  | zero =>
    cases hrun
    exact hb
  | succ n ih =>
    unfold run at hrun
    split at hrun
    case h_1 => cases hrun
    case h_2 first d hnext =>
      split at hrun
      case h_1 => cases hrun
      case h_2 rest c' hrest =>
        cases hrun
        have hfair := fair_of_valid hvalid (onCourse_of_fairRuns h hb) htip
        exact ih (hb.move hfair hnext) (atTip_of_move hvalid htip (move_of_next hnext)) hrest

end

theorem not_worse_of_fairRuns (h : t.Anchored s.tip s) (hruns : FairRuns t (.start s) a)
    (hphase : a.phase ≠ .locked) : t.worse a.state a.state.tip s.tip = false := by
  have hcourse := onCourse_of_fairRuns h hruns
  have hle := hcourse.le
  rw [home_of_not_locked hphase] at hle
  rw [not_worse_iff, hcourse.same.rank_eq]
  exact hle

end Activation

end Verge
