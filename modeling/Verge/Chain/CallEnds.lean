import Mathlib.Data.Set.Card
import Mathlib.Order.WithBot
import Verge.Chain.NeverWorse

/-!
# Calls of `ActivateBestChain` come to an end

A round that finds an invalid block cuts off the candidate it wanted; a round that finds
none brings the tip closer to the cached target.  Candidates that are cut off stay so, no
candidate is added during a call, and the two quantities together with the phase decrease
lexicographically.
-/

namespace Verge

open Foundation BlockTree
open scoped CChainState

variable {ι : Type} [LinearOrder ι] {t : BlockTree ι} {s s' : CChainState ι}
  {verdict : ι → Verdict}

namespace BlockTree

variable {target i : ι} {fInvalidFound : Bool}

def unfailed (t : BlockTree ι) (s : CChainState ι) : Set ι :=
  { i | i ∈ s.setBlockIndexCandidates ∧
    ∀ x, t.IsAncestor x i → ¬t.IsAncestor x s.tip → (s.entry x).failed = false }

omit [LinearOrder ι] in
theorem finite_unfailed (t : BlockTree ι) (s : CChainState ι) : (t.unfailed s).Finite :=
  s.setBlockIndexCandidates.finite_toSet.subset fun _ hi => hi.1

theorem Aim.mem_unfailed (h : t.Aim s target) : target ∈ t.unfailed s :=
  ⟨h.mem, fun x hx hchain => (h.usable x hx hchain).1⟩

theorem Searched.unfailed_subset (h : Searched t s s') : t.unfailed s' ⊆ t.unfailed s := by
  rintro i ⟨hi, hfree⟩
  refine ⟨h.kept i hi, fun x hx hchain => ?_⟩
  exact unfailed_of_imp h.failed (hfree x hx (h.tip ▸ hchain))

namespace Connected

theorem unfailed_subset (h : Connected t verdict s target fInvalidFound s')
    (haim : t.Aim s target) : t.unfailed s' ⊆ t.unfailed s := by
  rintro i ⟨hi, hfree⟩
  refine ⟨h.kept i hi, fun x hx hchain => ?_⟩
  by_cases hx' : t.IsAncestor x s'.tip
  · -- the block was connected in this round
    exact (h.usable_of_not_isAncestor haim hx' hchain).1
  · exact unfailed_of_imp (h.failed x) (hfree x hx hx')

theorem ncard_unfailed_lt (h : Connected t verdict s target true s') (haim : t.Aim s target)
    (hcorruption : ∀ i, verdict i ≠ .invalid true) :
    (t.unfailed s').ncard < (t.unfailed s).ncard := by
  refine Set.ncard_lt_ncard ⟨h.unfailed_subset haim, fun hsubset => ?_⟩ (t.finite_unfailed s)
  obtain ⟨x, corruptionPossible, hparent, hx, hverdict, hfailed⟩ := h.invalid rfl
  cases corruptionPossible with
  | true => exact hcorruption x hverdict
  | false =>
    have hunfailed := (hsubset haim.mem_unfailed).2 x hx (not_isAncestor_of_parent hparent)
    rw [hfailed rfl] at hunfailed
    cases hunfailed

theorem linked (h : Connected t verdict s target fInvalidFound s')
    (hlinked : t.CandidatesLinked s) : t.CandidatesLinked s' := by
  intro i hi j hj
  rw [(h.same j).2.1]
  exact hlinked i (h.kept i hi) j hj

end Connected

end BlockTree

namespace Activation

variable {a b : Activation ι}

def distance (t : BlockTree ι) (a : Activation ι) : WithTop Nat :=
  match a.pindexMostWork with
  | none => ⊤
  | some target => WithTop.some (t.height target - t.height a.state.tip)

def pending (a : Activation ι) : Nat :=
  match a.phase with
  | .returned => 0
  | .unlocked => 2
  | .locked => if a.blocksConnected then 3 else 1

noncomputable def remaining (t : BlockTree ι) (a : Activation ι) : Nat ×ₗ WithTop Nat ×ₗ Nat :=
  toLex ((t.unfailed a.state).ncard, toLex (a.distance t, a.pending))

omit [LinearOrder ι] in
theorem remaining_lt_of_ncard_lt (h : (t.unfailed b.state).ncard < (t.unfailed a.state).ncard) :
    b.remaining t < a.remaining t := Prod.Lex.toLex_lt_toLex.mpr (.inl h)

omit [LinearOrder ι] in
theorem remaining_lt_of_subset (h : t.unfailed b.state ⊆ t.unfailed a.state)
    (hrest : b.distance t < a.distance t ∨
      b.distance t ≤ a.distance t ∧ b.pending < a.pending) : b.remaining t < a.remaining t := by
  refine Prod.Lex.toLex_lt_toLex'.mpr ⟨Set.ncard_le_ncard h (t.finite_unfailed a.state),
    fun _ => ?_⟩
  rcases hrest with hlt | ⟨hle, hlt⟩
  · exact Prod.Lex.toLex_lt_toLex.mpr (.inl hlt)
  · exact Prod.Lex.toLex_lt_toLex'.mpr ⟨hle, fun _ => hlt⟩

@[simp] theorem distance_leaveInnerLoop (a : Activation ι) :
    a.leaveInnerLoop.distance t = a.distance t := by
  unfold distance
  rw [leaveInnerLoop_pindexMostWork, leaveInnerLoop_state]

theorem pending_leaveInnerLoop_lt (h : a.phase = .locked) :
    a.leaveInnerLoop.pending < a.pending := by
  unfold leaveInnerLoop
  cases hconnected : a.blocksConnected with
  | false => simp [pending, h, hconnected]
  | true =>
    rw [if_neg (by simp)]
    split <;> simp [pending, h, hconnected]

structure Steady (t : BlockTree ι) (a : Activation ι) : Prop where
  linked : t.CandidatesLinked a.state
  cached : ∀ target, a.pindexMostWork = some target →
    t.Aim a.state target ∧ t.IsAncestor a.state.tip target

structure Chosen (t : BlockTree ι) (a : Activation ι) (found : Option ι) (s : CChainState ι) :
    Prop where
  linked : t.CandidatesLinked s
  unfailed : t.unfailed s ⊆ t.unfailed a.state
  aim : ∀ target, found = some target → t.Aim s target
  cached : a.pindexMostWork ≠ none → found = a.pindexMostWork ∧ s = a.state

namespace Steady

theorem settle {found : Option ι} (hphase : a.phase = .locked) (hchosen : a.Chosen t found s)
    (hreached : ∀ i, found = some i → i = s.tip) :
    (leaveInnerLoop { a with state := s, pindexMostWork := found }).Steady t ∧
      (leaveInnerLoop { a with state := s, pindexMostWork := found }).remaining t <
        a.remaining t := by
  constructor
  · refine ⟨?_, ?_⟩
    · rw [leaveInnerLoop_state]
      exact hchosen.linked
    · rw [leaveInnerLoop_pindexMostWork, leaveInnerLoop_state]
      intro target htarget
      refine ⟨hchosen.aim target htarget, ?_⟩
      rw [hreached target htarget]
      exact .refl _
  · refine remaining_lt_of_subset ?_ (.inr ⟨?_, ?_⟩)
    · rw [leaveInnerLoop_state]
      exact hchosen.unfailed
    · rw [distance_leaveInnerLoop]
      by_cases hnone : a.pindexMostWork = none
      · rw [show a.distance t = ⊤ by rw [distance, hnone]]
        exact le_top
      · obtain ⟨rfl, rfl⟩ := hchosen.cached hnone
        exact le_rfl
    · exact pending_leaveInnerLoop_lt (a := { a with state := s, pindexMostWork := found }) hphase

variable (h : a.Steady t)

include h

theorem choose {found : Option ι} (hchoose : a.chooseTarget t = .ok (found, s)) :
    a.Chosen t found s := by
  unfold chooseTarget at hchoose
  split at hchoose
  case h_1 target htarget =>
    cases hchoose
    refine ⟨h.linked, subset_rfl, fun i hi => (h.cached i (htarget.trans hi)).1, fun _ => ?_⟩
    exact ⟨htarget.symm, rfl⟩
  case h_2 hnone =>
    have hsearched := searched_findMostWorkLoop hchoose
    refine ⟨hsearched.linked h.linked, hsearched.unfailed_subset, fun i hi => ?_,
      fun hcached => absurd hnone hcached⟩
    rw [hi] at hchoose
    exact aim_of_findMostWorkChain hchoose

theorem step {target : ι} {fInvalidFound : Bool} (hchosen : a.Chosen t (some target) s)
    (haway : target ≠ s.tip) (hcorruption : ∀ i, verdict i ≠ .invalid true)
    (hstep : t.activateBestChainStep verdict s target = .ok (fInvalidFound, s')) :
    (a.afterStep target fInvalidFound s').Steady t ∧
      ((t.unfailed s').ncard < (t.unfailed a.state).ncard ∨
        t.unfailed s' ⊆ t.unfailed a.state ∧
          (a.afterStep target fInvalidFound s').distance t < a.distance t) := by
  have hconnected := connected_of_activateBestChainStep hstep
  have haim := hchosen.aim target rfl
  have hlinked := hconnected.linked hchosen.linked
  cases fInvalidFound with
  | true =>
    refine ⟨⟨hlinked, fun i hi => by cases hi⟩, .inl ?_⟩
    exact (hconnected.ncard_unfailed_lt haim hcorruption).trans_le
      (Set.ncard_le_ncard hchosen.unfailed (t.finite_unfailed a.state))
  | false =>
    refine ⟨⟨hlinked, fun i hi => ?_⟩,
      .inr ⟨(hconnected.unfailed_subset haim).trans hchosen.unfailed, ?_⟩⟩
    · cases hi
      exact ⟨hconnected.aim haim, hconnected.below⟩
    · cases hcached : a.pindexMostWork with
      | none =>
        rw [show a.distance t = ⊤ by rw [distance, hcached]]
        exact WithTop.coe_lt_top _
      | some cached =>
        obtain ⟨heq, rfl⟩ := hchosen.cached (by simp [hcached])
        rw [hcached] at heq
        cases heq
        have habove := (h.cached target hcached).2
        have hlower : t.height a.state.tip < t.height target := by
          refine lt_of_le_of_ne habove.height_le fun heq => haway ?_
          exact (habove.eq_of_height (.refl target) heq).symm
        have hcloser : t.height a.state.tip < t.height s'.tip := by
          rcases hconnected.progress rfl habove with htarget | hlt
          · rw [htarget]
            exact hlower
          · exact hlt
        have hbelow := hconnected.below.height_le
        have hbefore : a.distance t =
            WithTop.some (t.height target - t.height a.state.tip) := by
          rw [distance, hcached]
        have hafter : (a.afterStep target false s').distance t =
            WithTop.some (t.height target - t.height s'.tip) := rfl
        rw [hbefore, hafter]
        exact WithTop.coe_lt_coe.mpr (by omega)

theorem move (hcorruption : ∀ i, verdict i ≠ .invalid true) (hphase : a.phase ≠ .returned)
    (hmove : Move t verdict a b) : b.Steady t ∧ b.remaining t < a.remaining t := by
  cases hmove with
  | idle hreturned => exact absurd hreturned hphase
  | stop hunlocked =>
    refine ⟨⟨h.linked, h.cached⟩, remaining_lt_of_subset subset_rfl (.inr ⟨le_rfl, ?_⟩)⟩
    simp [pending, hunlocked]
  | lock hunlocked =>
    refine ⟨⟨h.linked, h.cached⟩, remaining_lt_of_subset subset_rfl (.inr ⟨le_rfl, ?_⟩)⟩
    simp [pending, hunlocked]
  | settle hlocked hchoose hreached => exact settle hlocked (h.choose hchoose) hreached
  | again hlocked hchoose haway hstep =>
    obtain ⟨hsteady, hrest⟩ := h.step (h.choose hchoose) haway hcorruption hstep
    refine ⟨hsteady, ?_⟩
    rcases hrest with hlt | ⟨hsubset, hcloser⟩
    · exact remaining_lt_of_ncard_lt hlt
    · exact remaining_lt_of_subset hsubset (.inl hcloser)
  | leave hlocked hchoose haway hstep =>
    obtain ⟨hsteady, hrest⟩ := h.step (h.choose hchoose) haway hcorruption hstep
    refine ⟨⟨?_, ?_⟩, ?_⟩
    · rw [leaveInnerLoop_state]
      exact hsteady.linked
    · rw [leaveInnerLoop_pindexMostWork, leaveInnerLoop_state]
      exact hsteady.cached
    · rcases hrest with hlt | ⟨hsubset, hcloser⟩
      · refine remaining_lt_of_ncard_lt ?_
        rw [leaveInnerLoop_state]
        exact hlt
      · refine remaining_lt_of_subset ?_ (.inl ?_)
        · rw [leaveInnerLoop_state]
          exact hsubset
        · rw [distance_leaveInnerLoop]
          exact hcloser

theorem systemError_of_next {shutdown : Bool} {failure : Failure}
    (hnext : a.next t verdict shutdown = .error failure) : ∃ i, verdict i = .systemError := by
  unfold next at hnext
  split at hnext
  case h_1 => split at hnext <;> cases hnext
  case h_2 =>
    unfold round at hnext
    split at hnext
    case h_1 failure' hchoose =>
      -- the search meets no assertion
      unfold chooseTarget at hchoose
      split at hchoose
      · cases hchoose
      · obtain ⟨target, s', hfound, -⟩ := exists_findMostWorkLoop (le_refl _) h.linked
        unfold BlockTree.findMostWorkChain at hchoose
        rw [hfound] at hchoose
        cases hchoose
    case h_2 => cases hnext
    case h_3 target s hchoose =>
      have haim := (h.choose hchoose).aim target rfl
      split at hnext
      case isTrue => cases hnext
      case isFalse =>
        split at hnext
        case h_1 failure' hstep =>
          exact systemError_of_activateBestChainStep haim.allowed haim.mem hstep
        case h_2 => cases hnext
  case h_3 => cases hnext

end Steady

def drive (t : BlockTree ι) (verdicts : Nat → ι → Verdict) (shutdown : Nat → Bool) :
    Nat → Activation ι → Except Failure (Activation ι)
  | 0, a => .ok a
  | n + 1, a =>
    match a.next t (verdicts 0) (shutdown 0) with
    | .error failure => .error failure
    | .ok (_, b) => drive t (fun m => verdicts (m + 1)) (fun m => shutdown (m + 1)) n b

def Ends (t : BlockTree ι) (verdicts : Nat → ι → Verdict) (shutdown : Nat → Bool)
    (a : Activation ι) : Prop :=
  ∃ n, (∃ b, a.drive t verdicts shutdown n = .ok b ∧ b.phase = .returned) ∨
    ∃ failure, a.drive t verdicts shutdown n = .error failure ∧
      ∃ m < n, ∃ i, verdicts m i = .systemError

theorem ends_of_steady {verdicts : Nat → ι → Verdict} {shutdown : Nat → Bool}
    (hcorruption : ∀ n i, verdicts n i ≠ .invalid true) (h : a.Steady t) :
    a.Ends t verdicts shutdown := by
  -- on the measure, for all answers that are still to come
  induction hremaining : a.remaining t using WellFoundedLT.induction
    generalizing a verdicts shutdown with
  | _ r ih =>
    by_cases hphase : a.phase = .returned
    · exact ⟨0, .inl ⟨a, rfl, hphase⟩⟩
    · cases hnext : a.next t (verdicts 0) (shutdown 0) with
      | error failure =>
        obtain ⟨i, hi⟩ := h.systemError_of_next hnext
        refine ⟨1, .inr ⟨failure, ?_, 0, Nat.one_pos, i, hi⟩⟩
        rw [drive, hnext]
      | ok r =>
        obtain ⟨made, b⟩ := r
        obtain ⟨hsteady, hlt⟩ := h.move (hcorruption 0) hphase (move_of_next hnext)
        obtain ⟨n, hn⟩ := ih _ (hremaining ▸ hlt) (fun m i => hcorruption (m + 1) i) hsteady rfl
        refine ⟨n + 1, ?_⟩
        rw [drive, hnext]
        rcases hn with hreturned | ⟨failure, hdrive, m, hm, hi⟩
        · exact .inl hreturned
        · exact .inr ⟨failure, hdrive, m + 1, Nat.succ_lt_succ hm, hi⟩

end Activation

/-- The search selects the greatest candidate that can be used; a call whose rounds are fair
leaves a tip that is no worse; every call ends. -/
theorem best_chain_selection (t : BlockTree ι) :
    (∀ s, t.CandidatesLinked s →
      ∃ target s', t.findMostWorkChain s = .ok (target, s') ∧ t.Selected s target s') ∧
    (∀ s a, t.Anchored s.tip s → Activation.FairRuns t (.start s) a → a.phase = .returned →
      t.worse a.state a.state.tip s.tip = false) ∧
    ∀ s verdicts shutdown, t.CandidatesLinked s → (∀ n i, verdicts n i ≠ .invalid true) →
      (Activation.start s).Ends t verdicts shutdown := by
  refine ⟨fun s hlinked => findMostWorkChain_spec hlinked,
    fun s a hanchored hruns hreturned => ?_, fun s verdicts shutdown hlinked hcorruption => ?_⟩
  · refine Activation.not_worse_of_fairRuns hanchored hruns ?_
    rw [hreturned]
    decide
  · refine Activation.ends_of_steady hcorruption ⟨hlinked, fun target htarget => ?_⟩
    cases htarget

def receivedState : CChainState Nat :=
  { branchesState with setBlockIndexCandidates := [10, 111, 112, 211] }

theorem threeBranches_parent_lt {i j : Nat} (h : threeBranches.parent i = some j) : j < i := by
  unfold threeBranches at h
  dsimp only at h
  split_ifs at h <;> cases h <;> omega

theorem threeBranches_le {i j : Nat} (h : threeBranches.IsAncestor i j) : i ≤ j := by
  obtain ⟨n, hn⟩ := h
  induction n generalizing j with
  | zero =>
    cases hn
    exact le_rfl
  | succ n ih =>
    obtain ⟨p, hp, hrest⟩ := Option.bind_eq_some_iff.mp hn
    exact (ih hrest).trans (threeBranches_parent_lt hp).le

theorem linked_receivedState : threeBranches.CandidatesLinked receivedState :=
  fun _ _ _ _ => .inl Nat.one_ne_zero

theorem anchored_receivedState : threeBranches.Anchored 10 receivedState where
  le := le_rfl
  mem := by decide
  keeps := by decide
  usable _ _ _ := ⟨rfl, rfl⟩
  closed := by
    intro c hc _ hallowed i hi hrank
    have hfinite : ∀ c ∈ receivedState.setBlockIndexCandidates,
        threeBranches.isAutomaticReorgAllowed 10 c = true → ∀ i < c + 1,
          threeBranches.IsAncestor i c → threeBranches.worse receivedState i 10 = false →
            i ∈ receivedState.setBlockIndexCandidates := by
      decide +kernel
    exact hfinite c hc hallowed i (Nat.lt_succ_of_le (threeBranches_le hi)) hi
      (not_worse_iff.mpr hrank)

theorem best_chain_selection_received :
    (∃ target s', threeBranches.findMostWorkChain receivedState = .ok (target, s') ∧
      threeBranches.Selected receivedState target s') ∧
    (∃ a, Activation.FairRuns threeBranches (.start receivedState) a ∧ a.phase = .returned ∧
      a.state.tip = 112 ∧ threeBranches.worse a.state a.state.tip receivedState.tip = false) ∧
    (Activation.start receivedState).Ends threeBranches
      (fun _ i => if i = 105 ∨ i = 208 then .invalid false else .valid) fun _ => false := by
  obtain ⟨hselect, hkeep, hend⟩ := best_chain_selection threeBranches
  refine ⟨hselect _ linked_receivedState, ?_, hend _ _ _ linked_receivedState fun n i => ?_⟩
  · have heval : ((Activation.start receivedState).run threeBranches
        (fun _ => .valid) 4).toOption.map (fun r => (r.2.phase, r.2.state.tip)) =
          some (.returned, 112) := by
      decide +kernel
    cases hrun : (Activation.start receivedState).run threeBranches (fun _ => .valid) 4 with
    | error failure =>
      rw [hrun] at heval
      cases heval
    | ok r =>
      obtain ⟨made, a⟩ := r
      rw [hrun] at heval
      obtain ⟨hphase, htip⟩ : a.phase = .returned ∧ a.state.tip = 112 := by
        simpa [Except.toOption] using heval
      have hruns := Activation.fairRuns_of_run (fun _ _ => by simp) anchored_receivedState
        .start (fun h => by cases h) hrun
      exact ⟨a, hruns, hphase, htip, hkeep _ a anchored_receivedState hruns hphase⟩
  · split <;> simp

def missingState : CChainState Nat :=
  { receivedState with
    entry := fun i => { receivedState.entry i with haveData := i != 112 } }

theorem lacksData_missingState : threeBranches.LacksData missingState 112 :=
  ⟨by decide, fun _ _ _ => rfl, 112, .refl 112, by decide, rfl⟩

/-- Block 105 is invalid, from block 4 the limit allows the branch on the genesis block, and
its block 208 is invalid too: the call returns with a worse tip than on entry. -/
theorem best_chain_selection_fails :
    (∃ rounds a, Runs threeBranches (.start receivedState) rounds a ∧ a.phase = .returned ∧
      a.state.tip = 207 ∧ threeBranches.worse a.state a.state.tip receivedState.tip = true) ∧
    threeBranches.LacksData missingState 112 ∧
    ∃ s', threeBranches.findMostWorkChain missingState = .ok (some 111, s') ∧
      112 ∈ missingState.setBlockIndexCandidates ∧ 112 ∉ s'.setBlockIndexCandidates ∧
      ¬threeBranches.Recorded s' 112 := by
  refine ⟨?_, lacksData_missingState, ?_⟩
  · have heval : ((Activation.start receivedState).run threeBranches
        (fun i => if i = 105 ∨ i = 208 then .invalid false else .valid) 12).toOption.map
          (fun r => (r.2.phase, r.2.state.tip,
            threeBranches.worse r.2.state r.2.state.tip receivedState.tip)) =
          some (.returned, 207, true) := by
      decide +kernel
    obtain ⟨rounds, a, hruns, heq⟩ := exists_runs_of_eval heval
    obtain ⟨hphase, htip, hworse⟩ : _ ∧ _ ∧ _ := by simpa only [Prod.mk.injEq] using heq
    exact ⟨rounds, a, hruns, hphase, htip, hworse⟩
  · have heval : (threeBranches.findMostWorkChain missingState).toOption.map
        (fun r => (r.1, r.2.setBlockIndexCandidates, r.2.mapBlocksUnlinked)) =
          some (some 111, [10, 111, 211], []) := by
      decide +kernel
    cases hfound : threeBranches.findMostWorkChain missingState with
    | error failure =>
      rw [hfound] at heval
      cases heval
    | ok r =>
      obtain ⟨target, s'⟩ := r
      rw [hfound] at heval
      obtain ⟨rfl, hcandidates, hunlinked⟩ : target = some 111 ∧
          s'.setBlockIndexCandidates = [10, 111, 211] ∧ s'.mapBlocksUnlinked = [] := by
        simpa [Except.toOption] using heval
      refine ⟨s', rfl, by decide, by simp [hcandidates], ?_⟩
      rintro ⟨pprev, -, hmem⟩
      rw [hunlinked] at hmem
      cases hmem

end Verge
