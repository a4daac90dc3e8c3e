import Verge.Chain.StepSpec

/-!
# `ActivateBestChain`

The call as a machine that makes one round of the inner loop at a time.  The
machine stands at `unlocked` where `cs_main` is released, keeping its cached
`pindexMostWork`.  The rollback limit of the README is compared with what a whole
call does.
-/

namespace Verge

open Foundation List BlockTree Ancestry
open scoped CChainState

variable {ι : Type} [LinearOrder ι]

inductive Phase where
  | unlocked
  | locked
  | returned
  deriving DecidableEq, Repr

structure Activation (ι : Type) where
  state : CChainState ι
  pindexMostWork : Option ι
  pindexNewTip : Option ι
  startingTip : ι
  blocksConnected : Bool
  phase : Phase

structure Round (ι : Type) where
  target : ι
  tip : ι
  deriving DecidableEq, Repr

namespace Activation

def start (s : CChainState ι) : Activation ι := ⟨s, none, none, s.tip, false, .unlocked⟩

/-- After the inner loop: without a connected block the call returns, otherwise
the lock is released and the outer loop goes on until the target is reached. -/
def leaveInnerLoop (a : Activation ι) : Activation ι :=
  if !a.blocksConnected then { a with phase := .returned }
  else if a.pindexNewTip ≠ a.pindexMostWork then { a with phase := .unlocked }
  else { a with phase := .returned }

def chooseTarget (t : BlockTree ι) (a : Activation ι) :
    Except Failure (Option ι × CChainState ι) :=
  match a.pindexMostWork with
  | some pindex => .ok (some pindex, a.state)
  | none => t.findMostWorkChain a.state

def round (t : BlockTree ι) (verdict : ι → Verdict) (a : Activation ι) :
    Except Failure (Option (Round ι) × Activation ι) :=
  match a.chooseTarget t with
  | .error failure => .error failure
  | .ok (none, s) =>
    .ok (none, leaveInnerLoop { a with state := s, pindexMostWork := none })
  | .ok (some pindex, s) =>
    if pindex = s.tip then
      .ok (none, leaveInnerLoop { a with state := s, pindexMostWork := some pindex })
    else
      match t.activateBestChainStep verdict s pindex with
      | .error failure => .error failure
      | .ok (fInvalidFound, s') =>
        let a' : Activation ι :=
          { a with
            state := s'
            pindexMostWork := if fInvalidFound then none else some pindex
            pindexNewTip := some s'.tip
            blocksConnected := true }
        .ok (some ⟨pindex, s'.tip⟩,
          if t.worse s' s'.tip a.startingTip then a' else leaveInnerLoop a')

/-- One move of the machine; a call that returned makes none.  `shutdown` is
what `ShutdownRequested` says at the end of the outer loop. -/
def next (t : BlockTree ι) (verdict : ι → Verdict) (shutdown : Bool) (a : Activation ι) :
    Except Failure (Option (Round ι) × Activation ι) :=
  match a.phase with
  | .unlocked =>
    if shutdown && a.blocksConnected then .ok (none, { a with phase := .returned })
    else .ok (none,
      { a with startingTip := a.state.tip, blocksConnected := false, phase := .locked })
  | .locked => a.round t verdict
  | .returned => .ok (none, a)

end Activation

/-- The machine after any number of moves, and the rounds it made.  What `ConnectBlock`
answers may differ from move to move. -/
inductive Runs (t : BlockTree ι) (a : Activation ι) : List (Round ι) → Activation ι → Prop
  | start : Runs t a [] a
  | move {rounds : List (Round ι)} {b c : Activation ι} {made : Option (Round ι)}
      {verdict : ι → Verdict} {shutdown : Bool} (before : Runs t a rounds b)
      (next : b.next t verdict shutdown = .ok (made, c)) : Runs t a (rounds ++ made.toList) c

def Activation.run (t : BlockTree ι) (verdict : ι → Verdict) :
    Nat → Activation ι → Except Failure (List (Round ι) × Activation ι)
  | 0, a => .ok ([], a)
  | n + 1, a =>
    match a.next t verdict false with
    | .error failure => .error failure
    | .ok (made, b) =>
      match run t verdict n b with
      | .error failure => .error failure
      | .ok (rounds, c) => .ok (made.toList ++ rounds, c)

theorem Runs.run {t : BlockTree ι} {verdict : ι → Verdict} {n : Nat} {a b c : Activation ι}
    {rounds made : List (Round ι)} (hab : Runs t a rounds b)
    (hbc : b.run t verdict n = .ok (made, c)) : Runs t a (rounds ++ made) c := by
  induction n generalizing b rounds made with
  | zero =>
    cases hbc
    rwa [append_nil]
  | succ n ih =>
    unfold Activation.run at hbc
    split at hbc
    case h_1 => cases hbc
    case h_2 first d hnext =>
      split at hbc
      case h_1 => cases hbc
      case h_2 rest c' hrest =>
        cases hbc
        rw [← append_assoc]
        exact ih (hab.move hnext) hrest

theorem exists_runs_of_eval {t : BlockTree ι} {verdict : ι → Verdict} {n : Nat}
    {a : Activation ι} {α : Type} {f : List (Round ι) × Activation ι → α} {v : α}
    (h : (a.run t verdict n).toOption.map f = some v) :
    ∃ rounds b, Runs t a rounds b ∧ f (rounds, b) = v := by
  cases hrun : a.run t verdict n with
  | error failure =>
    rw [hrun] at h
    cases h
  | ok r =>
    rw [hrun] at h
    exact ⟨r.1, r.2, Runs.start.run hrun, Option.some.inj h⟩

namespace Activation

variable {t : BlockTree ι}

@[simp] theorem leaveInnerLoop_state (a : Activation ι) : a.leaveInnerLoop.state = a.state := by
  unfold leaveInnerLoop
  split_ifs <;> rfl

def afterStep (a : Activation ι) (target : ι) (fInvalidFound : Bool) (s' : CChainState ι) :
    Activation ι :=
  { a with
    state := s'
    pindexMostWork := if fInvalidFound then none else some target
    pindexNewTip := some s'.tip
    blocksConnected := true }

inductive Move (t : BlockTree ι) (verdict : ι → Verdict) (a : Activation ι) :
    Activation ι → Prop
  | idle (phase : a.phase = .returned) : Move t verdict a a
  | stop (phase : a.phase = .unlocked) : Move t verdict a { a with phase := .returned }
  | lock (phase : a.phase = .unlocked) : Move t verdict a
      { a with startingTip := a.state.tip, blocksConnected := false, phase := .locked }
  | settle {found : Option ι} {s : CChainState ι} (phase : a.phase = .locked)
      (choose : a.chooseTarget t = .ok (found, s)) (reached : ∀ i, found = some i → i = s.tip) :
      Move t verdict a (leaveInnerLoop { a with state := s, pindexMostWork := found })
  | again {target : ι} {s s' : CChainState ι} {fInvalidFound : Bool} (phase : a.phase = .locked)
      (choose : a.chooseTarget t = .ok (some target, s)) (away : target ≠ s.tip)
      (step : t.activateBestChainStep verdict s target = .ok (fInvalidFound, s'))
      (worse : t.worse s' s'.tip a.startingTip = true) :
      Move t verdict a (a.afterStep target fInvalidFound s')
  | leave {target : ι} {s s' : CChainState ι} {fInvalidFound : Bool} (phase : a.phase = .locked)
      (choose : a.chooseTarget t = .ok (some target, s)) (away : target ≠ s.tip)
      (step : t.activateBestChainStep verdict s target = .ok (fInvalidFound, s'))
      (better : t.worse s' s'.tip a.startingTip = false) :
      Move t verdict a (a.afterStep target fInvalidFound s').leaveInnerLoop

theorem move_of_next {verdict : ι → Verdict} {shutdown : Bool} {a b : Activation ι}
    {made : Option (Round ι)} (h : a.next t verdict shutdown = .ok (made, b)) : Move t verdict a b := by
  unfold next at h
  split at h
  case h_1 hphase =>
    split at h
    · cases h
      exact .stop hphase
    · cases h
      exact .lock hphase
  case h_2 hphase =>
    unfold round at h
    split at h
    case h_1 => cases h
    case h_2 s hchoose =>
      cases h
      exact .settle hphase hchoose fun i hi => by cases hi
    case h_3 target s hchoose =>
      split at h
      case isTrue hreached =>
        cases h
        refine .settle hphase hchoose fun i hi => ?_
        cases hi
        exact hreached
      case isFalse haway =>
        split at h
        case h_1 => cases h
        case h_2 fInvalidFound s' hstep =>
          cases h
          split
          case isTrue hworse => exact .again hphase hchoose haway hstep hworse
          case isFalse hbetter =>
            exact .leave hphase hchoose haway hstep (Bool.eq_false_of_not_eq_true hbetter)
  case h_3 hphase =>
    cases h
    exact .idle hphase

@[simp] theorem leaveInnerLoop_pindexMostWork (a : Activation ι) :
    a.leaveInnerLoop.pindexMostWork = a.pindexMostWork := by
  unfold leaveInnerLoop
  split_ifs <;> rfl

theorem leaveInnerLoop_phase (a : Activation ι) : a.leaveInnerLoop.phase ≠ .locked := by
  unfold leaveInnerLoop
  split_ifs <;> simp

theorem chooseTarget_tip {a : Activation ι} {found : Option ι} {s : CChainState ι}
    (h : a.chooseTarget t = .ok (found, s)) : s.tip = a.state.tip := by
  unfold chooseTarget at h
  split at h
  · cases h
    rfl
  · exact (searched_findMostWorkLoop h).tip

theorem next_tip {verdict : ι → Verdict} {shutdown : Bool} {a b : Activation ι}
    {made : Option (Round ι)} (h : a.next t verdict shutdown = .ok (made, b)) :
    (made = none ∧ b.state.tip = a.state.tip) ∨
      ∃ r, made = some r ∧ b.state.tip = r.tip ∧ t.IsAncestor r.tip r.target ∧
        ∀ {p}, t.IsAncestor p a.state.tip → t.IsAncestor p r.target → t.IsAncestor p r.tip := by
  unfold next at h
  split at h
  case h_1 =>
    split at h
    · cases h
      exact .inl ⟨rfl, rfl⟩
    · cases h
      exact .inl ⟨rfl, rfl⟩
  case h_2 =>
    unfold round at h
    split at h
    case h_1 => cases h
    case h_2 s hchoose =>
      cases h
      exact .inl ⟨rfl, by simpa using chooseTarget_tip hchoose⟩
    case h_3 pindex s hchoose =>
      have htip := chooseTarget_tip hchoose
      split at h
      case isTrue =>
        cases h
        exact .inl ⟨rfl, by simpa using htip⟩
      case isFalse =>
        split at h
        case h_1 => cases h
        case h_2 fInvalidFound s' hstep =>
          cases h
          have hconnected := connected_of_activateBestChainStep hstep
          refine .inr ⟨_, rfl, ?_, hconnected.below, fun hp => hconnected.common _ (htip ▸ hp)⟩
          dsimp only
          split <;> simp
  case h_3 =>
    cases h
    exact .inl ⟨rfl, rfl⟩

end Activation

/-- The chain of `tip'` contains the blocks of the chain of `tip` that are
deeper than the limit. -/
def BlockTree.KeepsProtected (t : BlockTree ι) (tip tip' : ι) : Prop :=
  ∀ q, t.IsAncestor q tip → t.height q ≤ t.protectedHeight tip → t.IsAncestor q tip'

section Limit

variable {t : BlockTree ι} {tip p : ι}

omit [LinearOrder ι] in
theorem exists_protected (t : BlockTree ι) (tip : ι) :
    ∃ p, t.IsAncestor p tip ∧ t.height p = t.protectedHeight tip :=
  t.exists_ancestor (Nat.sub_le _ _)

omit [LinearOrder ι] in
theorem keepsProtected_iff (hp : t.IsAncestor p tip) (hheight : t.height p = t.protectedHeight tip)
    {tip' : ι} : t.KeepsProtected tip tip' ↔ t.IsAncestor p tip' := by
  constructor
  · intro h
    exact h p hp (Nat.le_of_eq hheight)
  · intro h q hq hle
    exact (hq.of_height_le hp (hheight ▸ hle)).trans h

theorem isAutomaticReorgAllowed_iff (hp : t.IsAncestor p tip)
    (hheight : t.height p = t.protectedHeight tip) {candidate : ι} :
    t.isAutomaticReorgAllowed tip candidate = true ↔ t.IsAncestor p candidate := by
  have htip : t.ancestor tip (t.protectedHeight tip) = some p :=
    ancestor_eq_some.mpr ⟨hp, hheight⟩
  rw [BlockTree.isAutomaticReorgAllowed, htip, beq_iff_eq, ancestor_eq_some,
    and_iff_left hheight]

end Limit

/-- The chain keeps the protected blocks of the entry tip exactly if every branch that is
tried is within the limit of the entry tip. -/
theorem activateBestChain_keeps_protected_iff {t : BlockTree ι} {s : CChainState ι}
    {rounds : List (Round ι)} {a : Activation ι} (h : Runs t (.start s) rounds a) :
    ((∀ r ∈ rounds, t.KeepsProtected s.tip r.tip) ↔
        ∀ r ∈ rounds, t.isAutomaticReorgAllowed s.tip r.target = true) ∧
      ((∀ r ∈ rounds, t.isAutomaticReorgAllowed s.tip r.target = true) →
        t.KeepsProtected s.tip a.state.tip) := by
  obtain ⟨p, hp, hheight⟩ := exists_protected t s.tip
  simp only [keepsProtected_iff hp hheight, isAutomaticReorgAllowed_iff hp hheight]
  induction h with
  | start => exact ⟨by simp, fun _ => hp⟩
  | @move rounds b c made verdict shutdown _ hnext ih =>
    obtain ⟨hiff, htip⟩ := ih
    rcases Activation.next_tip hnext with ⟨rfl, hsame⟩ | ⟨r, rfl, hr, hbelow, hkeep⟩
    · rw [Option.toList_none, append_nil, hsame]
      exact ⟨hiff, htip⟩
    · simp only [Option.toList_some, forall_mem_append, forall_mem_singleton, hr]
      refine ⟨⟨?_, ?_⟩, ?_⟩
      · rintro ⟨hall, hlast⟩
        exact ⟨hiff.mp hall, hlast.trans hbelow⟩
      · rintro ⟨hall, hlast⟩
        exact ⟨hiff.mpr hall, hkeep (htip hall) hlast⟩
      · rintro ⟨hall, hlast⟩
        exact hkeep (htip hall) hlast

/-- Blocks 0 to 10 in a row, 105 to 112 on block 4, 201 to 211 on the genesis
block; any other number is one more block on the genesis block. -/
def threeBranches : BlockTree Nat where
  root := 0
  parent i :=
    if i = 0 then none
    else if i ≤ 10 then some (i - 1)
    else if i = 105 then some 4
    else if 105 < i ∧ i ≤ 112 then some (i - 1)
    else if 201 < i ∧ i ≤ 211 then some (i - 1)
    else some 0
  height i :=
    if i ≤ 10 then i
    else if 105 ≤ i ∧ i ≤ 112 then i - 100
    else if 201 ≤ i ∧ i ≤ 211 then i - 200
    else 1
  nChainWork i :=
    if i ≤ 10 then i
    else if 105 ≤ i ∧ i ≤ 112 then i - 100
    else if 201 ≤ i ∧ i ≤ 211 then i - 200
    else 1
  nTx _ := 1
  parent_eq_none := by
    intro i h
    split_ifs at h with h0
    exact h0
  height_root := rfl
  height_parent := by
    intro i j h
    split_ifs at h <;> cases h <;> split_ifs <;> omega

/-- All blocks are received, the chain up to block 10 is active, and the ends of
the three branches are candidates. -/
def branchesState : CChainState Nat where
  tip := 10
  mapBlockIndex := []
  entry _ := ⟨BLOCK_VALID_TRANSACTIONS, true, true, false, false, 1, 1, 0⟩
  setBlockIndexCandidates := [10, 112, 211]
  mapBlocksUnlinked := []
  m_failed_blocks := []
  nBlockSequenceId := 1

theorem activateBestChain_keeps_protected_iff_sample :
    ∃ rounds a, Runs threeBranches (.start branchesState) rounds a ∧ a.phase = .returned ∧
      a.state.tip = 112 ∧ threeBranches.KeepsProtected branchesState.tip a.state.tip := by
  have heval : ((Activation.start branchesState).run threeBranches (fun _ => .valid) 4).toOption.map
      (fun r => (r.1.all fun r => threeBranches.isAutomaticReorgAllowed 10 r.target,
        r.2.phase, r.2.state.tip)) = some (true, .returned, 112) := by
    decide +kernel
  obtain ⟨rounds, a, hruns, heq⟩ := exists_runs_of_eval heval
  obtain ⟨hall, hphase, htip⟩ : _ ∧ _ ∧ _ := by simpa only [Prod.mk.injEq] using heq
  exact ⟨rounds, a, hruns, hphase, htip,
    (activateBestChain_keeps_protected_iff hruns).2 (all_eq_true.mp hall)⟩

/-- Block 105 is invalid: the chain falls back to block 4, from there the limit allows the
branch on the genesis block, and ten blocks are gone. -/
theorem activateBestChain_exceeds_limit :
    ∃ rounds a, Runs threeBranches (.start branchesState) rounds a ∧ a.phase = .returned ∧
      a.state.tip = 211 ∧ ¬threeBranches.KeepsProtected branchesState.tip a.state.tip := by
  have heval : ((Activation.start branchesState).run threeBranches
      (fun i => if i = 105 then .invalid false else .valid) 16).toOption.map
        (fun r => (r.2.phase, r.2.state.tip)) = some (.returned, 211) := by
    decide +kernel
  obtain ⟨rounds, a, hruns, heq⟩ := exists_runs_of_eval heval
  obtain ⟨hphase, htip⟩ : _ ∧ _ := by simpa only [Prod.mk.injEq] using heq
  refine ⟨rounds, a, hruns, hphase, htip, fun h => ?_⟩
  have hfour : threeBranches.IsAncestor 4 branchesState.tip := by decide
  have hlost : ¬threeBranches.IsAncestor 4 211 := by decide
  exact hlost (htip ▸ h 4 hfour (by decide))

end Verge
