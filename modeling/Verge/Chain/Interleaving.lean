import Verge.Chain.ActivateBestChain
import Verge.Chain.Operations

/-!
# `InvalidateBlock` during `ActivateBestChain`

`ActivateBestChain` releases `cs_main` between two calls of
`ActivateBestChainStep` and keeps its cached `pindexMostWork`.  Other threads
may call `InvalidateBlock` at these points.  The active chain stays free of
failed blocks as long as no such call hits a block on the way to the cached
target; a call that does is not noticed, because `ConnectTip` does not read
`nStatus`.
-/

namespace Verge

open Foundation BlockTree
open scoped CChainState

variable {ι : Type} [LinearOrder ι]

namespace BlockTree

variable {t : BlockTree ι} {s s' : CChainState ι}

def Unfailed (t : BlockTree ι) (s : CChainState ι) (i : ι) : Prop :=
  ∀ j, t.IsAncestor j i → (s.entry j).failed = false

theorem activateBestChainStep_unfailed {verdict : ι → Verdict} {target : ι}
    {fInvalidFound : Bool} (hunfailed : t.Unfailed s target)
    (h : t.activateBestChainStep verdict s target = .ok (fInvalidFound, s')) :
    t.Unfailed s' s'.tip ∧ (fInvalidFound = false → t.Unfailed s' target) := by
  have hconnected := connected_of_activateBestChainStep h
  refine ⟨fun j hj => ?_, fun hfound j hj => ?_⟩
  · by_contra hfailed
    rcases hconnected.marked j (by simpa using hfailed) with hold | ⟨-, hparent, -⟩
    · simp [hunfailed j (hj.trans hconnected.below)] at hold
    · -- only the block that could not be connected is marked, above the tip
      exact not_isAncestor_of_parent hparent hj
  · by_contra hfailed
    rcases hconnected.marked j (by simpa using hfailed) with hold | ⟨hinvalid, -⟩
    · simp [hunfailed j hj] at hold
    · simp [hfound] at hinvalid

theorem Searched.unfailed (h : Searched t s s') (hchain : t.Unfailed s s.tip) :
    t.Unfailed s' s'.tip := by
  intro i hi
  rw [h.tip] at hi
  by_contra hfail
  rcases h.failed_before (by simpa using hfail) with hfail | ⟨x, hx, -, hxchain, -⟩
  · simp [hchain i hi] at hfail
  · exact hxchain (hx.trans hi)

theorem IsTarget.unfailed {i : ι} (h : t.IsTarget s i) (hchain : t.Unfailed s s.tip) :
    t.Unfailed s i := by
  intro j hj
  by_cases hjchain : t.IsAncestor j s.tip
  · exact hchain j hjchain
  · exact (h.usable j hj hjchain).1

theorem insertCandidates_eq (s : CChainState ι) (blocks : List ι) :
    (s.insertCandidates blocks).entry = s.entry ∧ (s.insertCandidates blocks).tip = s.tip := by
  induction blocks generalizing s with
  | nil => exact ⟨rfl, rfl⟩
  | cons i blocks ih =>
    have hstep : (s.insertCandidate i).entry = s.entry ∧ (s.insertCandidate i).tip = s.tip := by
      unfold CChainState.insertCandidate
      split <;> exact ⟨rfl, rfl⟩
    obtain ⟨hentry, htip⟩ := ih (s.insertCandidate i)
    exact ⟨hentry.trans hstep.1, htip.trans hstep.2⟩

theorem markInvalid_tip (s : CChainState ι) (pindex : ι) :
    (t.markInvalid s pindex).tip = s.tip :=
  (insertCandidates_eq _ _).2

theorem markInvalid_entry {pindex j : ι} (hj : j ≠ pindex) :
    (t.markInvalid s pindex).entry j = s.entry j := by
  refine (congrFun (insertCandidates_eq _ _).1 j).trans ?_
  exact if_neg (by simpa using hj)

theorem invalidateBlock_spec {pindex : ι} (h : t.invalidateBlock s pindex = .ok s') :
    t.IsAncestor s'.tip s.tip ∧ ¬t.IsAncestor pindex s'.tip ∧
      ∀ j, ¬t.IsAncestor pindex j → s'.entry j = s.entry j := by
  unfold invalidateBlock at h
  split at h
  case isTrue hchain =>
    split at h
    case h_1 => cases h
    case h_2 pprev hparent =>
      cases h
      rw [markInvalid_tip]
      refine ⟨(Ancestry.IsAncestor.of_parent hparent).trans hchain, fun hcycle => ?_,
        fun j hj => ?_⟩
      · have hle : t.height pindex ≤ t.height pprev := hcycle.height_le
        have hheight := t.height_parent hparent
        omega
      · have hne : j ≠ pindex := by
          rintro rfl
          exact hj (.refl j)
        have habove : j ∉ t.downTo pindex (t.height s.tip) s.tip := by
          intro hmem
          exact hj ((mem_downTo hchain (by omega)).mp hmem).2.1
        exact (markInvalid_entry hne).trans (if_neg habove)
  case isFalse hchain =>
    cases h
    rw [markInvalid_tip]
    refine ⟨.refl _, hchain, fun j hj => markInvalid_entry ?_⟩
    rintro rfl
    exact hj (.refl j)

end BlockTree

/-- A call of `ActivateBestChain` with calls of `InvalidateBlock` at the points
where `cs_main` is free; `allow` says on which blocks it may be called. -/
inductive Interleaved (t : BlockTree ι) (allow : Activation ι → ι → Prop) (a : Activation ι) :
    Activation ι → Prop
  | start : Interleaved t allow a a
  | move {b c : Activation ι} {made : Option (Round ι)} {verdict : ι → Verdict}
      {shutdown : Bool} (before : Interleaved t allow a b)
      (next : b.next t verdict shutdown = .ok (made, c)) : Interleaved t allow a c
  | invalidate {b : Activation ι} {pindex : ι} {s : CChainState ι}
      (before : Interleaved t allow a b) (free : b.phase ≠ .locked) (allowed : allow b pindex)
      (done : t.invalidateBlock b.state pindex = .ok s) :
      Interleaved t allow a { b with state := s }

theorem Interleaved.run {t : BlockTree ι} {allow : Activation ι → ι → Prop} {n : Nat}
    {verdict : ι → Verdict} {a b c : Activation ι} {rounds : List (Round ι)}
    (hab : Interleaved t allow a b) (hbc : b.run t verdict n = .ok (rounds, c)) :
    Interleaved t allow a c := by
  have hruns := Runs.start.run hbc
  clear hbc
  generalize [] ++ rounds = made at hruns
  induction hruns with
  | start => exact hab
  | move _ hnext ih => exact ih.move hnext

def Activation.OffTarget (t : BlockTree ι) (a : Activation ι) (pindex : ι) : Prop :=
  a.phase ≠ .returned → ∀ target ∈ a.pindexMostWork, ¬t.IsAncestor pindex target

structure Activation.Unfailed (t : BlockTree ι) (a : Activation ι) : Prop where
  chain : t.Unfailed a.state a.state.tip
  target : a.phase ≠ .returned → ∀ target ∈ a.pindexMostWork, t.Unfailed a.state target

namespace Activation

variable {t : BlockTree ι} {a b : Activation ι}

theorem Unfailed.chooseTarget {found : Option ι} {s : CChainState ι} (h : a.Unfailed t)
    (hphase : a.phase = .locked) (hchoose : a.chooseTarget t = .ok (found, s)) :
    t.Unfailed s s.tip ∧ ∀ target ∈ found, t.Unfailed s target := by
  unfold Activation.chooseTarget at hchoose
  split at hchoose
  case h_1 target hcached =>
    cases hchoose
    refine ⟨h.chain, fun i hi => ?_⟩
    cases hi
    exact h.target (by simp [hphase]) _ hcached
  case h_2 =>
    have hchain := (searched_findMostWorkLoop hchoose).unfailed h.chain
    refine ⟨hchain, fun i hi => ?_⟩
    cases hi
    exact (isTarget_of_findMostWorkLoop hchoose).unfailed hchain

theorem Unfailed.leaveInnerLoop (hchain : t.Unfailed a.state a.state.tip)
    (htarget : ∀ target ∈ a.pindexMostWork, t.Unfailed a.state target) :
    a.leaveInnerLoop.Unfailed t := by
  unfold Activation.leaveInnerLoop
  split_ifs <;> exact ⟨hchain, fun _ => htarget⟩

theorem Unfailed.next {verdict : ι → Verdict} {shutdown : Bool} {made : Option (Round ι)}
    (h : a.Unfailed t) (hnext : a.next t verdict shutdown = .ok (made, b)) : b.Unfailed t := by
  have hstep : ∀ {target s s' fInvalidFound}, a.phase = .locked →
      a.chooseTarget t = .ok (some target, s) →
      t.activateBestChainStep verdict s target = .ok (fInvalidFound, s') →
      t.Unfailed s' s'.tip ∧
        ∀ i ∈ (a.afterStep target fInvalidFound s').pindexMostWork, t.Unfailed s' i := by
    intro target s s' fInvalidFound hphase hchoose hstep
    obtain ⟨-, htarget⟩ := h.chooseTarget hphase hchoose
    obtain ⟨hchain', htarget'⟩ :=
      activateBestChainStep_unfailed (htarget target rfl) hstep
    refine ⟨hchain', fun i hi => ?_⟩
    cases fInvalidFound with
    | false =>
      cases hi
      exact htarget' rfl
    | true => cases hi
  cases move_of_next hnext with
  | idle => exact h
  | stop hphase => exact ⟨h.chain, fun _ => h.target (by simp [hphase])⟩
  | lock hphase => exact ⟨h.chain, fun _ => h.target (by simp [hphase])⟩
  | settle hphase hchoose =>
    obtain ⟨hchain, htarget⟩ := h.chooseTarget hphase hchoose
    exact .leaveInnerLoop hchain htarget
  | again hphase hchoose _ hround =>
    obtain ⟨hchain, htarget⟩ := hstep hphase hchoose hround
    exact ⟨hchain, fun _ => htarget⟩
  | leave hphase hchoose _ hround =>
    obtain ⟨hchain, htarget⟩ := hstep hphase hchoose hround
    exact .leaveInnerLoop hchain htarget

theorem Unfailed.invalidateBlock {pindex : ι} {s : CChainState ι} (h : a.Unfailed t)
    (hoff : a.OffTarget t pindex) (hdone : t.invalidateBlock a.state pindex = .ok s) :
    Unfailed t { a with state := s } := by
  obtain ⟨hcut, hbelow, hentry⟩ := invalidateBlock_spec hdone
  refine ⟨fun j hj => ?_, fun hphase target htarget j hj => ?_⟩
  · show (s.entry j).failed = false
    rw [hentry j fun hanc => hbelow (hanc.trans hj)]
    exact h.chain j (hj.trans hcut)
  · show (s.entry j).failed = false
    rw [hentry j fun hanc => hoff hphase target htarget (hanc.trans hj)]
    exact h.target hphase target htarget j hj

end Activation

/-- While every `InvalidateBlock` is off the chain of the target that the call keeps, the
active chain has no failed block. -/
theorem interleaved_activeChain_unfailed {t : BlockTree ι} {s : CChainState ι} {a : Activation ι}
    (hstart : t.Unfailed s s.tip) (h : Interleaved t (Activation.OffTarget t) (.start s) a) :
    t.Unfailed a.state a.state.tip := by
  have hinv : a.Unfailed t := by
    induction h with
    | start => exact ⟨hstart, fun _ target htarget => by cases htarget⟩
    | move _ hnext ih => exact ih.next hnext
    | invalidate _ _ hoff hdone ih => exact ih.invalidateBlock hoff hdone
  exact hinv.chain

/-! ### Two blocks to connect

The call connects block 1 on its way to block 2 and then releases the lock. -/

def Activation.interrupted (t : BlockTree ι) (pindex : ι) (n m : Nat) (a : Activation ι) :
    Except Failure (Activation ι × Activation ι) :=
  match a.run t (fun _ => .valid) n with
  | .error failure => .error failure
  | .ok (_, b) =>
    match t.invalidateBlock b.state pindex with
    | .error failure => .error failure
    | .ok s => (Activation.run t (fun _ => .valid) m { b with state := s }).map fun r => (b, r.2)

theorem exists_interleaved_of_eval {t : BlockTree ι} {P : Activation ι → ι → Prop}
    {pindex : ι} {n m : Nat} {a : Activation ι} {α : Type} {v : α}
    {f : Activation ι × Activation ι → α}
    (h : (a.interrupted t pindex n m).toOption.map f = some v)
    (hallow : ∀ b c, f (b, c) = v → b.phase ≠ .locked ∧ P b pindex) :
    ∃ b c, Interleaved t P a c ∧ f (b, c) = v := by
  unfold Activation.interrupted at h
  split at h
  case h_1 => cases h
  case h_2 b hbefore =>
    split at h
    case h_1 => cases h
    case h_2 s hdone =>
      cases hafter : Activation.run t (fun _ => .valid) m { b with state := s } with
      | error failure =>
        rw [hafter] at h
        cases h
      | ok r =>
        rw [hafter] at h
        have hv : f (b, r.2) = v := Option.some.inj h
        obtain ⟨hfree, hallowed⟩ := hallow b r.2 hv
        have hb : Interleaved t P a b := Interleaved.start.run hbefore
        exact ⟨b, r.2, (hb.invalidate hfree hallowed hdone).run hafter, hv⟩

def twoToConnect : CChainState Nat :=
  { branchesState with
    tip := 0
    mapBlockIndex := [0, 1, 2, 201]
    setBlockIndexCandidates := [0, 2, 201] }

theorem unfailed_twoToConnect : threeBranches.Unfailed twoToConnect twoToConnect.tip :=
  fun _ _ => rfl

theorem interleaved_activeChain_unfailed_sample :
    ∃ a, Interleaved threeBranches (Activation.OffTarget threeBranches) (.start twoToConnect) a ∧
      a.phase = .returned ∧ a.state.tip = 2 ∧ (a.state.entry 201).failed = true ∧
      threeBranches.Unfailed a.state a.state.tip := by
  have heval : ((Activation.start twoToConnect).interrupted threeBranches 201 2 2).toOption.map
      (fun r => ((r.1.phase, r.1.pindexMostWork), r.2.phase, r.2.state.tip,
        (r.2.state.entry 201).failed)) =
        some ((.unlocked, some 2), .returned, 2, true) := by
    decide +kernel
  obtain ⟨b, a, hrun, heq⟩ :=
    exists_interleaved_of_eval (P := Activation.OffTarget threeBranches) heval <| by
      intro b c heq
      simp only [Prod.mk.injEq] at heq
      obtain ⟨⟨hphase, hcached⟩, -⟩ := heq
      refine ⟨by simp [hphase], fun _ target htarget => ?_⟩
      rw [hcached] at htarget
      cases htarget
      decide
  simp only [Prod.mk.injEq] at heq
  obtain ⟨-, hphase, htip, hfailed⟩ := heq
  exact ⟨a, hrun, hphase, htip, hfailed,
    interleaved_activeChain_unfailed unfailed_twoToConnect hrun⟩

/-- Block 1 is invalidated and disconnected between the two steps, and the call
connects it again. -/
theorem interleaved_connects_failed :
    threeBranches.Unfailed twoToConnect twoToConnect.tip ∧
      ∃ a, Interleaved threeBranches (fun _ _ => True) (.start twoToConnect) a ∧
        a.phase = .returned ∧ a.state.tip = 2 ∧
        ¬threeBranches.Unfailed a.state a.state.tip := by
  have heval : ((Activation.start twoToConnect).interrupted threeBranches 1 2 4).toOption.map
      (fun r => (r.1.phase, r.2.phase, r.2.state.tip, (r.2.state.entry 1).failed)) =
        some (.unlocked, .returned, 2, true) := by
    decide +kernel
  obtain ⟨b, a, hrun, heq⟩ :=
    exists_interleaved_of_eval (P := fun _ _ => True) heval <| by
      intro b c heq
      simp only [Prod.mk.injEq] at heq
      exact ⟨by simp [heq.1], trivial⟩
  simp only [Prod.mk.injEq] at heq
  obtain ⟨-, hphase, htip, hfailed⟩ := heq
  refine ⟨unfailed_twoToConnect, a, hrun, hphase, htip, fun hclean => ?_⟩
  have hone : threeBranches.IsAncestor 1 a.state.tip := by
    rw [htip]
    decide
  simp [hclean 1 hone] at hfailed

end Verge
