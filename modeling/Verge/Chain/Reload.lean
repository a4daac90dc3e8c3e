import Mathlib.Data.List.Perm.Basic
import Verge.Chain.ReadBack

/-!
# Loading what was written

The derived fields of a loaded entry are computed again from the same parents and
come out the same; `pindexBestHeader` becomes the highest header instead of the one
with the most work.
-/

namespace Verge

open Foundation List BlockTree Ancestry LoadState
open scoped CChainState

namespace BlockIndex

variable {ι : Type} {powHash : Algo → List UInt8 → uint256} {t : HeaderTree ι powHash}
  {x : BlockIndex ι} {m : LoadState} {i : ι} {L : List ι}

/-! ## Computing the derived fields again -/

def refusedBelow (t : HeaderTree ι powHash) (x : BlockIndex ι) : ι → Bool :=
  t.accumulate fun before i => before.getD false || (x.chain.entry i).failedValid

theorem refusedBelow_eq (t : HeaderTree ι powHash) (x : BlockIndex ι) (i : ι) :
    x.refusedBelow t i =
      (((t.parent i).map (x.refusedBelow t)).getD false || (x.chain.entry i).failedValid) := by
  cases hp : t.parent i with
  | none =>
    rw [t.parent_eq_none hp]
    exact accumulate_root _
  | some p => exact accumulate_parent _ hp

def rebuilt (t : HeaderTree ι powHash) (x : BlockIndex ι) (i : ι) : LoadedIndex :=
  { x.raw t i with
    pskip := (t.skip i).map t.hash
    nChainWork := t.nChainWork i
    nTimeMax := t.nTimeMax i
    nChainTx := (x.chain.entry i).nChainTx
    nStatus :=
      if !(x.chain.entry i).failedValid && ((t.parent i).map (x.refusedBelow t)).getD false then
        (x.chain.entry i).nStatus ||| BLOCK_FAILED_CHILD
      else (x.chain.entry i).nStatus }

namespace Live

variable (hcounts : t.SmallCounts) (h : Live t x) (hi : i ∈ x.chain.mapBlockIndex)

include h hi

theorem rebuilt_failed : (x.rebuilt t i).failed = x.refusedBelow t i := by
  obtain ⟨-, -, -, -, -, hfailed, hchild⟩ := (h.stored.entry i hi).nStatus
  rw [refusedBelow_eq]
  unfold LoadedIndex.failed rebuilt
  dsimp only
  split
  case isTrue hadd =>
    rw [Bool.and_eq_true_iff] at hadd
    rw [hchild, hadd.2, Bool.true_or]
  case isFalse hkeep =>
    rw [hfailed]
    cases hown : (x.chain.entry i).failedValid with
    | true => rw [Bool.or_true]
    | false =>
      rw [hown, Bool.not_false, Bool.true_and, Bool.not_eq_true] at hkeep
      rw [hkeep, Bool.or_false]

theorem rebuilt_isValid : (x.rebuilt t i).isValid BLOCK_VALID_TREE = !x.refusedBelow t i := by
  unfold LoadedIndex.isValid
  rw [h.rebuilt_failed hi]
  cases hrefused : x.refusedBelow t i with
  | true => rfl
  | false =>
    obtain ⟨-, hvalidity, -⟩ := (h.stored.entry i hi).nStatus
    have hge := (h.stored.entry i hi).validity_ge
    rw [refusedBelow_eq, Bool.or_eq_false_iff] at hrefused
    have hstatus : (x.rebuilt t i).nStatus = (x.chain.entry i).nStatus := by
      unfold rebuilt
      dsimp only
      rw [hrefused.1, Bool.and_false, if_neg (by simp)]
    rw [hstatus, hvalidity]
    simpa using hge

include hcounts

theorem nChainTx_eq :
    (if 0 < (x.chain.entry i).nTx then
      match (t.parent i).map fun p => (x.chain.entry p).nChainTx with
      | some n => if n ≠ 0 then (n + (x.chain.entry i).nTx) % 2 ^ 32 else 0
      | none => (x.chain.entry i).nTx
    else 0) = (x.chain.entry i).nChainTx := by
  have hlinking := h.stored.linking
  have hnTx := hlinking.nTx i hi
  have hpos := hcounts.pos i
  have hlt := hcounts.lt i
  cases hdata : (x.chain.entry i).haveData with
  | false =>
    rw [hdata, if_neg (by simp)] at hnTx
    rw [hnTx, if_neg (by omega)]
    by_contra hcount
    have hhave := (hlinking.chainTx i hi (Ne.symm hcount)).1
    rw [hdata] at hhave
    cases hhave
  | true =>
    rw [hdata, if_pos rfl] at hnTx
    rw [hnTx, if_pos hpos]
    have hcomplete := hlinking.complete i hi hdata
    cases hp : t.parent i with
    | none =>
      have hcount := (hcomplete fun p hp' => by rw [hp] at hp'; cases hp').resolve_right
        (by simp)
      rw [(hlinking.chainTx i hi hcount).2.1, t.parent_eq_none hp, chainTx_root]
      rfl
    | some p =>
      show (if (x.chain.entry p).nChainTx ≠ 0 then
        ((x.chain.entry p).nChainTx + t.nTx i) % 2 ^ 32 else 0) = _
      by_cases hpcount : (x.chain.entry p).nChainTx = 0
      · rw [if_neg (not_not.mpr hpcount)]
        by_contra hcount
        exact (hlinking.chainTx i hi (Ne.symm hcount)).2.2 p hp hpcount
      · have hpmem := hlinking.parent_mem i hi p hp
        have hcount := (hcomplete fun q hq => by cases hp.symm.trans hq; exact hpcount).resolve_right
          (by simp)
        rw [if_pos hpcount, (hlinking.chainTx i hi hcount).2.1,
          (hlinking.chainTx p hpmem hpcount).2.1]
        rw [chainTx_parent hp] at hlt ⊢
        exact Nat.mod_eq_of_lt hlt

theorem derive_eq (hraw : m.entry (t.hash i) = x.raw t i)
    (hparent : ∀ p, t.parent i = some p → m.entry (t.hash p) = x.rebuilt t p) :
    m.derive (t.hash i) = { x.rebuilt t i with pskip := none } := by
  obtain ⟨-, -, -, -, -, hfailed, -⟩ := (h.stored.entry i hi).nStatus
  have hcount := h.nChainTx_eq hcounts hi
  have hfailed' : (x.raw t i).failed = (x.chain.entry i).failedValid := hfailed
  unfold derive rebuilt
  rw [hraw]
  dsimp only
  rw [hfailed']
  cases hp : t.parent i with
  | none =>
    have hprev : (x.raw t i).pprev = none := by
      show (t.parent i).map t.hash = none
      rw [hp]
      rfl
    rw [hp] at hcount
    obtain rfl := t.parent_eq_none hp
    rw [hprev]
    dsimp only [Option.map_none, Option.getD_none, Option.any_none]
    rw [Nat.zero_add, t.nChainWork_root, t.nTimeMax_root, ← hcount]
    rfl
  | some p =>
    have hprev : (x.raw t i).pprev = some (t.hash p) := by
      show (t.parent i).map t.hash = some (t.hash p)
      rw [hp]
      rfl
    have hpmem := h.stored.linking.parent_mem i hi p hp
    rw [hp] at hcount
    rw [hprev, Option.map_some, hparent p hp]
    simp only [Option.map_some, Option.getD_some, Option.any_some, h.rebuilt_failed hpmem]
    rw [t.nChainWork_parent hp, t.nTimeMax_parent hp, ← hcount]
    rfl

end Live

/-- Of the blocks in a list with no refused block below them, a highest one, and of
these the one with the lowest address. -/
structure IsHighest (t : HeaderTree ι powHash) (x : BlockIndex ι) (addr : uint256 → Nat)
    (L : List ι) (b : ι) : Prop where
  mem : b ∈ L
  accepted : x.refusedBelow t b = false
  highest : ∀ i ∈ L, x.refusedBelow t i = false →
    t.height i < t.height b ∨ t.height i = t.height b ∧ addr (t.hash b) ≤ addr (t.hash i)

structure Rebuilding (t : HeaderTree ι powHash) (x : BlockIndex ι) (addr : uint256 → Nat)
    (L : List ι) (m : LoadState) : Prop where
  mem : ∀ hash, hash ∈ m.mapBlockIndex ↔ ∃ i ∈ x.chain.mapBlockIndex, hash = t.hash i
  known : ∀ i ∈ L, i ∈ x.chain.mapBlockIndex
  closed : ∀ i ∈ L, ∀ p, t.parent i = some p → p ∈ L
  done : ∀ i ∈ L, m.entry (t.hash i) = x.rebuilt t i
  todo : ∀ i ∈ x.chain.mapBlockIndex, i ∉ L → m.entry (t.hash i) = x.raw t i
  best : (m.pindexBestHeader = none ∧ ∀ i ∈ L, x.refusedBelow t i = true) ∨
    ∃ b, m.pindexBestHeader = some (t.hash b) ∧ x.IsHighest t addr L b

variable {addr : uint256 → Nat} (hcounts : t.SmallCounts) (hlive : Live t x)

theorem IsHighest.append {b : ι} (h : x.IsHighest t addr L b) :
    x.IsHighest t addr (L ++ [i])
      (if x.refusedBelow t i = false ∧ (t.height b < t.height i ∨
        t.height b = t.height i ∧ addr (t.hash i) < addr (t.hash b)) then i else b) := by
  split
  case isTrue hbetter =>
    refine ⟨by simp, hbetter.1, fun j hj haccepted => ?_⟩
    rcases mem_append.mp hj with hold | hnew
    · have hle := h.highest j hold haccepted
      omega
    · rw [mem_singleton.mp hnew]
      exact .inr ⟨rfl, le_rfl⟩
  case isFalse hworse =>
    refine ⟨by simp [h.mem], h.accepted, fun j hj haccepted => ?_⟩
    rcases mem_append.mp hj with hold | hnew
    · exact h.highest j hold haccepted
    · rw [mem_singleton.mp hnew] at haccepted ⊢
      have hnot := not_and.mp hworse haccepted
      omega

theorem worse_eq {b : ι} (hb : m.entry (t.hash b) = x.rebuilt t b)
    (hi : m.entry (t.hash i) = x.rebuilt t i) :
    m.worse addr (t.hash b) (t.hash i) = true ↔ t.height b < t.height i ∨
      t.height b = t.height i ∧ addr (t.hash i) < addr (t.hash b) := by
  have hheight : ∀ j, (x.rebuilt t j).nHeight = t.height j := fun _ => rfl
  have hsequence : ∀ j, (x.rebuilt t j).nSequenceId = 0 := fun _ => rfl
  unfold LoadState.worse
  rw [hb, hi]
  simp only [hheight, hsequence, lt_irrefl, if_false]
  split_ifs with hlow hhigh
  · simp only [false_iff]
    omega
  · simp only [true_iff]
    omega
  · rw [decide_eq_true_iff]
    omega

section

variable (h : Rebuilding t x addr L m)

include h

theorem Rebuilding.mem_of_isAncestor {a : ι} (hi : i ∈ L) (ha : t.IsAncestor a i) : a ∈ L := by
  obtain ⟨n, hn⟩ := ha
  induction n generalizing i with
  | zero =>
    cases hn
    exact hi
  | succ n ih =>
    obtain ⟨j, hj, hup⟩ := Option.bind_eq_some_iff.mp hn
    exact ih (h.closed i hi j hj) hup

theorem Rebuilding.buildSkip (entry : LoadedIndex) (hnew : i ∉ L)
    (hparent : ∀ p, t.parent i = some p → p ∈ L) (hpprev : entry.pprev = (t.parent i).map t.hash)
    (hpskip : entry.pskip = none) (hheight : entry.nHeight = t.height i) :
    (m.setEntry (t.hash i) entry).pointers.buildSkip (t.hash i) = .ok ((t.skip i).map t.hash) := by
  have hself : (m.setEntry (t.hash i) entry).entry (t.hash i) = entry := by
    simp [setEntry]
  cases hp : t.parent i with
  | none =>
    unfold BlockPointers.buildSkip HeaderTree.skip LoadState.pointers
    dsimp only
    rw [hself, hpprev, hpskip, hp]
    rfl
  | some p =>
    have hlinked : (m.setEntry (t.hash i) entry).pointers.Linked t.toAncestry t.hash p := by
      have hentry : ∀ a, t.IsAncestor a p →
          (m.setEntry (t.hash i) entry).entry (t.hash a) = x.rebuilt t a := by
        intro a ha
        have haL := h.mem_of_isAncestor (hparent p hp) ha
        have hne : t.hash a ≠ t.hash i := fun heq => hnew (t.hash_injective heq ▸ haL)
        exact (Function.update_of_ne hne entry m.entry).trans (h.done a haL)
      refine ⟨fun a ha => ?_, fun a ha => ?_, fun a ha k hk => ?_⟩
      · exact congrArg LoadedIndex.nHeight (hentry a ha)
      · exact congrArg LoadedIndex.pprev (hentry a ha)
      · have hskip : (t.skip a).map t.hash = some k :=
          (congrArg LoadedIndex.pskip (hentry a ha)).symm.trans hk
        obtain ⟨b, hb, rfl⟩ := Option.map_eq_some_iff.mp hskip
        obtain ⟨q, -, hancestor⟩ := Option.bind_eq_some_iff.mp hb
        exact ⟨b, hancestor, rfl⟩
    rw [t.skip_parent hp]
    refine hlinked.buildSkip hp ?_ ?_
    · show ((m.setEntry (t.hash i) entry).entry (t.hash i)).pprev = some (t.hash p)
      rw [hself, hpprev, hp]
      rfl
    · show ((m.setEntry (t.hash i) entry).entry (t.hash i)).nHeight = t.height i
      rw [hself, hheight]

include hcounts hlive

theorem Rebuilding.process (hi : i ∈ x.chain.mapBlockIndex) (hnew : i ∉ L)
    (hparent : ∀ p, t.parent i = some p → p ∈ L)
    (hallows : checkpointAllows (t.height i) (t.hash i) = true) :
    ∃ m', m.process addr (t.hash i) = .ok m' ∧ Rebuilding t x addr (L ++ [i]) m' := by
  have hraw := h.todo i hi hnew
  have hderive := hlive.derive_eq hcounts hi hraw fun p hp => h.done p (hparent p hp)
  have hskip := h.buildSkip { x.rebuilt t i with pskip := none } hnew hparent rfl rfl rfl
  have hheight : (m.entry (t.hash i)).nHeight = t.height i := by
    rw [hraw]
    rfl
  have hset : (m.setEntry (t.hash i) { x.rebuilt t i with pskip := none }).setEntry (t.hash i)
      (x.rebuilt t i) = m.setEntry (t.hash i) (x.rebuilt t i) := by
    simp only [setEntry, Function.update_idem]
  obtain ⟨m', hprocess, hmap, hentry, hbest⟩ : ∃ m', m.process addr (t.hash i) = .ok m' ∧
      m'.mapBlockIndex = m.mapBlockIndex ∧
      m'.entry = Function.update m.entry (t.hash i) (x.rebuilt t i) ∧
      m'.pindexBestHeader =
        if (x.rebuilt t i).isValid BLOCK_VALID_TREE && m.pindexBestHeader.all (fun best =>
          (m.setEntry (t.hash i) (x.rebuilt t i)).worse addr best (t.hash i)) then some (t.hash i)
        else m.pindexBestHeader := by
    unfold LoadState.process
    rw [hheight, hallows, hderive]
    simp only [Bool.not_true, Bool.false_eq_true, if_false]
    show ∃ m', Except.bind _ _ = _ ∧ _
    rw [hskip]
    show ∃ m', Except.ok _ = _ ∧ _
    refine ⟨_, rfl, rfl, ?_, ?_⟩
    · exact congrArg entry hset
    · rw [← hset]
      rfl
  have hself : m'.entry (t.hash i) = x.rebuilt t i := by rw [hentry, Function.update_self]
  have hother : ∀ {j}, j ≠ i → m'.entry (t.hash j) = m.entry (t.hash j) := by
    intro j hj
    rw [hentry, Function.update_of_ne (t.hash_ne hj)]
  refine ⟨m', hprocess, ?_, ?_, ?_, ?_, ?_, ?_⟩
  · rw [hmap]
    exact h.mem
  · intro j hj
    rcases mem_append.mp hj with hold | hadded
    · exact h.known j hold
    · rwa [mem_singleton.mp hadded]
  · intro j hj p hp
    rcases mem_append.mp hj with hold | hadded
    · exact mem_append_left [i] (h.closed j hold p hp)
    · rw [mem_singleton.mp hadded] at hp
      exact mem_append_left [i] (hparent p hp)
  · intro j hj
    rcases mem_append.mp hj with hold | hadded
    · rw [hother (by rintro rfl; exact hnew hold)]
      exact h.done j hold
    · rw [mem_singleton.mp hadded, hself]
  · intro j hj hnot
    rw [mem_append, mem_singleton, not_or] at hnot
    rw [hother hnot.2]
    exact h.todo j hj hnot.1
  · rw [hbest, hlive.rebuilt_isValid hi]
    rcases h.best with ⟨hnone, hall⟩ | ⟨b, hsome, hhighest⟩
    · rw [hnone, Option.all_none, Bool.and_true]
      cases hrefused : x.refusedBelow t i with
      | true =>
        refine .inl ⟨rfl, fun j hj => ?_⟩
        rcases mem_append.mp hj with hold | hadded
        · exact hall j hold
        · rwa [mem_singleton.mp hadded]
      | false =>
        refine .inr ⟨i, rfl, by simp, hrefused, fun j hj haccepted => ?_⟩
        rcases mem_append.mp hj with hold | hadded
        · rw [hall j hold] at haccepted
          cases haccepted
        · rw [mem_singleton.mp hadded]
          exact .inr ⟨rfl, le_rfl⟩
    · have hworse : (m.setEntry (t.hash i) (x.rebuilt t i)).worse addr (t.hash b) (t.hash i) = true ↔
          t.height b < t.height i ∨
            t.height b = t.height i ∧ addr (t.hash i) < addr (t.hash b) := by
        have hset' : (m.setEntry (t.hash i) (x.rebuilt t i)).entry = m'.entry := hentry.symm
        refine worse_eq (x := x) ?_ (by rw [hset', hself])
        rw [hset', hother (by rintro rfl; exact hnew hhighest.mem)]
        exact h.done b hhighest.mem
      refine .inr ⟨_, ?_, hhighest.append (i := i)⟩
      rw [hsome, Option.all_some]
      simp only [Bool.and_eq_true, Bool.not_eq_true', hworse]
      split_ifs <;> rfl

theorem Rebuilding.run {rest : List ι} (hmem : ∀ i ∈ rest, i ∈ x.chain.mapBlockIndex)
    (hnodup : (L ++ rest).Nodup)
    (hparent : ∀ L' i R, L ++ rest = L' ++ i :: R → ∀ p, t.parent i = some p → p ∈ L') :
    (∃ m', (rest.map t.hash).foldlM (LoadState.process addr) m = .ok m' ∧
        Rebuilding t x addr (L ++ rest) m' ∧
        ∀ i ∈ rest, checkpointAllows (t.height i) (t.hash i) = true) ∨
      ((∃ failure, (rest.map t.hash).foldlM (LoadState.process addr) m = .error failure) ∧
        ∃ i ∈ rest, checkpointAllows (t.height i) (t.hash i) = false) := by
  induction rest generalizing L m with
  | nil => exact .inl ⟨m, rfl, by rwa [append_nil], fun i hi => absurd hi (by simp)⟩
  | cons i rest ih =>
    have hi := hmem i mem_cons_self
    have hnew : i ∉ L := fun hiL => (nodup_append.mp hnodup).2.2 i hiL i mem_cons_self rfl
    rw [map_cons, foldlM_cons]
    cases hallows : checkpointAllows (t.height i) (t.hash i) with
    | false =>
      have hheight : (m.entry (t.hash i)).nHeight = t.height i := by
        rw [h.todo i hi hnew]
        rfl
      refine .inr ⟨⟨.error "Failed while validating POW checks against checkpoints", ?_⟩,
        i, mem_cons_self, hallows⟩
      unfold LoadState.process
      rw [hheight, hallows]
      rfl
    | true =>
      obtain ⟨m₁, hprocess, h₁⟩ := h.process hcounts hlive hi hnew (hparent L i rest rfl) hallows
      rw [hprocess]
      rcases ih h₁ (fun j hj => hmem j (mem_cons_of_mem i hj))
          (by rwa [append_assoc]) (by rwa [append_assoc]) with
        ⟨m', hrun, h', hall⟩ | ⟨⟨failure, hrun⟩, j, hj, hforbids⟩
      · exact .inl ⟨m', hrun, by rwa [append_assoc] at h', forall_mem_cons.mpr ⟨hallows, hall⟩⟩
      · exact .inr ⟨⟨failure, hrun⟩, j, mem_cons_of_mem i hj, hforbids⟩

end

/-! ## The entries in the order of their heights -/

section Sorted

variable {order : List ι} (horder : order.Perm x.chain.mapBlockIndex)

include hlive horder

theorem Loaded.mem_iff (h : Loaded t x order m) (hash : uint256) :
    hash ∈ m.mapBlockIndex ↔ ∃ i ∈ x.chain.mapBlockIndex, hash = t.hash i := by
  rw [h.mem]
  constructor
  · rintro ⟨i, hi, rfl | ⟨p, hp, rfl⟩⟩
    · exact ⟨i, horder.mem_iff.mp hi, rfl⟩
    · exact ⟨p, hlive.stored.linking.parent_mem i (horder.mem_iff.mp hi) p hp, rfl⟩
  · rintro ⟨i, hi, rfl⟩
    exact ⟨i, horder.mem_iff.mpr hi, .inl rfl⟩

theorem Loaded.sortedByHeight (h : Loaded t x order m) (addr : uint256 → Nat) :
    ∃ S : List ι, m.sortedByHeight addr = S.map t.hash ∧ S.Perm x.chain.mapBlockIndex ∧
      ∀ L' i R, S = L' ++ i :: R → ∀ p, t.parent i = some p → p ∈ L' := by
  have hkeys : m.mapBlockIndex.Perm (x.chain.mapBlockIndex.map t.hash) := by
    have hnodup : (x.chain.mapBlockIndex.map t.hash).Nodup :=
      hlive.stored.nodup.map fun i j heq => t.hash_injective heq
    refine (perm_ext_iff_of_nodup h.nodup hnodup).mpr fun hash => ?_
    rw [h.mem_iff hlive horder, mem_map]
    exact ⟨fun ⟨i, hi, heq⟩ => ⟨i, hi, heq.symm⟩, fun ⟨i, hi, heq⟩ => ⟨i, hi, heq.symm⟩⟩
  have hperm := (perm_insertionSort (m.ByHeight addr) m.mapBlockIndex).trans hkeys
  have : Std.Total (m.ByHeight addr) := ⟨fun a b => by
    unfold LoadState.ByHeight
    omega⟩
  have : IsTrans uint256 (m.ByHeight addr) := ⟨fun a b c hab hbc => by
    unfold LoadState.ByHeight at *
    omega⟩
  have hsorted := pairwise_insertionSort (m.ByHeight addr) m.mapBlockIndex
  obtain ⟨S, hpairs, hSperm⟩ := perm_comp_forall₂ (r := fun hash i => hash = t.hash i) hperm
    (forall₂_map_left_iff.mpr (forall₂_same.mpr fun _ _ => rfl))
  have hS : m.sortedByHeight addr = S.map t.hash := by
    rw [← forall₂_eq_eq_eq, forall₂_map_right_iff]
    exact hpairs
  refine ⟨S, hS, hSperm, ?_⟩
  rintro L' i R rfl p hp
  have hi : i ∈ x.chain.mapBlockIndex := hSperm.mem_iff.mp (by simp)
  have hpmem := hSperm.mem_iff.mpr (hlive.stored.linking.parent_mem i hi p hp)
  rcases mem_append.mp hpmem with hbefore | hafter
  · exact hbefore
  · have hheight := t.height_parent hp
    have hle : t.height i ≤ t.height p := by
      rcases mem_cons.mp hafter with rfl | hlater
      · exact le_rfl
      · have hpairwise : ((L' ++ i :: R).map t.hash).Pairwise (m.ByHeight addr) := hS ▸ hsorted
        rw [pairwise_map, pairwise_append, pairwise_cons] at hpairwise
        have hby := hpairwise.2.1.1 p hlater
        have hentry : ∀ j ∈ L' ++ i :: R, (m.entry (t.hash j)).nHeight = t.height j := by
          intro j hj
          rw [h.entry j (horder.mem_iff.mpr (hSperm.mem_iff.mp hj))]
          rfl
        rw [LoadState.ByHeight, hentry i (by simp), hentry p (by simp [hlater])] at hby
        omega
    omega

include hcounts in
theorem Live.loadBlockIndex (addr : uint256 → Nat) :
    (∃ m, LoadState.loadBlockIndex addr (order.map (x.record t)) = .ok m ∧
        (∃ S, S.Perm x.chain.mapBlockIndex ∧ Rebuilding t x addr S m) ∧
        ∀ i ∈ x.chain.mapBlockIndex,
          checkpointAllows (t.height i) (t.hash i) = true) ∨
      ((∃ failure, LoadState.loadBlockIndex addr (order.map (x.record t)) = .error failure) ∧
        ∃ i ∈ x.chain.mapBlockIndex,
          checkpointAllows (t.height i) (t.hash i) = false) := by
  obtain ⟨m, hguts, hloaded⟩ := (loaded_nil t x).loadBlockIndexGuts hcounts hlive
    (fun i hi => horder.mem_iff.mp hi) (horder.nodup_iff.mpr hlive.stored.nodup)
  rw [nil_append] at hloaded
  obtain ⟨S, hS, hSperm, hparent⟩ := hloaded.sortedByHeight hlive horder addr
  have hstart : Rebuilding t x addr [] m := by
    refine ⟨hloaded.mem_iff hlive horder, ?_, ?_, ?_, fun i hi _ => ?_, .inl ⟨?_, ?_⟩⟩
    · exact fun i hi => absurd hi (by simp)
    · exact fun i hi => absurd hi (by simp)
    · exact fun i hi => absurd hi (by simp)
    · exact hloaded.entry i (horder.mem_iff.mpr hi)
    · rw [hloaded.rest]
      rfl
    · exact fun i hi => absurd hi (by simp)
  have hload : LoadState.loadBlockIndex addr (order.map (x.record t)) =
      (S.map t.hash).foldlM (LoadState.process addr) m := by
    rw [← hS]
    unfold LoadState.loadBlockIndex
    rw [hguts]
    rfl
  rw [hload]
  rcases hstart.run hcounts hlive (fun i hi => hSperm.mem_iff.mp hi)
      (hSperm.nodup_iff.mpr hlive.stored.nodup) hparent with
    ⟨m', hrun, hrebuilt, hall⟩ | ⟨hfails, i, hi, hforbids⟩
  · exact .inl ⟨m', hrun, ⟨S, hSperm, hrebuilt⟩, fun i hi => hall i (hSperm.mem_iff.mpr hi)⟩
  · exact .inr ⟨hfails, i, hSperm.mem_iff.mp hi, hforbids⟩

end Sorted

/-! ## Equivalence -/

structure SameEntry (t : HeaderTree ι powHash) (x : BlockIndex ι) (i : ι) (entry : LoadedIndex) :
    Prop where
  pprev : entry.pprev = (x.links i).pprev.map t.hash
  pskip : entry.pskip = (x.links i).pskip.map t.hash
  nHeight : entry.nHeight = (x.links i).nHeight
  nChainWork : entry.nChainWork = (x.links i).nChainWork
  nTimeMax : entry.nTimeMax = (x.links i).nTimeMax
  header : (entry.nVersion, entry.hashMerkleRoot, entry.nTime, entry.nBits, entry.nNonce) =
    ((t.header i).nVersion, (t.header i).hashMerkleRoot, (t.header i).nTime, (t.header i).nBits,
      (t.header i).nNonce)
  nTx : entry.nTx = (x.chain.entry i).nTx
  nChainTx : entry.nChainTx = (x.chain.entry i).nChainTx
  nStatus : entry.nStatus = (x.chain.entry i).nStatus ∨
    entry.nStatus = (x.chain.entry i).nStatus ||| BLOCK_FAILED_CHILD

structure Equivalent (t : HeaderTree ι powHash) (x : BlockIndex ι) (m : LoadState) : Prop where
  mem : ∀ hash, hash ∈ m.mapBlockIndex ↔ ∃ i ∈ x.chain.mapBlockIndex, hash = t.hash i
  entry : ∀ i ∈ x.chain.mapBlockIndex, SameEntry t x i (m.entry (t.hash i))
  best : ∃ b hash, x.pindexBestHeader = some b ∧ m.pindexBestHeader = some hash ∧
    (m.entry hash).nChainWork = (x.links b).nChainWork

theorem Live.sameEntry (h : Live t x) (hi : i ∈ x.chain.mapBlockIndex) :
    SameEntry t x i (x.rebuilt t i) := by
  have hlinks := h.links i hi
  refine ⟨?_, ?_, ?_, ?_, ?_, rfl, rfl, rfl, ?_⟩
  · rw [hlinks]
    rfl
  · rw [hlinks]
    rfl
  · rw [hlinks]
    rfl
  · rw [hlinks]
    rfl
  · rw [hlinks]
    rfl
  · unfold rebuilt
    dsimp only
    split
    · exact .inr rfl
    · exact .inl rfl

theorem refusedBelow_root (h : Live t x) : x.refusedBelow t t.root = false := by
  rw [refusedBelow_eq, parent_root, Option.map_none, Option.getD_none, Bool.false_or]
  by_contra hfailed
  have hnone := (h.stored.entry _ h.stored.root_mem).failedValid (by simpa using hfailed)
  rw [h.stored.root_data] at hnone
  cases hnone

theorem Rebuilding.exists_best {S : List ι} (hlive : Live t x) (h : Rebuilding t x addr S m)
    (hS : S.Perm x.chain.mapBlockIndex) :
    ∃ b, m.pindexBestHeader = some (t.hash b) ∧ x.IsHighest t addr x.chain.mapBlockIndex b ∧
      (m.entry (t.hash b)).nChainWork = t.nChainWork b := by
  rcases h.best with ⟨-, hall⟩ | ⟨b, hsome, hhighest⟩
  · have hroot := hall t.root (hS.mem_iff.mpr hlive.stored.root_mem)
    rw [refusedBelow_root hlive] at hroot
    cases hroot
  · refine ⟨b, hsome, ⟨hS.mem_iff.mp hhighest.mem, hhighest.accepted, fun i hi => ?_⟩, ?_⟩
    · exact hhighest.highest i (hS.mem_iff.mpr hi)
    · rw [h.done b hhighest.mem]
      rfl

theorem IsHighest.unique {b c : ι} (haddr : Function.Injective addr) (hb : x.IsHighest t addr L b)
    (hc : x.IsHighest t addr L c) : b = c := by
  have hbc := hb.highest c hc.mem hc.accepted
  have hcb := hc.highest b hb.mem hb.accepted
  have hsame : addr (t.hash b) = addr (t.hash c) := by omega
  exact t.hash_injective (haddr hsame)

/-- The written index loads to an equivalent one exactly if the checkpoints allow every
entry and the highest header has the most work. -/
theorem loadBlockIndex_equivalent_iff [LinearOrder ι] {order : List ι} (hcounts : t.SmallCounts)
    (h : Reachable t x) (horder : order.Perm x.chain.mapBlockIndex)
    (haddr : Function.Injective addr) :
    (∃ m, LoadState.loadBlockIndex addr (order.map (x.record t)) = .ok m ∧ Equivalent t x m) ↔
      (∀ i ∈ x.chain.mapBlockIndex, LoadState.checkpointAllows (t.height i) (t.hash i) = true) ∧
        ∀ b, x.IsHighest t addr x.chain.mapBlockIndex b →
          ∀ j ∈ x.chain.mapBlockIndex, t.nChainWork j ≤ t.nChainWork b := by
  have hlive := h.live hcounts
  obtain ⟨best, hbestmem, hbest, hmax⟩ := hlive.best
  have hwork : (x.links best).nChainWork = t.nChainWork best := by
    rw [hlive.links best hbestmem]
    rfl
  rcases hlive.loadBlockIndex hcounts horder addr with
    ⟨m, hload, ⟨S, hS, hrebuilt⟩, hall⟩ | ⟨⟨failure, hfails⟩, i, hi, hforbids⟩
  · obtain ⟨b, hheader, hhighest, hbwork⟩ := hrebuilt.exists_best hlive hS
    constructor
    · rintro ⟨m', hload', -, -, b', hash, hb', hhash, heq⟩
      cases hload.symm.trans hload'
      cases hbest.symm.trans hb'
      cases hheader.symm.trans hhash
      refine ⟨hall, fun c hc j hj => ?_⟩
      rw [hc.unique haddr hhighest, ← hbwork, heq, hwork]
      exact hmax j hj
    · rintro ⟨-, hmost⟩
      refine ⟨m, hload, hrebuilt.mem, fun i hi => ?_, best, t.hash b, hbest, hheader, ?_⟩
      · rw [hrebuilt.done i (hS.mem_iff.mpr hi)]
        exact hlive.sameEntry hi
      · rw [hbwork, hwork]
        exact Nat.le_antisymm (hmax b hhighest.mem) (hmost b hhighest best hbestmem)
  · constructor
    · rintro ⟨m, hload, -⟩
      rw [hfails] at hload
      cases hload
    · rintro ⟨hall, -⟩
      rw [hall i hi] at hforbids
      cases hforbids

/-! ## A fork at the start of the main chain -/

/-- The genesis block of the main network, an X17 block on it, and two Blake blocks
on another branch.  All have the bits of `powLimit`, as the first blocks must. -/
def forkHeader : Fin 4 → CBlockHeader
  | 0 => ⟨1, 0, 0x1c83275d9151711eec3aec37d829837cc3c2730b2bdfd00ec5e8e5dce675fd00, 1412878964,
      0x1e0fffff, 1473191, 0x00000fc63692467faeb20cdb3b53200dc601d75bdfa1001463304cc790d77278⟩
  | 1 => ⟨6146, 0x00000fc63692467faeb20cdb3b53200dc601d75bdfa1001463304cc790d77278, 0, 1412879000,
      0x1e0fffff, 1, 1⟩
  | 2 => ⟨8194, 0x00000fc63692467faeb20cdb3b53200dc601d75bdfa1001463304cc790d77278, 0, 1412879000,
      0x1e0fffff, 2, 2⟩
  | 3 => ⟨8194, 2, 0, 1412879030, 0x1e0fffff, 3, 3⟩

def forkHash (_ : Algo) (bytes : List UInt8) : uint256 :=
  if bytes = (forkHeader 0).bytes then (forkHeader 0).hash
  else BitVec.ofNat 256 (bytes.getD 76 0).toNat

def forkAncestry : Ancestry (Fin 4) where
  root := 0
  parent
    | 0 => none
    | 1 => some 0
    | 2 => some 0
    | 3 => some 2
  height
    | 0 => 0
    | 1 => 1
    | 2 => 1
    | 3 => 2
  parent_eq_none := by decide
  height_root := rfl
  height_parent := by decide

def forkTree : HeaderTree (Fin 4) forkHash where
  toAncestry := forkAncestry
  nChainWork := forkAncestry.accumulate fun before j =>
    (before.getD 0 + getBlockProof (forkHeader j).nVersion (forkHeader j).nBits) % 2 ^ 256
  nTx _ := 1
  header := forkHeader
  inRange i := ⟨by decide +revert, by decide +revert, by decide +revert, by decide +revert,
    by decide +revert⟩
  hash_eq := by decide +kernel
  hash_ne_zero := by decide +kernel
  hash_injective := by decide +kernel
  hashPrevBlock_root := rfl
  hashPrevBlock_parent := by decide +kernel
  nChainWork_eq _ := rfl
  height_lt := by decide +kernel
  root_check := by decide +kernel

theorem forkTree_smallCounts : forkTree.SmallCounts := ⟨by decide, by decide +kernel⟩

def acceptHeaders [LinearOrder ι] (t : HeaderTree ι powHash) (x : BlockIndex ι) (headers : List ι) :
    Except Failure (BlockIndex ι) :=
  headers.foldlM (fun (y : BlockIndex ι) i => y.apply t (.header i true)) x

theorem Reachable.acceptHeaders [LinearOrder ι] {x' : BlockIndex ι} {headers : List ι}
    (h : Reachable t x) (heq : x.acceptHeaders t headers = .ok x') : Reachable t x' := by
  induction headers generalizing x with
  | nil =>
    cases heq
    exact h
  | cons i headers ih =>
    rw [BlockIndex.acceptHeaders, foldlM_cons] at heq
    cases hstep : x.apply t (.header i true) with
    | error failure =>
      rw [hstep] at heq
      cases heq
    | ok y =>
      rw [hstep] at heq
      exact ih (.step h (show (Operation.header i true).InRange from trivial) hstep) heq

private theorem exists_reachable_of_eval {α : Type} [LinearOrder ι] {headers : List ι}
    {f : BlockIndex ι → α} {value : α}
    (h : ((genesis t).acceptHeaders t headers).toOption.map f = some value) :
    ∃ x, Reachable t x ∧ f x = value := by
  cases heq : (genesis t).acceptHeaders t headers with
  | error failure =>
    rw [heq] at h
    cases h
  | ok x =>
    rw [heq] at h
    exact ⟨x, Reachable.acceptHeaders .genesis heq, Option.some.inj h⟩

theorem loadBlockIndex_equivalent_iff_sample :
    ∃ x, Reachable forkTree x ∧ 1 ∈ x.chain.mapBlockIndex ∧
      ∃ m, LoadState.loadBlockIndex BitVec.toNat
        (x.chain.mapBlockIndex.map (x.record forkTree)) = .ok m ∧ Equivalent forkTree x m := by
  have heval : ((genesis forkTree).acceptHeaders forkTree [1]).toOption.map
        (fun x => (x.chain.mapBlockIndex, x.refusedBelow forkTree 1)) = some ([1, 0], false) := by
    decide +kernel
  obtain ⟨x, hx, heq⟩ := exists_reachable_of_eval heval
  obtain ⟨hmap, haccepted⟩ : _ ∧ _ := by simpa only [Prod.mk.injEq] using heq
  refine ⟨x, hx, by rw [hmap]; decide, (loadBlockIndex_equivalent_iff forkTree_smallCounts hx
    (List.Perm.refl _) (fun _ _ => BitVec.eq_of_toNat_eq)).mpr ⟨?_, fun b hb => ?_⟩⟩
  · rw [hmap]
    decide +kernel
  · have hb1 : b ≠ 0 := by
      rintro rfl
      have hnot := hb.highest 1 (by rw [hmap]; decide) haccepted
      exact absurd hnot (by decide)
    have hmem := hb.mem
    rw [hmap] at hmem ⊢
    obtain rfl : b = 1 := by simpa [hb1] using hmem
    decide +kernel

/-- The X17 block has more work than the two Blake blocks together, but they are
higher: after a restart the best header is one with less work. -/
theorem loadBlockIndex_loses_best_header :
    ∃ x m, Reachable forkTree x ∧ LoadState.loadBlockIndex BitVec.toNat
        (x.chain.mapBlockIndex.map (x.record forkTree)) = .ok m ∧
      x.pindexBestHeader = some 1 ∧ m.pindexBestHeader = some (forkTree.hash 3) ∧
      (m.entry (forkTree.hash 3)).nChainWork < (x.links 1).nChainWork ∧
      ¬Equivalent forkTree x m := by
  have heval : ((genesis forkTree).acceptHeaders forkTree [1, 2, 3]).toOption.map (fun x =>
        (x.pindexBestHeader, (LoadState.loadBlockIndex BitVec.toNat
          (x.chain.mapBlockIndex.map (x.record forkTree))).toOption.map fun m =>
            (m.pindexBestHeader,
              decide ((m.entry (forkTree.hash 3)).nChainWork < (x.links 1).nChainWork)))) =
      some (some 1, some (some (forkTree.hash 3), true)) := by
    decide +kernel
  obtain ⟨x, hx, heq⟩ := exists_reachable_of_eval heval
  obtain ⟨hbest, hload⟩ : _ ∧ _ := by simpa only [Prod.mk.injEq] using heq
  cases hm : LoadState.loadBlockIndex BitVec.toNat
      (x.chain.mapBlockIndex.map (x.record forkTree)) with
  | error failure =>
    rw [hm] at hload
    cases hload
  | ok m =>
    rw [hm] at hload
    obtain ⟨hheader, hless⟩ : _ ∧ _ := by
      simpa only [Except.toOption, Option.map_some, Option.some.injEq, Prod.mk.injEq,
        decide_eq_true_eq] using hload
    refine ⟨x, m, hx, hm, hbest, hheader, hless, fun hequiv => ?_⟩
    obtain ⟨b, hash, hb, hhash, hwork⟩ := hequiv.best
    cases hbest.symm.trans hb
    cases hheader.symm.trans hhash
    omega

end BlockIndex

end Verge
