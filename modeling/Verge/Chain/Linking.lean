import Verge.Chain.FindMostWork
import Verge.Chain.Operations

/-!
# Blocks that arrive in any order

`ReceivedBlockTransactions` sets `nChainTx` once all ancestors of a block are
received; a block that comes too early waits in `mapBlocksUnlinked`.  The queue
that links the waiting blocks leaves `nChainTx` set for exactly the blocks whose
ancestors are all there.
-/

namespace Verge

open Foundation List Ancestry CBlockIndex
open scoped CChainState

variable {ι : Type} [LinearOrder ι]

namespace BlockTree

/-! ## Numbers of transactions -/

def chainTx (t : BlockTree ι) : ι → Nat :=
  t.accumulate fun before i => before.getD 0 + t.nTx i

omit [LinearOrder ι] in
theorem chainTx_parent {t : BlockTree ι} {i p : ι} (h : t.parent i = some p) :
    t.chainTx i = t.chainTx p + t.nTx i :=
  accumulate_parent _ h

omit [LinearOrder ι] in
theorem chainTx_root (t : BlockTree ι) : t.chainTx t.root = t.nTx t.root :=
  (accumulate_root _).trans (Nat.zero_add _)

/-- Every block has a transaction, and `nChainTx` is an `unsigned int` that does
not wrap round. -/
structure SmallCounts (t : BlockTree ι) : Prop where
  pos : ∀ i, 0 < t.nTx i
  lt : ∀ i, t.chainTx i < 2 ^ 32

/-! ## Linked blocks -/

/-- All blocks of the index with data are linked or wait for their parent, except those in
the queue and those whose parent is lost. -/
structure Linking (t : BlockTree ι) (lost : ι → Prop) (queue : List ι) (s : CChainState ι) :
    Prop where
  nTx : ∀ i ∈ s.mapBlockIndex, (s.entry i).nTx = if (s.entry i).haveData then t.nTx i else 0
  chainTx : ∀ i ∈ s.mapBlockIndex, (s.entry i).nChainTx ≠ 0 → (s.entry i).haveData = true ∧
    (s.entry i).nChainTx = t.chainTx i ∧ ∀ p, t.parent i = some p → (s.entry p).nChainTx ≠ 0
  complete : ∀ i ∈ s.mapBlockIndex, (s.entry i).haveData = true →
    (∀ p, t.parent i = some p → (s.entry p).nChainTx ≠ 0) → (s.entry i).nChainTx ≠ 0 ∨ i ∈ queue
  waiting : ∀ i ∈ s.mapBlockIndex, (s.entry i).haveData = true → ∀ p, t.parent i = some p →
    (s.entry p).nChainTx = 0 → (p, i) ∈ s.mapBlocksUnlinked ∨ lost p
  unlinked : ∀ p i, (p, i) ∈ s.mapBlocksUnlinked → i ∈ s.mapBlockIndex ∧
    t.parent i = some p ∧ (s.entry i).haveData = true ∧ (s.entry p).nChainTx = 0
  nodup : s.mapBlocksUnlinked.Nodup
  parent_mem : ∀ i ∈ s.mapBlockIndex, ∀ p, t.parent i = some p → p ∈ s.mapBlockIndex
  queued : ∀ i ∈ queue, i ∈ s.mapBlockIndex ∧ (s.entry i).haveData = true ∧
    (s.entry i).nChainTx = 0 ∧ ∀ p, t.parent i = some p → (s.entry p).nChainTx ≠ 0
  queue_nodup : queue.Nodup
  lost_data : ∀ i, lost i → (s.entry i).haveData = false

structure LinkEffect (t : BlockTree ι) (s s' : CChainState ι) : Prop where
  rest : s' = { s with
    entry := s'.entry
    setBlockIndexCandidates := s'.setBlockIndexCandidates
    mapBlocksUnlinked := s'.mapBlocksUnlinked
    nBlockSequenceId := s'.nBlockSequenceId }
  entry : ∀ i, s'.entry i = s.entry i ∨
    (s.entry i).nChainTx = 0 ∧ (s'.entry i).nChainTx ≠ 0 ∧
      s'.entry i = { s.entry i with
        nChainTx := (s'.entry i).nChainTx
        nSequenceId := (s'.entry i).nSequenceId }
  kept : ∀ i ∈ s.setBlockIndexCandidates, i ∈ s'.setBlockIndexCandidates
  inserted : ∀ i, (s.entry i).nChainTx = 0 → (s'.entry i).nChainTx ≠ 0 →
    t.worse s' i s.tip = false → i ∈ s'.setBlockIndexCandidates
  only : ∀ i ∈ s'.setBlockIndexCandidates, i ∈ s.setBlockIndexCandidates ∨
    (s.entry i).nChainTx = 0 ∧ (s'.entry i).nChainTx ≠ 0 ∧ t.worse s' i s.tip = false

variable {t : BlockTree ι} {s s' s'' : CChainState ι} {i j : ι} {lost lost' : ι → Prop}
  {queue : List ι}

theorem worse_congr (hi : s'.entry i = s.entry i) (hj : s'.entry j = s.entry j) :
    t.worse s' i j = t.worse s i j := by
  unfold worse
  rw [hi, hj]

namespace LinkEffect

theorem refl (t : BlockTree ι) (s : CChainState ι) : LinkEffect t s s where
  rest := rfl
  entry _ := .inl rfl
  kept _ h := h
  inserted _ h h' := absurd h h'
  only _ h := .inl h

theorem tip (h : LinkEffect t s s') : s'.tip = s.tip := by
  rw [h.rest]

theorem entry_of_linked (h : LinkEffect t s s') (hi : (s.entry i).nChainTx ≠ 0) :
    s'.entry i = s.entry i :=
  (h.entry i).resolve_right fun hnew => hi hnew.1

theorem trans (htip : (s.entry s.tip).nChainTx ≠ 0) (h : LinkEffect t s s')
    (h' : LinkEffect t s' s'') : LinkEffect t s s'' := by
  have htip' : s''.entry s.tip = s'.entry s.tip := by
    refine h'.entry_of_linked ?_
    rw [h.entry_of_linked htip]
    exact htip
  -- a block that is linked keeps its rank
  have hworse : ∀ {i}, (s'.entry i).nChainTx ≠ 0 → t.worse s'' i s.tip = t.worse s' i s.tip :=
    fun hi => worse_congr (h'.entry_of_linked hi) htip'
  refine ⟨?_, fun i => ?_, fun i hi => h'.kept i (h.kept i hi), fun i hold hnew hrank => ?_,
    fun i hi => ?_⟩
  · rw [h'.rest, h.rest]
  · rcases h'.entry i with heq | ⟨hold, hnew, heq⟩
    · rw [heq]
      exact h.entry i
    · have hsame : s'.entry i = s.entry i := (h.entry i).resolve_right fun hlink => hlink.2.1 hold
      rw [hsame] at hold heq
      exact .inr ⟨hold, hnew, heq⟩
  · by_cases hmid : (s'.entry i).nChainTx = 0
    · exact h'.inserted i hmid hnew (by rw [h.tip]; exact hrank)
    · rw [hworse hmid] at hrank
      exact h'.kept i (h.inserted i hold hmid hrank)
  · rcases h'.only i hi with hmid | ⟨hmid, hnew, hrank⟩
    · rcases h.only i hmid with hold | ⟨hold, hlink, hrank⟩
      · exact .inl hold
      · refine .inr ⟨hold, ?_, ?_⟩
        · rw [h'.entry_of_linked hlink]
          exact hlink
        · rw [hworse hlink]
          exact hrank
    · have hsame : s'.entry i = s.entry i := (h.entry i).resolve_right fun hlink => hlink.2.1 hmid
      rw [hsame] at hmid
      rw [h.tip] at hrank
      exact .inr ⟨hmid, hnew, hrank⟩

end LinkEffect

/-! ## The queue -/

def waitingFor (s : CChainState ι) (i : ι) : List ι :=
  (s.mapBlocksUnlinked.filter fun p => p.1 = i).map Prod.snd

def numbered (t : BlockTree ι) (s : CChainState ι) (i : ι) : CChainState ι :=
  let before := ((t.parent i).map fun pprev => (s.entry pprev).nChainTx).getD 0
  { s.modify [i] (fun entry =>
      { entry with
        nChainTx := (before + entry.nTx) % 2 ^ 32
        nSequenceId := s.nBlockSequenceId }) with
    nBlockSequenceId := s.nBlockSequenceId + 1 }

def linkOne (t : BlockTree ι) (s : CChainState ι) (i : ι) : CChainState ι :=
  let inserted :=
    if t.worse (t.numbered s i) i s.tip then t.numbered s i
    else (t.numbered s i).insertCandidate i
  { inserted with mapBlocksUnlinked := s.mapBlocksUnlinked.filter fun p => p.1 ≠ i }

theorem linkQueue_cons (t : BlockTree ι) (n : Nat) (i : ι) (queue : List ι)
    (s : CChainState ι) : t.linkQueue (n + 1) (i :: queue) s =
      t.linkQueue n (queue ++ waitingFor s i) (t.linkOne s i) := rfl

theorem linkOne_rest : t.linkOne s i = { s with
    entry := (t.numbered s i).entry
    setBlockIndexCandidates := (t.linkOne s i).setBlockIndexCandidates
    mapBlocksUnlinked := (t.linkOne s i).mapBlocksUnlinked
    nBlockSequenceId := (t.linkOne s i).nBlockSequenceId } := by
  unfold linkOne CChainState.insertCandidate
  dsimp only
  split_ifs <;> rfl

theorem entry_linkOne : (t.linkOne s i).entry = (t.numbered s i).entry := by
  rw [linkOne_rest]

theorem mem_candidates_linkOne :
    j ∈ (t.linkOne s i).setBlockIndexCandidates ↔
    j ∈ s.setBlockIndexCandidates ∨ j = i ∧ t.worse (t.numbered s i) i s.tip = false := by
  unfold linkOne
  dsimp only
  split
  case isTrue hrank =>
    rw [hrank]
    exact (or_iff_left (by simp)).symm
  case isFalse hrank =>
    rw [Bool.eq_false_of_not_eq_true hrank, and_iff_left rfl, or_comm]
    exact CChainState.mem_insertCandidate

theorem entry_numbered_of_ne (h : j ≠ i) : (t.numbered s i).entry j = s.entry j :=
  if_neg (by simpa using h)

theorem entry_numbered_self : (t.numbered s i).entry i =
    { s.entry i with
      nChainTx := (((t.parent i).map fun pprev => (s.entry pprev).nChainTx).getD 0 +
        (s.entry i).nTx) % 2 ^ 32
      nSequenceId := s.nBlockSequenceId } :=
  if_pos (by simp)

theorem mem_waitingFor : j ∈ waitingFor s i ↔ (i, j) ∈ s.mapBlocksUnlinked := by
  unfold waitingFor
  rw [mem_map]
  constructor
  · rintro ⟨⟨p, k⟩, hmem, rfl⟩
    obtain ⟨hin, heq⟩ := mem_filter.mp hmem
    obtain rfl : p = i := by simpa using heq
    exact hin
  · intro hmem
    exact ⟨(i, j), mem_filter.mpr ⟨hmem, by simp⟩, rfl⟩

theorem nodup_waitingFor (h : s.mapBlocksUnlinked.Nodup) : (waitingFor s i).Nodup := by
  refine (h.filter _).map_on ?_
  rintro ⟨p, j⟩ hp ⟨q, k⟩ hq hsame
  obtain rfl : p = i := by simpa using (mem_filter.mp hp).2
  obtain rfl : q = p := by simpa using (mem_filter.mp hq).2
  exact Prod.ext rfl hsame

theorem length_waitingFor : (waitingFor s i).length + (t.linkOne s i).mapBlocksUnlinked.length =
    s.mapBlocksUnlinked.length := by
  show ((s.mapBlocksUnlinked.filter fun p => p.1 = i).map Prod.snd).length +
    (s.mapBlocksUnlinked.filter fun p => p.1 ≠ i).length = _
  rw [length_map]
  have hsplit := length_eq_length_filter_add
    (l := s.mapBlocksUnlinked) fun p => decide (p.1 = i)
  simp only [decide_not]
  exact hsplit.symm

theorem Linking.numbered (hcounts : t.SmallCounts) (h : Linking t lost (i :: queue) s) :
    ((t.numbered s i).entry i).nChainTx = t.chainTx i ∧ t.chainTx i ≠ 0 := by
  obtain ⟨hmem, hdata, -, hparent⟩ := h.queued i mem_cons_self
  have hpos := hcounts.pos i
  have hlt := hcounts.lt i
  have hnTx : (s.entry i).nTx = t.nTx i := by rw [h.nTx i hmem, if_pos hdata]
  rw [entry_numbered_self]
  cases hp : t.parent i with
  | none =>
    obtain rfl := t.parent_eq_none hp
    rw [chainTx_root] at hlt ⊢
    simp only [Option.map_none, Option.getD_none, hnTx, Nat.zero_add]
    exact ⟨Nat.mod_eq_of_lt hlt, by omega⟩
  | some p =>
    obtain ⟨-, hchain, -⟩ := h.chainTx p (h.parent_mem i hmem p hp) (hparent p hp)
    rw [chainTx_parent hp] at hlt ⊢
    simp only [Option.map_some, Option.getD_some, hnTx, hchain]
    exact ⟨Nat.mod_eq_of_lt hlt, by omega⟩

theorem Linking.linkOne (hcounts : t.SmallCounts) (h : Linking t lost (i :: queue) s) :
    Linking t lost (queue ++ waitingFor s i) (t.linkOne s i) := by
  obtain ⟨hmem, hdata, hzero, hparent⟩ := h.queued i mem_cons_self
  obtain ⟨hnumber, hpos⟩ := h.numbered hcounts
  obtain ⟨hnotin, hnodup⟩ := nodup_cons.mp h.queue_nodup
  have hmap : (t.linkOne s i).mapBlockIndex = s.mapBlockIndex := by rw [linkOne_rest]
  have hunlinked : ∀ p, p ∈ (t.linkOne s i).mapBlocksUnlinked ↔
      p ∈ s.mapBlocksUnlinked ∧ p.1 ≠ i := by
    intro p
    show p ∈ s.mapBlocksUnlinked.filter (fun p => p.1 ≠ i) ↔ _
    simp
  have hne : ∀ {j}, j ≠ i → (t.linkOne s i).entry j = s.entry j := by
    intro j hj
    rw [entry_linkOne, entry_numbered_of_ne hj]
  have hself : ((t.linkOne s i).entry i).nChainTx = t.chainTx i := by rw [entry_linkOne, hnumber]
  have hselfTx : ((t.linkOne s i).entry i).nTx = (s.entry i).nTx := by
    rw [entry_linkOne, entry_numbered_self]
  have hselfData : ((t.linkOne s i).entry i).haveData = (s.entry i).haveData := by
    rw [entry_linkOne, entry_numbered_self]
  have hlinked : ∀ {j}, (s.entry j).nChainTx ≠ 0 → ((t.linkOne s i).entry j).nChainTx ≠ 0 := by
    intro j hj
    rw [hne (by rintro rfl; exact hj hzero)]
    exact hj
  have hdata' : ∀ j, ((t.linkOne s i).entry j).haveData = (s.entry j).haveData := by
    intro j
    by_cases hj : j = i
    · rw [hj, hselfData]
    · rw [hne hj]
  refine ⟨?_, ?_, ?_, ?_, ?_, ?_, ?_, ?_, ?_, ?_⟩
  · intro j hj
    rw [hdata']
    by_cases hji : j = i
    · rw [hji, hselfTx]
      exact h.nTx i hmem
    · rw [hne hji]
      exact h.nTx j (hmap ▸ hj)
  · intro j hj hcount
    rw [hdata']
    by_cases hji : j = i
    · subst hji
      exact ⟨hdata, hself, fun p hp => hlinked (hparent p hp)⟩
    · rw [hne hji] at hcount ⊢
      obtain ⟨hjdata, hjchain, hjparent⟩ := h.chainTx j (hmap ▸ hj) hcount
      exact ⟨hjdata, hjchain, fun p hp => hlinked (hjparent p hp)⟩
  · intro j hj hjdata hjparent
    rw [hdata'] at hjdata
    by_cases hji : j = i
    · rw [hji, hself]
      exact .inl hpos
    · rw [hne hji]
      by_cases hold : ∀ p, t.parent j = some p → (s.entry p).nChainTx ≠ 0
      · rcases h.complete j (hmap ▸ hj) hjdata hold with hcount | hqueue
        · exact .inl hcount
        · exact .inr (mem_append_left _ ((mem_cons.mp hqueue).resolve_left hji))
      · -- its parent is the block that was just linked
        push Not at hold
        obtain ⟨p, hp, hpzero⟩ := hold
        obtain rfl : p = i := by
          by_contra hpi
          have hnew := hjparent p hp
          rw [hne hpi] at hnew
          exact hnew hpzero
        refine .inr (mem_append_right _ (mem_waitingFor.mpr ?_))
        refine (h.waiting j (hmap ▸ hj) hjdata p hp hpzero).resolve_right fun hlost => ?_
        rw [h.lost_data p hlost] at hdata
        cases hdata
  · intro j hj hjdata p hp hpzero
    rw [hdata'] at hjdata
    have hpi : p ≠ i := by
      rintro rfl
      exact hpos (hself ▸ hpzero)
    rw [hne hpi] at hpzero
    rcases h.waiting j (hmap ▸ hj) hjdata p hp hpzero with hwait | hlost
    · exact .inl ((hunlinked _).mpr ⟨hwait, hpi⟩)
    · exact .inr hlost
  · intro p j hpj
    obtain ⟨hpj, hpi⟩ := (hunlinked _).mp hpj
    obtain ⟨hj, hparentj, hjdata, hpzero⟩ := h.unlinked p j hpj
    refine ⟨hmap ▸ hj, hparentj, ?_, ?_⟩
    · rw [hdata']
      exact hjdata
    · rw [hne hpi]
      exact hpzero
  · exact h.nodup.filter _
  · intro j hj p hp
    rw [hmap] at hj ⊢
    exact h.parent_mem j hj p hp
  · intro j hj
    rw [hmap, hdata']
    rcases mem_append.mp hj with hold | hnew
    · obtain ⟨hjmem, hjdata, hjzero, hjparent⟩ := h.queued j (mem_cons_of_mem _ hold)
      refine ⟨hjmem, hjdata, ?_, fun p hp => hlinked (hjparent p hp)⟩
      rw [hne (by rintro rfl; exact hnotin hold)]
      exact hjzero
    · obtain ⟨hjmem, hjparent, hjdata, -⟩ := h.unlinked i j (mem_waitingFor.mp hnew)
      have hji : j ≠ i := by
        rintro rfl
        have := t.height_parent hjparent
        omega
      refine ⟨hjmem, hjdata, ?_, fun p hp => ?_⟩
      · rw [hne hji]
        by_contra hcount
        exact (h.chainTx j hjmem hcount).2.2 i hjparent hzero
      · cases hp.symm.trans hjparent
        rw [hself]
        exact hpos
  · refine nodup_append.mpr ⟨hnodup, nodup_waitingFor h.nodup, ?_⟩
    rintro j hj k hk rfl
    obtain ⟨-, hjparent, -, -⟩ := h.unlinked i j (mem_waitingFor.mp hk)
    exact (h.queued j (mem_cons_of_mem _ hj)).2.2.2 i hjparent hzero
  · intro j hj
    rw [hdata']
    exact h.lost_data j hj

theorem linkEffect_linkOne (hzero : (s.entry i).nChainTx = 0)
    (hpos : ((t.numbered s i).entry i).nChainTx ≠ 0) (htip : s.tip ≠ i) :
    LinkEffect t s (t.linkOne s i) := by
  have hworse : ∀ j, t.worse (t.linkOne s i) j s.tip = t.worse (t.numbered s i) j s.tip := by
    intro j
    exact worse_congr (congrFun entry_linkOne j) (congrFun entry_linkOne s.tip)
  refine ⟨?_, fun j => ?_, fun j hj => mem_candidates_linkOne.mpr (.inl hj),
    fun j hold hnew hrank => ?_, fun j hj => ?_⟩
  · rw [entry_linkOne]
    exact linkOne_rest
  · by_cases hji : j = i
    · subst hji
      refine .inr ⟨hzero, by rw [entry_linkOne]; exact hpos, ?_⟩
      rw [entry_linkOne, entry_numbered_self]
    · exact .inl (by rw [entry_linkOne, entry_numbered_of_ne hji])
  · rw [hworse] at hrank
    have hji : j = i := by
      by_contra hji
      rw [entry_linkOne, entry_numbered_of_ne hji] at hnew
      exact hnew hold
    exact mem_candidates_linkOne.mpr (.inr ⟨hji, hji ▸ hrank⟩)
  · rcases mem_candidates_linkOne.mp hj with hold | ⟨rfl, hrank⟩
    · exact .inl hold
    · refine .inr ⟨hzero, by rw [entry_linkOne]; exact hpos, ?_⟩
      rw [hworse]
      exact hrank

theorem linkQueue_spec (hcounts : t.SmallCounts) {n : Nat} (h : Linking t lost queue s)
    (htip : (s.entry s.tip).nChainTx ≠ 0)
    (hn : queue.length + s.mapBlocksUnlinked.length ≤ n) :
    Linking t lost [] (t.linkQueue n queue s) ∧ LinkEffect t s (t.linkQueue n queue s) := by
  induction n generalizing queue s with
  | zero =>
    obtain rfl : queue = [] := length_eq_zero_iff.mp (by omega)
    exact ⟨h, .refl t s⟩
  | succ n ih =>
    cases queue with
    | nil => exact ⟨h, .refl t s⟩
    | cons i queue =>
      obtain ⟨hnumber, hpos⟩ := h.numbered hcounts
      obtain ⟨-, -, hzero, -⟩ := h.queued i mem_cons_self
      have heffect : LinkEffect t s (t.linkOne s i) :=
        linkEffect_linkOne hzero (hnumber ▸ hpos) (by rintro rfl; exact htip hzero)
      have htip' : ((t.linkOne s i).entry (t.linkOne s i).tip).nChainTx ≠ 0 := by
        rw [heffect.tip, heffect.entry_of_linked htip]
        exact htip
      have hlength := length_waitingFor (t := t) (s := s) (i := i)
      rw [linkQueue_cons]
      obtain ⟨hlinking, hrest⟩ := ih (h.linkOne hcounts) htip' (by
        rw [length_append]
        rw [length_cons] at hn
        omega)
      exact ⟨hlinking, heffect.trans htip hrest⟩

/-! ## `ReceivedBlockTransactions` -/

def received (t : BlockTree ι) (s : CChainState ι) (i : ι) : CChainState ι :=
  s.modify [i] fun entry =>
    CBlockIndex.raiseValidity
      { entry with nTx := t.nTx i, nChainTx := 0, haveData := true } BLOCK_VALID_TRANSACTIONS

theorem entry_received_of_ne (h : j ≠ i) : (t.received s i).entry j = s.entry j :=
  if_neg (by simpa using h)

theorem entry_received_self : (t.received s i).entry i =
    raiseValidity
      { s.entry i with nTx := t.nTx i, nChainTx := 0, haveData := true }
      BLOCK_VALID_TRANSACTIONS :=
  if_pos (by simp)

theorem raiseValidity_fields (entry : CBlockIndex) (n : Nat) :
    entry.raiseValidity n = { entry with validity := (entry.raiseValidity n).validity } := by
  unfold raiseValidity
  split_ifs <;> rfl

theorem raiseValidity_of_le {entry : CBlockIndex} {n : Nat} (hfailed : entry.failed = false)
    (hle : entry.validity ≤ n) : entry.raiseValidity n = { entry with validity := n } := by
  rw [raiseValidity, if_neg (Bool.eq_false_iff.mp hfailed)]
  split
  case isTrue => rfl
  case isFalse hlt =>
    obtain rfl : entry.validity = n := Nat.le_antisymm hle (not_lt.mp hlt)
    rfl

theorem linkEffect_unlinked (t : BlockTree ι) (s : CChainState ι) (pairs : List (ι × ι)) :
    LinkEffect t s { s with mapBlocksUnlinked := pairs } where
  rest := rfl
  entry _ := .inl rfl
  kept _ h := h
  inserted _ h h' := absurd h h'
  only _ h := .inl h

section

variable (h : Linking t lost [] s) (hi : i ∈ s.mapBlockIndex)
  (hdata : (s.entry i).haveData = false) (hlost : ¬lost i)

include h hi hdata hlost

theorem Linking.received (queue : List ι) (pairs : List (ι × ι)) (hqueue : queue = [] ∨ queue = [i])
    (hqueued : i ∈ queue ↔ ∀ p, t.parent i = some p → (s.entry p).nChainTx ≠ 0)
    (hpairs : pairs = [] ∨ ∃ p, pairs = [(p, i)] ∧ t.parent i = some p ∧ (s.entry p).nChainTx = 0)
    (hwaiting : ∀ p, t.parent i = some p → (s.entry p).nChainTx = 0 → (p, i) ∈ pairs ∨ lost p) :
    Linking t lost queue
      { t.received s i with mapBlocksUnlinked := s.mapBlocksUnlinked ++ pairs } := by
  have hself := entry_received_self (t := t) (s := s) (i := i)
  rw [raiseValidity_fields] at hself
  have hzero : (s.entry i).nChainTx = 0 := by
    by_contra hcount
    rw [(h.chainTx i hi hcount).1] at hdata
    cases hdata
  have hcount : ∀ j, ((t.received s i).entry j).nChainTx = (s.entry j).nChainTx := by
    intro j
    by_cases hj : j = i
    · rw [hj, hself, hzero]
    · rw [entry_received_of_ne hj]
  have hdata' : ∀ j, (s.entry j).haveData = true → ((t.received s i).entry j).haveData = true := by
    intro j hj
    by_cases hji : j = i
    · rw [hji, hself]
    · rw [entry_received_of_ne hji]
      exact hj
  have hpair : ∀ q ∈ pairs, q.2 = i ∧ t.parent i = some q.1 ∧ (s.entry q.1).nChainTx = 0 := by
    rintro q hq
    rcases hpairs with rfl | ⟨p, rfl, hp, hpzero⟩
    · cases hq
    · obtain rfl : q = (p, i) := by simpa using hq
      exact ⟨rfl, hp, hpzero⟩
  have hnew : ∀ p, (p, i) ∉ s.mapBlocksUnlinked := by
    intro p hp
    rw [(h.unlinked p i hp).2.2.1] at hdata
    cases hdata
  refine ⟨?_, ?_, ?_, ?_, ?_, ?_, h.parent_mem, ?_, ?_, ?_⟩ <;> try dsimp only
  · intro j hj
    by_cases hji : j = i
    · rw [hji, hself]
      rfl
    · rw [entry_received_of_ne hji]
      exact h.nTx j hj
  · intro j hj hjcount
    rw [hcount] at hjcount ⊢
    obtain ⟨hjdata, hjchain, hjparent⟩ := h.chainTx j hj hjcount
    refine ⟨hdata' j hjdata, hjchain, fun p hp => ?_⟩
    rw [hcount]
    exact hjparent p hp
  · intro j hj hjdata hjparent
    simp only [hcount] at hjparent
    by_cases hji : j = i
    · subst hji
      exact .inr (hqueued.mpr hjparent)
    · rw [entry_received_of_ne hji] at hjdata ⊢
      exact .inl ((h.complete j hj hjdata hjparent).resolve_right (by simp))
  · intro j hj hjdata p hp hpzero
    rw [hcount] at hpzero
    rw [mem_append]
    by_cases hji : j = i
    · subst hji
      exact (hwaiting p hp hpzero).imp_left .inr
    · rw [entry_received_of_ne hji] at hjdata
      exact (h.waiting j hj hjdata p hp hpzero).imp_left .inl
  · intro p j hpj
    rw [hcount]
    rcases mem_append.mp hpj with hold | hadded
    · obtain ⟨hj, hjparent, hjdata, hpzero⟩ := h.unlinked p j hold
      exact ⟨hj, hjparent, hdata' j hjdata, hpzero⟩
    · obtain ⟨rfl, hp, hpzero⟩ := hpair _ hadded
      exact ⟨hi, hp, by rw [hself], hpzero⟩
  · refine nodup_append.mpr ⟨h.nodup, ?_, ?_⟩
    · rcases hpairs with rfl | ⟨p, rfl, -⟩
      · exact nodup_nil
      · exact nodup_singleton _
    · rintro ⟨p, j⟩ hold q hq rfl
      obtain ⟨rfl, -⟩ := hpair _ hq
      exact hnew p hold
  · intro j hj
    obtain rfl : j = i := by
      rcases hqueue with rfl | rfl
      · cases hj
      · simpa using hj
    refine ⟨hi, by rw [hself], by rw [hcount, hzero], fun p hp => ?_⟩
    rw [hcount]
    exact hqueued.mp hj p hp
  · rcases hqueue with rfl | rfl
    · exact nodup_nil
    · exact nodup_singleton _
  · intro j hj
    have hji : j ≠ i := by
      rintro rfl
      exact hlost hj
    rw [entry_received_of_ne hji]
    exact h.lost_data j hj

theorem receivedBlockTransactions_spec (hcounts : t.SmallCounts)
    (htip : (s.entry s.tip).nChainTx ≠ 0)
    (hfailed : ∀ p, t.parent i = some p → (s.entry p).nChainTx = 0 →
      (s.entry p).isValid BLOCK_VALID_TREE = false → lost p) :
    Linking t lost [] (t.receivedBlockTransactions s i) ∧
      LinkEffect t (t.received s i) (t.receivedBlockTransactions s i) := by
  have htipi : s.tip ≠ i := by
    rintro rfl
    rw [(h.chainTx _ hi htip).1] at hdata
    cases hdata
  have htip' : ((t.received s i).entry (t.received s i).tip).nChainTx ≠ 0 := by
    show ((t.received s i).entry s.tip).nChainTx ≠ 0
    rw [entry_received_of_ne htipi]
    exact htip
  have hlinked : (∀ p, t.parent i = some p → (s.entry p).nChainTx ≠ 0) →
      Linking t lost [] (t.linkQueue (s.mapBlocksUnlinked.length + 1) [i] (t.received s i)) ∧
        LinkEffect t (t.received s i)
          (t.linkQueue (s.mapBlocksUnlinked.length + 1) [i] (t.received s i)) := by
    intro hparent
    have hqueue : Linking t lost [i] (t.received s i) := by
      have hqueue := Linking.received h hi hdata hlost [i] [] (.inr rfl)
        ⟨fun _ => hparent, fun _ => mem_singleton_self i⟩ (.inl rfl)
        (fun p hp hpzero => absurd hpzero (hparent p hp))
      rwa [append_nil] at hqueue
    exact linkQueue_spec hcounts hqueue htip' (by
      show [i].length + s.mapBlocksUnlinked.length ≤ _
      rw [length_singleton]
      omega)
  cases hp : t.parent i with
  | none =>
    have heq : t.receivedBlockTransactions s i =
        t.linkQueue (s.mapBlocksUnlinked.length + 1) [i] (t.received s i) := by
      unfold receivedBlockTransactions
      rw [hp]
      rfl
    rw [heq]
    exact hlinked fun p hp' => by rw [hp] at hp'; cases hp'
  | some p =>
    have hpi : p ≠ i := by
      rintro rfl
      have := t.height_parent hp
      omega
    have hentry := entry_received_of_ne (t := t) (s := s) hpi
    unfold receivedBlockTransactions
    rw [hp]
    change Linking t lost [] (if ((t.received s i).entry p).nChainTx ≠ 0 then _ else _) ∧
      LinkEffect t (t.received s i) (if ((t.received s i).entry p).nChainTx ≠ 0 then _ else _)
    rw [hentry]
    split
    case isTrue hcount => exact hlinked fun p' hp' => by cases hp.symm.trans hp'; exact hcount
    case isFalse hcount =>
      have hpzero : (s.entry p).nChainTx = 0 := not_not.mp hcount
      have hnot : i ∈ ([] : List ι) ↔ ∀ p, t.parent i = some p → (s.entry p).nChainTx ≠ 0 :=
        iff_of_false (by simp) fun hall => hall p hp hpzero
      change Linking t lost []
          (if ((t.received s i).entry p).isValid BLOCK_VALID_TREE = true then _ else _) ∧
        LinkEffect t (t.received s i)
          (if ((t.received s i).entry p).isValid BLOCK_VALID_TREE = true then _ else _)
      rw [hentry]
      split
      case isTrue =>
        refine ⟨?_, linkEffect_unlinked t (t.received s i) _⟩
        exact Linking.received h hi hdata hlost [] [(p, i)] (.inl rfl) hnot
          (.inr ⟨p, rfl, hp, hpzero⟩)
          fun q hq _ => .inl (by cases hp.symm.trans hq; simp)
      case isFalse hvalid =>
        refine ⟨?_, .refl t _⟩
        have hlinking := Linking.received h hi hdata hlost [] [] (.inl rfl)
          hnot (.inl rfl) fun q hq hqzero =>
            .inr (hfailed q hq hqzero (by cases hp.symm.trans hq; simpa using hvalid))
        rwa [append_nil] at hlinking

end

/-! ## Other changes of the state -/

omit [LinearOrder ι] in
theorem Linking.congr (h : Linking t lost [] s) (hmap : s'.mapBlockIndex = s.mapBlockIndex)
    (hunlinked : s'.mapBlocksUnlinked = s.mapBlocksUnlinked)
    (hdata : ∀ i, (s'.entry i).haveData = (s.entry i).haveData)
    (hnTx : ∀ i, (s'.entry i).nTx = (s.entry i).nTx)
    (hnChainTx : ∀ i, (s'.entry i).nChainTx = (s.entry i).nChainTx)
    (hlost : ∀ i, lost i → lost' i) (hlost_data : ∀ i, lost' i → (s.entry i).haveData = false) :
    Linking t lost' [] s' := by
  refine ⟨?_, ?_, ?_, ?_, ?_, ?_, ?_, ?_, .nil, ?_⟩ <;>
    simp only [hmap, hunlinked, hdata, hnTx, hnChainTx]
  · exact h.nTx
  · exact h.chainTx
  · exact h.complete
  · intro j hj hjdata p hp hpzero
    exact (h.waiting j hj hjdata p hp hpzero).imp_right (hlost p)
  · exact h.unlinked
  · exact h.nodup
  · exact h.parent_mem
  · exact h.queued
  · exact hlost_data

theorem Linking.addHeader {p : ι} (h : Linking t lost [] s) (hi : i ∉ s.mapBlockIndex)
    (hp : t.parent i = some p) (hpmem : p ∈ s.mapBlockIndex) :
    Linking t lost []
      { s.modify [i] (fun _ => ofHeader) with
        mapBlockIndex := i :: s.mapBlockIndex } := by
  have hself : (s.modify [i] fun _ => ofHeader).entry i = ofHeader :=
    if_pos (by simp)
  have hentry : ∀ {j}, j ∈ s.mapBlockIndex →
      (s.modify [i] fun _ => ofHeader).entry j = s.entry j := fun hj =>
    if_neg fun hmem => hi (by rwa [mem_singleton.mp hmem] at hj)
  have hparent : ∀ {j}, j ∈ s.mapBlockIndex → ∀ q, t.parent j = some q →
      (s.modify [i] fun _ => ofHeader).entry q = s.entry q :=
    fun hj q hq => hentry (h.parent_mem _ hj q hq)
  have hnew : (ofHeader).haveData = false := rfl
  refine ⟨?_, ?_, ?_, ?_, ?_, h.nodup, ?_, fun j hj => absurd hj (by simp), .nil, ?_⟩ <;>
    dsimp only
  · intro j hj
    rcases mem_cons.mp hj with rfl | hj
    · rw [hself]
      rfl
    · rw [hentry hj]
      exact h.nTx j hj
  · intro j hj hcount
    rcases mem_cons.mp hj with rfl | hj
    · rw [hself] at hcount
      exact absurd rfl hcount
    · rw [hentry hj] at hcount ⊢
      obtain ⟨hdata, hchain, hlinked⟩ := h.chainTx j hj hcount
      refine ⟨hdata, hchain, fun q hq => ?_⟩
      rw [hparent hj q hq]
      exact hlinked q hq
  · intro j hj hdata hlinked
    rcases mem_cons.mp hj with rfl | hj
    · rw [hself, hnew] at hdata
      cases hdata
    · rw [hentry hj] at hdata ⊢
      refine h.complete j hj hdata fun q hq => ?_
      rw [← hparent hj q hq]
      exact hlinked q hq
  · intro j hj hdata q hq hzero
    rcases mem_cons.mp hj with rfl | hj
    · rw [hself, hnew] at hdata
      cases hdata
    · rw [hentry hj] at hdata
      rw [hparent hj q hq] at hzero
      exact h.waiting j hj hdata q hq hzero
  · intro q j hpair
    obtain ⟨hj, hq, hdata, hzero⟩ := h.unlinked q j hpair
    rw [hentry hj, hparent hj q hq]
    exact ⟨mem_cons_of_mem i hj, hq, hdata, hzero⟩
  · intro j hj q hq
    rcases mem_cons.mp hj with rfl | hj
    · cases hp.symm.trans hq
      exact mem_cons_of_mem j hpmem
    · exact mem_cons_of_mem i (h.parent_mem j hj q hq)
  · intro j hj
    by_cases hji : j = i
    · rw [hji, hself]
      rfl
    · rw [CChainState.entry_modify_of_notMem (by simpa using hji)]
      exact h.lost_data j hj

end BlockTree

end Verge
