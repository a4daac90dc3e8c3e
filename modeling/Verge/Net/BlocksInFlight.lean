import Verge.Foundation.Eviction
import Verge.Net.BlockEncodings

/-!
# Blocks in flight

The table of requested blocks in `net_processing.cpp` and the per-peer queues
behind it.  An entry of `mapBlocksInFlight` holds the peer and the entry of that
peer's queue; the queue itself is kept as the list of its hashes.
-/

namespace Verge

open Foundation List AssocMap

abbrev NodeId := Nat

structure QueuedBlock where
  fValidatedHeaders : Bool
  partialBlock : Option PartiallyDownloadedBlock
  deriving DecidableEq, Repr

structure CNodeState where
  vBlocksInFlight : List uint256
  nBlocksInFlight : Int
  nBlocksInFlightValidHeaders : Int
  fSupportsDesiredCmpctVersion : Bool
  fHaveWitness : Bool
  deriving DecidableEq, Repr

structure NetState where
  mapNodeState : AssocMap NodeId CNodeState
  mapBlocksInFlight : AssocMap uint256 (NodeId × QueuedBlock)
  nPeersWithValidatedDownloads : Int

namespace NetState

def empty : NetState := ⟨∅, ∅, 0⟩

def markBlockAsReceived (s : NetState) (hash : uint256) : Except Crash (Bool × NetState) :=
  match s.mapBlocksInFlight.lookup hash with
  | none => .ok (false, s)
  | some (nodeid, queued) =>
    match s.mapNodeState.lookup nodeid with
    | none => .error (.assertion "state != nullptr")
    | some state =>
      let validHeaders :=
        state.nBlocksInFlightValidHeaders - if queued.fValidatedHeaders then 1 else 0
      let state : CNodeState :=
        { state with
          vBlocksInFlight := state.vBlocksInFlight.erase hash
          nBlocksInFlight := state.nBlocksInFlight - 1
          nBlocksInFlightValidHeaders := validHeaders }
      .ok (true,
        { mapNodeState := s.mapNodeState.insert nodeid state
          mapBlocksInFlight := s.mapBlocksInFlight.erase hash
          nPeersWithValidatedDownloads :=
            if validHeaders = 0 ∧ queued.fValidatedHeaders then
              s.nPeersWithValidatedDownloads - 1
            else s.nPeersWithValidatedDownloads })

/-- The part of `MarkBlockAsInFlight` that makes a new entry. -/
def enqueue (s : NetState) (nodeid : NodeId) (hash : uint256) (queued : QueuedBlock) :
    Except Crash NetState :=
  match s.mapNodeState.lookup nodeid with
  | none => .error (.assertion "state != nullptr")
  | some state =>
    let validHeaders :=
      state.nBlocksInFlightValidHeaders + if queued.fValidatedHeaders then 1 else 0
    let state : CNodeState :=
      { state with
        vBlocksInFlight := state.vBlocksInFlight ++ [hash]
        nBlocksInFlight := state.nBlocksInFlight + 1
        nBlocksInFlightValidHeaders := validHeaders }
    .ok
      { mapNodeState := s.mapNodeState.insert nodeid state
        mapBlocksInFlight := s.mapBlocksInFlight.insert hash (nodeid, queued)
        nPeersWithValidatedDownloads :=
          if validHeaders = 1 ∧ queued.fValidatedHeaders then
            s.nPeersWithValidatedDownloads + 1
          else s.nPeersWithValidatedDownloads }

/-- `MarkBlockAsInFlight`: `false` if the block was in flight from this peer
already.  All callers give the index entry of the block; with `pit` the entry is
for a compact block. -/
def markBlockAsInFlight (s : NetState) (nodeid : NodeId) (hash : uint256) (pit : Bool) :
    Except Crash (Bool × NetState) :=
  if s.mapNodeState.lookup nodeid = none then .error (.assertion "state != nullptr")
  else if (s.mapBlocksInFlight.lookup hash).map Prod.fst = some nodeid then .ok (false, s)
  else
    match s.markBlockAsReceived hash with
    | .error crash => .error crash
    | .ok (_, s) =>
      (s.enqueue nodeid hash ⟨true, if pit then some .new else none⟩).map fun s => (true, s)

/-- The `partialBlock` of an entry is replaced or changed in place. -/
def setPartialBlock (s : NetState) (hash : uint256) (partialBlock : PartiallyDownloadedBlock) :
    NetState :=
  match s.mapBlocksInFlight.lookup hash with
  | none => s
  | some (nodeid, queued) =>
    let queued : QueuedBlock := { queued with partialBlock := some partialBlock }
    { s with mapBlocksInFlight := s.mapBlocksInFlight.insert hash (nodeid, queued) }

def initializeNode (s : NetState) (nodeid : NodeId)
    (fSupportsDesiredCmpctVersion fHaveWitness : Bool) : NetState :=
  let state : CNodeState := ⟨[], 0, 0, fSupportsDesiredCmpctVersion, fHaveWitness⟩
  { s with mapNodeState := s.mapNodeState.insert nodeid state }

/-- The `bool` `nBlocksInFlightValidHeaders != 0` as a number. -/
def downloads (state : CNodeState) : Int :=
  if state.nBlocksInFlightValidHeaders ≠ 0 then 1 else 0

def finalizeNode (s : NetState) (nodeid : NodeId) : Except Crash NetState :=
  match s.mapNodeState.lookup nodeid with
  | none => .error (.assertion "state != nullptr")
  | some state =>
    let peers := s.nPeersWithValidatedDownloads - downloads state
    let s : NetState :=
      { mapNodeState := s.mapNodeState.erase nodeid
        mapBlocksInFlight := state.vBlocksInFlight.foldl (fun m hash => m.erase hash)
          s.mapBlocksInFlight
        nPeersWithValidatedDownloads := peers }
    if peers < 0 then .error (.assertion "nPeersWithValidatedDownloads >= 0")
    else if s.mapNodeState.entries.isEmpty && !s.mapBlocksInFlight.entries.isEmpty then
      .error (.assertion "mapBlocksInFlight.empty()")
    else if s.mapNodeState.entries.isEmpty && peers != 0 then
      .error (.assertion "nPeersWithValidatedDownloads == 0")
    else .ok s

structure Consistent (s : NetState) : Prop where
  queued : ∀ hash nodeid queued, s.mapBlocksInFlight.lookup hash = some (nodeid, queued) →
    queued.fValidatedHeaders = true ∧
      ∃ state, s.mapNodeState.lookup nodeid = some state ∧ hash ∈ state.vBlocksInFlight
  inFlight : ∀ nodeid state, s.mapNodeState.lookup nodeid = some state →
    ∀ hash ∈ state.vBlocksInFlight, (s.mapBlocksInFlight.lookup hash).map Prod.fst = some nodeid
  counted : ∀ nodeid state, s.mapNodeState.lookup nodeid = some state →
    state.vBlocksInFlight.Nodup ∧
      state.nBlocksInFlight = state.vBlocksInFlight.length ∧
      state.nBlocksInFlightValidHeaders = state.vBlocksInFlight.length
  peers : s.nPeersWithValidatedDownloads = AssocMap.total downloads s.mapNodeState

def SamePeers (s s' : NetState) : Prop :=
  ∀ nodeid, s'.mapNodeState.lookup nodeid = none ↔ s.mapNodeState.lookup nodeid = none

theorem SamePeers.refl (s : NetState) : s.SamePeers s := fun _ => Iff.rfl

theorem SamePeers.trans {s s' s'' : NetState} (h : s.SamePeers s') (h' : s'.SamePeers s'') :
    s.SamePeers s'' :=
  fun nodeid => (h' nodeid).trans (h nodeid)

theorem samePeers_insert {s : NetState} {nodeid : NodeId} {state state' : CNodeState}
    (h : s.mapNodeState.lookup nodeid = some state)
    {blocks : AssocMap uint256 (NodeId × QueuedBlock)} {n : Int} :
    s.SamePeers ⟨s.mapNodeState.insert nodeid state', blocks, n⟩ := by
  intro other
  show (s.mapNodeState.insert nodeid state').lookup other = none ↔ _
  rw [lookup_insert_ite]
  split
  case isTrue heq =>
    rw [heq, h]
    simp
  case isFalse => exact Iff.rfl

theorem total_downloads_nonneg (m : AssocMap NodeId CNodeState) :
    0 ≤ AssocMap.total downloads m := by
  unfold AssocMap.total
  induction m.entries with
  | nil => exact Int.le_refl 0
  | cons entry entries ih =>
    rw [map_cons, sum_cons]
    have hentry : 0 ≤ downloads entry.2 := by
      unfold downloads
      split <;> simp
    omega

theorem consistent_empty : Consistent empty where
  queued _ _ _ h := by simp [empty] at h
  inFlight _ _ h := by simp [empty] at h
  counted _ _ h := by simp [empty] at h
  peers := rfl

namespace Consistent

variable {s : NetState} {nodeid : NodeId} (h : s.Consistent)

include h

theorem peers_insert {state state' : CNodeState}
    (hstate : s.mapNodeState.lookup nodeid = some state) :
    AssocMap.total downloads (s.mapNodeState.insert nodeid state') =
      s.nPeersWithValidatedDownloads - downloads state + downloads state' := by
  rw [total_insert, h.peers, total_of_lookup_some downloads hstate]
  omega

theorem markBlockAsReceived (hash : uint256) :
    ∃ requested s', s.markBlockAsReceived hash = .ok (requested, s') ∧ s'.Consistent ∧
      s.SamePeers s' ∧ ∀ other, s'.mapBlocksInFlight.lookup other =
        if other = hash then none else s.mapBlocksInFlight.lookup other := by
  unfold NetState.markBlockAsReceived
  split
  case h_1 hnone =>
    refine ⟨false, s, rfl, h, .refl s, fun other => ?_⟩
    split
    case isTrue heq => rw [heq, hnone]
    case isFalse => rfl
  case h_2 nodeid queued hlookup =>
    obtain ⟨hvalid, state, hstate, hmem⟩ := h.queued hash nodeid queued hlookup
    obtain ⟨hnodup, hblocks, hheaders⟩ := h.counted nodeid state hstate
    have hpos := length_pos_of_mem hmem
    have herase := length_erase_of_mem hmem
    rw [hstate]
    refine ⟨true, _, rfl, ⟨?_, ?_, ?_, ?_⟩, samePeers_insert hstate,
      fun other => lookup_erase_ite _ _ _⟩
    · intro other nodeid' queued' hother
      obtain ⟨hne, hother⟩ := of_lookup_erase hother
      obtain ⟨hvalid', state', hstate', hmem'⟩ := h.queued other nodeid' queued' hother
      refine ⟨hvalid', ?_⟩
      rw [lookup_insert_ite]
      split
      case isTrue heq =>
        rw [heq, hstate] at hstate'
        cases hstate'
        exact ⟨_, rfl, (mem_erase_of_ne hne).mpr hmem'⟩
      case isFalse => exact ⟨state', hstate', hmem'⟩
    · intro nodeid' state' hstate' other hother
      dsimp only
      rw [lookup_erase_ite]
      rcases of_lookup_insert hstate' with ⟨rfl, rfl⟩ | ⟨hnode, hstate'⟩
      · obtain ⟨hne, hold⟩ := hnodup.mem_erase_iff.mp hother
        rw [if_neg hne]
        exact h.inFlight nodeid' state hstate other hold
      · have hold := h.inFlight nodeid' state' hstate' other hother
        have hne : other ≠ hash := by
          rintro rfl
          rw [hlookup] at hold
          exact hnode (Option.some.inj hold).symm
        rw [if_neg hne]
        exact hold
    · intro nodeid' state' hstate'
      rcases of_lookup_insert hstate' with ⟨-, rfl⟩ | ⟨-, hstate'⟩
      · simp only [hvalid, if_true]
        exact ⟨hnodup.erase hash, by omega, by omega⟩
      · exact h.counted nodeid' state' hstate'
    · dsimp only
      rw [h.peers_insert hstate]
      unfold downloads
      simp only [hvalid, if_true, and_true]
      split_ifs <;> omega

theorem enqueue {hash : uint256} (queued : QueuedBlock)
    (hnode : s.mapNodeState.lookup nodeid ≠ none) (hnew : s.mapBlocksInFlight.lookup hash = none)
    (hvalid : queued.fValidatedHeaders = true) :
    ∃ s', s.enqueue nodeid hash queued = .ok s' ∧ s'.Consistent ∧ s.SamePeers s' ∧
      s'.mapBlocksInFlight = s.mapBlocksInFlight.insert hash (nodeid, queued) := by
  obtain ⟨state, hstate⟩ := Option.ne_none_iff_exists'.mp hnode
  obtain ⟨hnodup, hblocks, hheaders⟩ := h.counted nodeid state hstate
  have hfresh : hash ∉ state.vBlocksInFlight := by
    intro hmem
    have hold := h.inFlight nodeid state hstate hash hmem
    rw [hnew] at hold
    cases hold
  unfold NetState.enqueue
  rw [hstate]
  refine ⟨_, rfl, ⟨?_, ?_, ?_, ?_⟩, samePeers_insert hstate, rfl⟩
  · intro other nodeid' queued' hother
    rcases of_lookup_insert hother with ⟨rfl, ⟨⟩⟩ | ⟨hne, hother⟩
    · exact ⟨hvalid, _, AList.lookup_insert _, by simp⟩
    · obtain ⟨hvalid', state', hstate', hmem'⟩ := h.queued other nodeid' queued' hother
      refine ⟨hvalid', ?_⟩
      rw [lookup_insert_ite]
      split
      case isTrue heq =>
        rw [heq, hstate] at hstate'
        cases hstate'
        exact ⟨_, rfl, mem_append_left _ hmem'⟩
      case isFalse => exact ⟨state', hstate', hmem'⟩
  · intro nodeid' state' hstate' other hother
    dsimp only
    rw [lookup_insert_ite]
    rcases of_lookup_insert hstate' with ⟨rfl, rfl⟩ | ⟨hne, hstate'⟩
    · rcases mem_append.mp hother with hold | hlast
      · rw [if_neg (by rintro rfl; exact hfresh hold)]
        exact h.inFlight nodeid' state hstate other hold
      · rw [if_pos (mem_singleton.mp hlast)]
        rfl
    · have hold := h.inFlight nodeid' state' hstate' other hother
      rw [if_neg (by rintro rfl; rw [hnew] at hold; cases hold)]
      exact hold
  · intro nodeid' state' hstate'
    rcases of_lookup_insert hstate' with ⟨-, rfl⟩ | ⟨-, hstate'⟩
    · simp only [length_append, length_singleton, hvalid, if_true]
      exact ⟨hnodup.append (by simp) (by simpa using hfresh), by omega, by omega⟩
    · exact h.counted nodeid' state' hstate'
  · dsimp only
    rw [h.peers_insert hstate]
    unfold downloads
    simp only [hvalid, if_true, and_true]
    split_ifs <;> omega

theorem markBlockAsInFlight (hnode : s.mapNodeState.lookup nodeid ≠ none) (hash : uint256)
    (pit : Bool) :
    ∃ started s', s.markBlockAsInFlight nodeid hash pit = .ok (started, s') ∧ s'.Consistent ∧
      s.SamePeers s' ∧ (started = false → s' = s) ∧
      (started = true → ∀ other, s'.mapBlocksInFlight.lookup other =
        if other = hash then some (nodeid, ⟨true, if pit then some .new else none⟩)
        else s.mapBlocksInFlight.lookup other) := by
  unfold NetState.markBlockAsInFlight
  rw [if_neg hnode]
  split
  case isTrue => exact ⟨false, s, rfl, h, .refl s, fun _ => rfl, by simp⟩
  case isFalse =>
    obtain ⟨requested, s₁, heq₁, h₁, hpeers₁, hlookup₁⟩ := h.markBlockAsReceived hash
    have hnode₁ : s₁.mapNodeState.lookup nodeid ≠ none := mt (hpeers₁ nodeid).mp hnode
    obtain ⟨s₂, heq₂, h₂, hpeers₂, hblocks₂⟩ :=
      h₁.enqueue ⟨true, if pit then some .new else none⟩ hnode₁
        ((hlookup₁ hash).trans (if_pos rfl)) rfl
    rw [heq₁]
    dsimp only
    rw [heq₂]
    refine ⟨true, s₂, rfl, h₂, hpeers₁.trans hpeers₂, by simp, fun _ other => ?_⟩
    rw [hblocks₂, lookup_insert_ite, hlookup₁]
    split_ifs <;> rfl

theorem setPartialBlock (hash : uint256) (partialBlock : PartiallyDownloadedBlock) :
    (s.setPartialBlock hash partialBlock).Consistent := by
  unfold NetState.setPartialBlock
  split
  case h_1 => exact h
  case h_2 nodeid queued hlookup =>
    refine ⟨?_, ?_, h.counted, h.peers⟩
    · intro other nodeid' queued' hother
      rcases of_lookup_insert hother with ⟨rfl, ⟨⟩⟩ | ⟨-, hother⟩
      · exact h.queued other nodeid queued hlookup
      · exact h.queued other nodeid' queued' hother
    · intro nodeid' state' hstate' other hother
      have hold := h.inFlight nodeid' state' hstate' other hother
      dsimp only
      rw [lookup_insert_ite]
      split
      case isTrue heq =>
        rw [heq, hlookup] at hold
        exact hold
      case isFalse => exact hold

theorem initializeNode (hnew : s.mapNodeState.lookup nodeid = none) (compact witness : Bool) :
    (s.initializeNode nodeid compact witness).Consistent := by
  refine ⟨?_, ?_, ?_, ?_⟩
  · intro hash nodeid' queued hlookup
    obtain ⟨hvalid, state, hstate, hmem⟩ := h.queued hash nodeid' queued hlookup
    refine ⟨hvalid, state, ?_, hmem⟩
    show (s.mapNodeState.insert nodeid _).lookup nodeid' = _
    rw [lookup_insert_ite, if_neg]
    · exact hstate
    · rintro rfl
      rw [hnew] at hstate
      cases hstate
  · intro nodeid' state' hstate'
    rcases of_lookup_insert hstate' with ⟨-, rfl⟩ | ⟨-, hstate'⟩
    · simp
    · exact h.inFlight nodeid' state' hstate'
  · intro nodeid' state' hstate'
    rcases of_lookup_insert hstate' with ⟨-, rfl⟩ | ⟨-, hstate'⟩
    · exact ⟨nodup_nil, rfl, rfl⟩
    · exact h.counted nodeid' state' hstate'
  · show s.nPeersWithValidatedDownloads =
      AssocMap.total downloads (s.mapNodeState.insert nodeid _)
    rw [total_insert, total_erase_of_lookup_none _ hnew, h.peers]
    simp [downloads]

theorem entries_eq_nil (hnodes : s.mapNodeState.entries = []) :
    s.mapBlocksInFlight.entries = [] := by
  rw [eq_nil_iff_forall_not_mem]
  rintro ⟨hash, nodeid, queued⟩ hmem
  obtain ⟨-, state, hstate, -⟩ :=
    h.queued hash nodeid queued (AssocMap.lookup_eq_some_iff.mpr hmem)
  rw [AssocMap.lookup_eq_some_iff, hnodes] at hstate
  cases hstate

theorem finalizeNode (hnode : s.mapNodeState.lookup nodeid ≠ none) :
    ∃ s', s.finalizeNode nodeid = .ok s' ∧ s'.Consistent := by
  obtain ⟨state, hstate⟩ := Option.ne_none_iff_exists'.mp hnode
  have hpeers : s.nPeersWithValidatedDownloads - downloads state =
      AssocMap.total downloads (s.mapNodeState.erase nodeid) := by
    rw [h.peers, total_of_lookup_some downloads hstate]
    omega
  have hconsistent : Consistent
      ⟨s.mapNodeState.erase nodeid, s.mapBlocksInFlight.eraseAll state.vBlocksInFlight,
        s.nPeersWithValidatedDownloads - downloads state⟩ := by
    refine ⟨?_, ?_, ?_, hpeers⟩
    · intro hash nodeid' queued hlookup
      dsimp only at hlookup ⊢
      rw [lookup_eraseAll] at hlookup
      split at hlookup
      case isTrue => cases hlookup
      case isFalse hother =>
        obtain ⟨hvalid, state', hstate', hmem⟩ := h.queued hash nodeid' queued hlookup
        refine ⟨hvalid, state', ?_, hmem⟩
        rw [lookup_erase_ite, if_neg, hstate']
        rintro rfl
        rw [hstate] at hstate'
        cases hstate'
        exact hother hmem
    · intro nodeid' state' hstate' hash hmem
      obtain ⟨hne, hstate'⟩ := of_lookup_erase hstate'
      have hold := h.inFlight nodeid' state' hstate' hash hmem
      dsimp only
      rw [lookup_eraseAll, if_neg, hold]
      intro hmine
      rw [h.inFlight nodeid state hstate hash hmine] at hold
      exact hne (Option.some.inj hold).symm
    · intro nodeid' state' hstate'
      exact h.counted nodeid' state' (of_lookup_erase hstate').2
  have hnonneg := total_downloads_nonneg (s.mapNodeState.erase nodeid)
  have hempty := hconsistent.entries_eq_nil
  unfold NetState.finalizeNode
  rw [hstate]
  dsimp only
  rw [if_neg (show ¬s.nPeersWithValidatedDownloads - downloads state < 0 by omega)]
  split_ifs with hblocks hcount
  · obtain ⟨hnodes, hleft⟩ := Bool.and_eq_true_iff.mp hblocks
    have hnil := hempty (isEmpty_iff.mp hnodes)
    change (!(s.mapBlocksInFlight.eraseAll state.vBlocksInFlight).entries.isEmpty) = true at hleft
    rw [hnil] at hleft
    cases hleft
  · obtain ⟨hnodes, hleft⟩ := Bool.and_eq_true_iff.mp hcount
    have hzero : AssocMap.total downloads (s.mapNodeState.erase nodeid) = 0 := by
      rw [AssocMap.total, isEmpty_iff.mp hnodes]
      rfl
    rw [hpeers, hzero] at hleft
    cases hleft
  · exact ⟨_, rfl, hconsistent⟩

end Consistent

end NetState

end Verge
