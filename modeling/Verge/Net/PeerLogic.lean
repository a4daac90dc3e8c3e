import Mathlib.Data.Finset.Card
import Verge.Net.CompactBlocks

/-!
# Peers that leave

What `FinalizeNode` checks: the blocks in flight, the number of peers with
`fPreferredDownload` and the number of peers with `m_protect`.  The list that
`FindNextBlocksToDownload` gives is cut off at the room left at the peer; the loop
over it is modelled to stop there.
-/

namespace Verge

open Foundation Option

/-- The peers whose `CNodeState` has a flag set, and the counter of these peers. -/
structure Tally where
  flagged : Finset NodeId
  count : Int

namespace Tally

def get (t : Tally) (nodeid : NodeId) : Bool := decide (nodeid ∈ t.flagged)

def set (t : Tally) (nodeid : NodeId) (value : Bool) : Tally :=
  ⟨if value then insert nodeid t.flagged else t.flagged.erase nodeid,
    t.count - (t.get nodeid).toInt + value.toInt⟩

structure Exact (t : Tally) (net : NetState) : Prop where
  connected : ∀ nodeid ∈ t.flagged, net.mapNodeState.lookup nodeid ≠ none
  counted : t.count = t.flagged.card

namespace Exact

variable {t : Tally} {net net' : NetState} {nodeid : NodeId} (h : t.Exact net)

include h

theorem set (value : Bool) (hnet : ∀ other ≠ nodeid, net.mapNodeState.lookup other ≠ none →
      net'.mapNodeState.lookup other ≠ none)
    (hnode : value = true → net'.mapNodeState.lookup nodeid ≠ none) :
    (t.set nodeid value).Exact net' where
  connected other hother := by
    by_cases heq : other = nodeid
    · subst heq
      cases value with
      | false => exact absurd hother (Finset.notMem_erase other t.flagged)
      | true => exact hnode rfl
    · refine hnet other heq (h.connected other ?_)
      cases value with
      | false => exact Finset.mem_of_mem_erase hother
      | true => exact Finset.mem_of_mem_insert_of_ne hother heq
  counted := by
    have herase := Finset.card_erase_add_one (s := t.flagged) (a := nodeid)
    unfold Tally.set Tally.get
    rw [h.counted]
    by_cases hmem : nodeid ∈ t.flagged <;> cases value <;> simp [hmem]
    all_goals grind

theorem eq_zero (hnet : net.mapNodeState.entries = []) : t.count = 0 := by
  have hflagged : t.flagged = ∅ := by
    refine Finset.eq_empty_of_forall_notMem fun nodeid hmem => ?_
    obtain ⟨state, hstate⟩ := ne_none_iff_exists'.mp (h.connected nodeid hmem)
    rw [AssocMap.lookup_eq_some_iff, hnet] at hstate
    cases hstate
  rw [h.counted, hflagged]
  rfl

end Exact

end Tally

structure PeerLogic where
  net : NetState
  /-- `fPreferredDownload` and `nPreferredDownload` -/
  preferred : Tally
  /-- `m_protect` and `g_outbound_peers_with_protect_from_disconnect` -/
  outbound : Tally

/-- Beside the messages about blocks: the end of `VERSION`, and the end of
`ProcessHeadersMessage` with what it finds out about the peer. -/
inductive PeerEvent where
  | message (event : NetEvent)
  | version (nodeid : NodeId) (fInbound fWhitelisted fOneShot fClient : Bool)
  | headersDone (nodeid : NodeId) (outboundCandidate enoughWork : Bool)

def MAX_OUTBOUND_PEERS_TO_PROTECT_FROM_DISCONNECT : Int := 4

namespace PeerLogic

def empty : PeerLogic := ⟨.empty, ⟨∅, 0⟩, ⟨∅, 0⟩⟩

def updatePreferredDownload (s : PeerLogic) (nodeid : NodeId)
    (fInbound fWhitelisted fOneShot fClient : Bool) : PeerLogic :=
  { s with
    preferred := s.preferred.set nodeid ((!fInbound || fWhitelisted) && !fOneShot && !fClient) }

def protectFromDisconnect (s : PeerLogic) (nodeid : NodeId)
    (outboundCandidate enoughWork : Bool) : PeerLogic :=
  if outboundCandidate && enoughWork && !s.outbound.get nodeid &&
      decide (s.outbound.count < MAX_OUTBOUND_PEERS_TO_PROTECT_FROM_DISCONNECT) then
    { s with outbound := s.outbound.set nodeid true }
  else s

/-- The assertions about the blocks in flight stand first here. -/
def finalizeNode (s : PeerLogic) (nodeid : NodeId) : Except Crash PeerLogic :=
  match s.net.finalizeNode nodeid with
  | .error crash => .error crash
  | .ok net =>
    let preferred := s.preferred.set nodeid false
    let outbound := s.outbound.set nodeid false
    if outbound.count < 0 then
      .error (.assertion "g_outbound_peers_with_protect_from_disconnect >= 0")
    else if net.mapNodeState.entries.isEmpty && preferred.count != 0 then
      .error (.assertion "nPreferredDownload == 0")
    else if net.mapNodeState.entries.isEmpty && outbound.count != 0 then
      .error (.assertion "g_outbound_peers_with_protect_from_disconnect == 0")
    else .ok ⟨net, preferred, outbound⟩

def handle (env : BlockEncoding) (s : PeerLogic) : PeerEvent → Except Crash PeerLogic
  | .message (.disconnect nodeid) => s.finalizeNode nodeid
  | .message event => (s.net.handle env event).map fun net => { s with net }
  | .version nodeid fInbound fWhitelisted fOneShot fClient =>
    .ok (s.updatePreferredDownload nodeid fInbound fWhitelisted fOneShot fClient)
  | .headersDone nodeid outboundCandidate enoughWork =>
    .ok (s.protectFromDisconnect nodeid outboundCandidate enoughWork)

def Possible (s : PeerLogic) : PeerEvent → Prop
  | .message event => event.Possible s.net
  | .version nodeid _ _ _ _ | .headersDone nodeid _ _ => s.net.mapNodeState.lookup nodeid ≠ none

inductive Reachable (env : BlockEncoding) : PeerLogic → Prop
  | start : Reachable env empty
  | handled {s s' : PeerLogic} {event : PeerEvent} (before : Reachable env s)
      (possible : s.Possible event) (done : s.handle env event = .ok s') : Reachable env s'

structure Accounted (s : PeerLogic) : Prop where
  within : s.net.Within s.net.Consumed s.net
  preferred : s.preferred.Exact s.net
  outbound : s.outbound.Exact s.net

namespace Accounted

variable {s s' : PeerLogic} {env : BlockEncoding}

theorem message (h : s.Accounted) {event : NetEvent} (hpossible : event.Possible s.net)
    (hstays : ∀ nodeid, event ≠ .disconnect nodeid)
    (hdone : (s.net.handle env event).map (fun net => { s with net }) = .ok s') :
    s'.Accounted := by
  cases hnet : s.net.handle env event with
  | error crash =>
    rw [hnet] at hdone
    cases hdone
  | ok net =>
    rw [hnet] at hdone
    cases hdone
    have hfollows := h.within.follows hpossible hnet
    exact ⟨hfollows.within.self,
      ⟨fun nodeid hmem => hfollows.stays nodeid (hstays nodeid) (h.preferred.connected nodeid hmem),
        h.preferred.counted⟩,
      ⟨fun nodeid hmem => hfollows.stays nodeid (hstays nodeid) (h.outbound.connected nodeid hmem),
        h.outbound.counted⟩⟩

theorem finalizeNode (h : s.Accounted) {nodeid : NodeId}
    (hnode : s.net.mapNodeState.lookup nodeid ≠ none) :
    ∃ s', s.finalizeNode nodeid = .ok s' ∧ s'.Accounted := by
  obtain ⟨net, hdone, hfollows⟩ := h.within.finalizeNode hnode
  have hothers (other : NodeId) (hne : other ≠ nodeid) :=
    hfollows.stays other fun heq => hne (NetEvent.disconnect.inj heq).symm
  have hpreferred := h.preferred.set false hothers (by simp)
  have houtbound := h.outbound.set false hothers (by simp)
  refine ⟨⟨net, s.preferred.set nodeid false, s.outbound.set nodeid false⟩, ?_,
    hfollows.within.self, hpreferred, houtbound⟩
  unfold PeerLogic.finalizeNode
  rw [hdone]
  dsimp only
  rw [if_neg (not_lt.mpr (houtbound.counted ▸ Int.natCast_nonneg _))]
  cases hempty : net.mapNodeState.entries.isEmpty with
  | false => rfl
  | true =>
    have hnil := List.isEmpty_iff.mp hempty
    rw [hpreferred.eq_zero hnil, houtbound.eq_zero hnil]
    rfl

theorem handle (h : s.Accounted) {event : PeerEvent} (hpossible : s.Possible event)
    (hdone : s.handle env event = .ok s') : s'.Accounted := by
  unfold PeerLogic.handle at hdone
  split at hdone
  case h_1 nodeid =>
    obtain ⟨s'', heq, h''⟩ := h.finalizeNode hpossible
    cases heq.symm.trans hdone
    exact h''
  case h_2 event hstays => exact h.message hpossible hstays hdone
  case h_3 =>
    cases hdone
    exact ⟨h.within, h.preferred.set _ (fun _ _ => id) fun _ => hpossible, h.outbound⟩
  case h_4 =>
    cases hdone
    unfold protectFromDisconnect
    split
    case isTrue =>
      exact ⟨h.within, h.preferred, h.outbound.set true (fun _ _ => id) fun _ => hpossible⟩
    case isFalse => exact h

end Accounted

theorem Reachable.accounted {env : BlockEncoding} {s : PeerLogic} (h : Reachable env s) :
    s.Accounted := by
  induction h with
  | start =>
    have hnet : NetState.Reachable env .empty := .start
    exact ⟨hnet.within, ⟨by simp [empty], rfl⟩, ⟨by simp [empty], rfl⟩⟩
  | handled _ hpossible hdone ih => exact ih.handle hpossible hdone

/-- In every reachable state the table, the queues and the counters describe the same
requests, no queue is too long, and every peer can leave. -/
theorem Reachable.bookkeeping {env : BlockEncoding} {s : PeerLogic} (h : Reachable env s) :
    (∀ hash nodeid, (s.net.mapBlocksInFlight.lookup hash).map Prod.fst = some nodeid ↔
      ∃ state, s.net.mapNodeState.lookup nodeid = some state ∧ hash ∈ state.vBlocksInFlight) ∧
    (∀ nodeid state, s.net.mapNodeState.lookup nodeid = some state →
      state.vBlocksInFlight.Nodup ∧ state.nBlocksInFlight = state.vBlocksInFlight.length ∧
      state.nBlocksInFlightValidHeaders = (state.vBlocksInFlight.filter fun hash =>
        (s.net.mapBlocksInFlight.lookup hash).any fun entry => entry.2.fValidatedHeaders).length ∧
      state.vBlocksInFlight.length ≤ MAX_BLOCKS_IN_TRANSIT_PER_PEER) ∧
    s.net.nPeersWithValidatedDownloads = AssocMap.total NetState.downloads s.net.mapNodeState ∧
    ∀ nodeid, s.net.mapNodeState.lookup nodeid ≠ none → ∃ s', s.finalizeNode nodeid = .ok s' := by
  have hall := h.accounted
  have hnet := hall.within
  refine ⟨fun hash nodeid => ⟨fun hlookup => ?_, ?_⟩, fun nodeid state hstate => ?_,
    hnet.peers, fun nodeid hnode => ?_⟩
  · obtain ⟨⟨nodeid', queued⟩, hentry, rfl⟩ := map_eq_some_iff.mp hlookup
    exact (hnet.queued hash nodeid' queued hentry).2
  · rintro ⟨state, hstate, hmem⟩
    exact hnet.inFlight nodeid state hstate hash hmem
  · obtain ⟨hnodup, hblocks, hheaders⟩ := hnet.counted nodeid state hstate
    have hlimit := hnet.limited nodeid state hstate
    refine ⟨hnodup, hblocks, ?_, by omega⟩
    rw [hheaders, List.filter_eq_self.mpr fun hash hmem => ?_]
    obtain ⟨⟨nodeid', queued⟩, hentry, -⟩ :=
      map_eq_some_iff.mp (hnet.inFlight nodeid state hstate hash hmem)
    rw [hentry, any_some]
    exact (hnet.queued hash nodeid' queued hentry).1
  · obtain ⟨s', hdone, -⟩ := hall.finalizeNode hnode
    exact ⟨s', hdone⟩

theorem bookkeeping_requested : ∃ s, Reachable NetState.sampleEncoding s ∧
    s.net.nPeersWithValidatedDownloads = 1 ∧ ∃ s', s.finalizeNode 0 = .ok s' := by
  have hconnect : Reachable NetState.sampleEncoding _ :=
    @Reachable.handled _ _ _ (.message (.connect 0 true true)) .start rfl rfl
  have hrequest : Reachable NetState.sampleEncoding _ :=
    @Reachable.handled _ _ _ (.message (.getData 0 [9])) hconnect
      (some_ne_none _) rfl
  exact ⟨_, hrequest, rfl, hrequest.bookkeeping.2.2.2 0 (some_ne_none _)⟩

end PeerLogic

end Verge
