import Verge.Net.BlocksInFlight

/-!
# Messages about blocks

The handlers of `ProcessMessage` for `CMPCTBLOCK`, `BLOCKTXN`, `HEADERS` and
`BLOCK`, the block requests of `SendMessages`, and peers that come and go.  What
the handlers ask the chain state comes with each event and is not restricted.
The messages that are sent are left out.
-/

namespace Verge

open Foundation Option

/-! ## Handlers -/

def MAX_BLOCKS_IN_TRANSIT_PER_PEER : Nat := 256

/-- What `CMPCTBLOCK` reads about the header of the message and the chain. -/
structure HeaderContext where
  prevKnown : Bool
  accepted : Bool
  haveData : Bool
  nTx : Nat
  nHeight : Nat
  tipHeight : Nat
  canDirectFetch : Bool
  witnessEnabled : Bool
  validTransactions : Bool

/-- A block on the way from the last header of a message to the active chain. -/
structure WalkedBlock where
  hash : uint256
  haveData : Bool
  witnessEnabled : Bool

/-- What `ProcessHeadersMessage` reads; the blocks that are not in the active chain are
listed last header first. -/
structure HeadersContext where
  accepted : Bool
  directFetch : Bool
  walk : List WalkedBlock

namespace NetState

def vToFetch (s : NetState) (fHaveWitness : Bool) :
    List WalkedBlock → List uint256 → Option (List uint256)
  | [], hashes => some hashes
  | pindexWalk :: rest, hashes =>
    if MAX_BLOCKS_IN_TRANSIT_PER_PEER < hashes.length then none
    else if !pindexWalk.haveData && (s.mapBlocksInFlight.lookup pindexWalk.hash).isNone &&
        (!pindexWalk.witnessEnabled || fHaveWitness) then
      vToFetch s fHaveWitness rest (pindexWalk.hash :: hashes)
    else vToFetch s fHaveWitness rest hashes

def requestBlocks (nodeid : NodeId) : List uint256 → NetState → Except Crash NetState
  | [], s => .ok s
  | hash :: rest, s =>
    match s.mapNodeState.lookup nodeid with
    | none => .error (.assertion "state != nullptr")
    | some nodestate =>
      if MAX_BLOCKS_IN_TRANSIT_PER_PEER ≤ nodestate.nBlocksInFlight then .ok s
      else
        match s.markBlockAsInFlight nodeid hash false with
        | .error crash => .error crash
        | .ok (_, s) => requestBlocks nodeid rest s

def processHeadersMessage (s : NetState) (pfrom : NodeId) (ctx : HeadersContext) :
    Except Crash NetState :=
  if !ctx.accepted then .ok s
  else
    match s.mapNodeState.lookup pfrom with
    | none => .error (.assertion "state != nullptr")
    | some nodestate =>
      if !ctx.directFetch then .ok s
      else
        match s.vToFetch nodestate.fHaveWitness ctx.walk [] with
        | none => .ok s
        | some hashes => requestBlocks pfrom hashes s

/-- `BLOCKTXN`.  The partial block is changed in place. -/
def processBlockTxn (env : BlockEncoding) (s : NetState) (pfrom : NodeId) (blockhash : uint256)
    (txn : List CTransaction) : Except Crash NetState :=
  match s.mapBlocksInFlight.lookup blockhash with
  | none => .ok s
  | some (nodeid, queued) =>
    match queued.partialBlock with
    | none => .ok s
    | some partialBlock =>
      if nodeid ≠ pfrom then .ok s
      else
        match partialBlock.fillBlock env txn with
        | .error crash => .error crash
        | .ok (.READ_STATUS_FAILED, _, partialBlock) =>
          .ok (s.setPartialBlock blockhash partialBlock)
        | .ok (_, _, partialBlock) =>
          ((s.setPartialBlock blockhash partialBlock).markBlockAsReceived blockhash).map
            Prod.snd

def missingIndexes (partialBlock : PartiallyDownloadedBlock) :
    List Nat → Except Crash (List Nat)
  | [] => .ok []
  | i :: rest =>
    match partialBlock.isTxAvailable i with
    | .error crash => .error crash
    | .ok available =>
      match missingIndexes partialBlock rest with
      | .error crash => .error crash
      | .ok indexes => .ok (if available then indexes else i :: indexes)

section CmpctBlock

variable (env : BlockEncoding) (s : NetState) (pfrom : NodeId)
  (cmpctblock : CBlockHeaderAndShortTxIDs) (ctx : HeaderContext)
  (vTxHashes extra_txn : List (uint256 × CTransaction))

/-- `InitData` on the partial block of an entry and what follows from its
status. -/
def initPartialBlock (partialBlock : PartiallyDownloadedBlock) : Except Crash NetState :=
  match partialBlock.initData env cmpctblock vTxHashes extra_txn with
  | .error crash => .error crash
  | .ok (.READ_STATUS_INVALID, partialBlock) =>
    ((s.setPartialBlock cmpctblock.header.hash partialBlock).markBlockAsReceived
      cmpctblock.header.hash).map Prod.snd
  | .ok (.READ_STATUS_OK, partialBlock) =>
    let s := s.setPartialBlock cmpctblock.header.hash partialBlock
    match missingIndexes partialBlock (List.range cmpctblock.blockTxCount) with
    | .error crash => .error crash
    | .ok [] => s.processBlockTxn env pfrom cmpctblock.header.hash []
    | .ok (_ :: _) => .ok s
  | .ok (_, partialBlock) => .ok (s.setPartialBlock cmpctblock.header.hash partialBlock)

def downloadCmpctBlock : Except Crash NetState :=
  match s.markBlockAsInFlight pfrom cmpctblock.header.hash true with
  | .error crash => .error crash
  | .ok (started, s) =>
    match started, (s.mapBlocksInFlight.lookup cmpctblock.header.hash).bind
        fun entry => entry.2.partialBlock with
    -- a compact block from this peer that is being downloaded already
    | false, some _ => .ok s
    | false, none => s.initPartialBlock env pfrom cmpctblock vTxHashes extra_txn .new
    | true, some partialBlock =>
      s.initPartialBlock env pfrom cmpctblock vTxHashes extra_txn partialBlock
    | true, none => .error .outOfRange

/-- The block is in flight from another peer, or this peer has too many blocks
in flight: an attempt with a temporary object. -/
def reconstructCmpctBlock : Except Crash NetState :=
  match PartiallyDownloadedBlock.new.initData env cmpctblock vTxHashes extra_txn with
  | .error crash => .error crash
  | .ok (.READ_STATUS_OK, tempBlock) =>
    match tempBlock.fillBlock env [] with
    | .error crash => .error crash
    | .ok (.READ_STATUS_OK, block, _) =>
      if ctx.validTransactions then (s.markBlockAsReceived block.hash).map Prod.snd
      else .ok s
    | .ok _ => .ok s
  | .ok _ => .ok s

/-- `CMPCTBLOCK`.  The walk of the headers that are processed instead of a
block far ahead of the tip is given by `walk`. -/
def processCmpctBlock (walk : HeadersContext) : Except Crash NetState :=
  if !ctx.prevKnown || !ctx.accepted then .ok s
  else
    match s.mapNodeState.lookup pfrom with
    | none => .error (.assertion "state != nullptr")
    | some nodestate =>
      let blockInFlight := s.mapBlocksInFlight.lookup cmpctblock.header.hash
      if ctx.haveData || decide (ctx.nHeight ≤ ctx.tipHeight) || ctx.nTx != 0 then .ok s
      else if blockInFlight.isNone && !ctx.canDirectFetch then .ok s
      else if ctx.witnessEnabled && !nodestate.fSupportsDesiredCmpctVersion then .ok s
      else if ctx.nHeight ≤ ctx.tipHeight + 2 then
        if (blockInFlight.isNone &&
              decide (nodestate.nBlocksInFlight < MAX_BLOCKS_IN_TRANSIT_PER_PEER)) ||
            blockInFlight.map Prod.fst == some pfrom then
          s.downloadCmpctBlock env pfrom cmpctblock vTxHashes extra_txn
        else s.reconstructCmpctBlock env cmpctblock ctx vTxHashes extra_txn
      else if blockInFlight.isSome then .ok s
      else s.processHeadersMessage pfrom walk

end CmpctBlock

end NetState

/-! ## Events -/

inductive NetEvent where
  | connect (nodeid : NodeId) (fSupportsDesiredCmpctVersion fHaveWitness : Bool)
  | cmpctBlock (pfrom : NodeId) (cmpctblock : CBlockHeaderAndShortTxIDs) (ctx : HeaderContext)
      (walk : HeadersContext) (vTxHashes extra_txn : List (uint256 × CTransaction))
  | blockTxn (pfrom : NodeId) (blockhash : uint256) (txn : List CTransaction)
  | headers (pfrom : NodeId) (ctx : HeadersContext)
  | block (pfrom : NodeId) (hash : uint256)
  | getData (pto : NodeId) (vToDownload : List uint256)
  | disconnect (nodeid : NodeId)

def NetEvent.Possible (s : NetState) : NetEvent → Prop
  | .connect nodeid _ _ => s.mapNodeState.lookup nodeid = none
  | .cmpctBlock nodeid _ _ _ _ _ | .blockTxn nodeid _ _ | .headers nodeid _ | .block nodeid _
  | .getData nodeid _ | .disconnect nodeid => s.mapNodeState.lookup nodeid ≠ none

namespace NetState

def handle (env : BlockEncoding) (s : NetState) : NetEvent → Except Crash NetState
  | .connect nodeid compact witness => .ok (s.initializeNode nodeid compact witness)
  | .cmpctBlock pfrom cmpctblock ctx walk vTxHashes extra_txn =>
    s.processCmpctBlock env pfrom cmpctblock ctx vTxHashes extra_txn walk
  | .blockTxn pfrom blockhash txn => s.processBlockTxn env pfrom blockhash txn
  | .headers pfrom ctx => s.processHeadersMessage pfrom ctx
  | .block _ hash => (s.markBlockAsReceived hash).map Prod.snd
  | .getData pto vToDownload =>
    requestBlocks pto
      (vToDownload.filter fun hash => (s.mapBlocksInFlight.lookup hash).isNone) s
  | .disconnect nodeid => s.finalizeNode nodeid

/-! ## What a handler can do -/

/-- The object of the block in flight has a null header. -/
def Consumed (s : NetState) (nodeid : NodeId) (hash : uint256) : Prop :=
  ∃ queued partialBlock, s.mapBlocksInFlight.lookup hash = some (nodeid, queued) ∧
    queued.partialBlock = some partialBlock ∧ partialBlock.header.isNull = true

/-- What holds while an event is handled that began in `s₀`; only the blocks of `may` are
consumed. -/
structure Within (s₀ : NetState) (may : NodeId → uint256 → Prop) (s : NetState) : Prop
    extends Consistent s where
  same : s₀.SamePeers s
  limited : ∀ nodeid state, s.mapNodeState.lookup nodeid = some state →
    state.nBlocksInFlight ≤ MAX_BLOCKS_IN_TRANSIT_PER_PEER
  consumed : ∀ nodeid hash, s.Consumed nodeid hash → may nodeid hash

def EndsWithin (s₀ : NetState) (may : NodeId → uint256 → Prop) (r : Except Crash NetState) :
    Prop :=
  ∃ s, r = .ok s ∧ s₀.Within may s

/-- The handler ends, unless a loop in `InitData` does not. -/
def EndsOrLoopsWithin (s₀ : NetState) (may : NodeId → uint256 → Prop)
    (cmpctblock : CBlockHeaderAndShortTxIDs) (r : Except Crash NetState) : Prop :=
  s₀.EndsWithin may r ∨ r = .error .endless ∧ 65536 ≤ cmpctblock.prefilledtxn.length

/-- What holds after an event: the blocks in flight are in order, and nobody else
has left. -/
structure Follows (s : NetState) (may : NodeId → uint256 → Prop) (event : NetEvent)
    (s' : NetState) : Prop where
  within : s'.Within may s'
  stays : ∀ nodeid, event ≠ .disconnect nodeid → s.mapNodeState.lookup nodeid ≠ none →
    s'.mapNodeState.lookup nodeid ≠ none

variable {s₀ s s' : NetState} {r : Except Crash NetState} {env : BlockEncoding} {hash : uint256}
  {nodeid : NodeId} {state : CNodeState} {event : NetEvent} {may may' : NodeId → uint256 → Prop}

theorem EndsWithin.orLoops (h : s₀.EndsWithin may r) (cmpctblock : CBlockHeaderAndShortTxIDs) :
    s₀.EndsOrLoopsWithin may cmpctblock r := .inl h

theorem EndsWithin.follows (h : s.EndsWithin may r) (event : NetEvent) :
    ∃ s', r = .ok s' ∧ s.Follows may event s' := by
  obtain ⟨s', heq, hwithin⟩ := h
  exact ⟨s', heq, { hwithin with same := .refl s' }, fun nodeid _ => mt (hwithin.same nodeid).mp⟩

/-- `FillBlock` puts together a block that is corrupt. -/
def FillFailed (env : BlockEncoding) (partialBlock : PartiallyDownloadedBlock)
    (txn : List CTransaction) : Prop :=
  ∃ block left, partialBlock.fillBlock env txn = .ok (.READ_STATUS_FAILED, block, left)

/-- The node lacks no transaction of the compact block, and `FillBlock` fails. -/
def FillFailedAtOnce (env : BlockEncoding) (cmpctblock : CBlockHeaderAndShortTxIDs)
    (vTxHashes extra_txn : List (uint256 × CTransaction)) : Prop :=
  ∃ partialBlock, PartiallyDownloadedBlock.new.initData env cmpctblock vTxHashes extra_txn =
    .ok (.READ_STATUS_OK, partialBlock) ∧ FillFailed env partialBlock []

theorem Consumed.congr (h : s'.Consumed nodeid hash)
    (heq : s'.mapBlocksInFlight.lookup hash = s.mapBlocksInFlight.lookup hash) :
    s.Consumed nodeid hash := by
  unfold Consumed at h ⊢
  rwa [← heq]

theorem nBlocksInFlight_le_of_received {requested : Bool}
    (hdone : s.markBlockAsReceived hash = .ok (requested, s'))
    (hstate : s'.mapNodeState.lookup nodeid = some state) :
    ∃ old, s.mapNodeState.lookup nodeid = some old ∧
      state.nBlocksInFlight ≤ old.nBlocksInFlight := by
  unfold markBlockAsReceived at hdone
  split at hdone
  case h_1 =>
    cases hdone
    exact ⟨state, hstate, le_rfl⟩
  case h_2 nodeid' queued _ =>
    split at hdone
    case h_1 => cases hdone
    case h_2 old hold =>
      cases hdone
      rcases AssocMap.of_lookup_insert hstate with ⟨rfl, rfl⟩ | ⟨-, hstate⟩
      · exact ⟨old, hold, Int.sub_le_self _ (by decide)⟩
      · exact ⟨state, hstate, le_rfl⟩

theorem exists_missingIndexes {partialBlock : PartiallyDownloadedBlock}
    (hnull : partialBlock.header.isNull = false) (indexes : List Nat)
    (hindexes : ∀ i ∈ indexes, i < partialBlock.txn_available.length) :
    ∃ missing, missingIndexes partialBlock indexes = .ok missing := by
  induction indexes with
  | nil => exact ⟨[], rfl⟩
  | cons i indexes ih =>
    obtain ⟨hi, hrest⟩ := List.forall_mem_cons.mp hindexes
    obtain ⟨available, havailable⟩ := PartiallyDownloadedBlock.isTxAvailable_spec hnull hi
    obtain ⟨missing, hmissing⟩ := ih hrest
    unfold missingIndexes
    rw [havailable, hmissing]
    exact ⟨_, rfl⟩

theorem lookup_setPartialBlock {partialBlock : PartiallyDownloadedBlock} {queued : QueuedBlock}
    (h : (s.setPartialBlock hash partialBlock).mapBlocksInFlight.lookup hash =
      some (nodeid, queued)) :
    queued.partialBlock = some partialBlock := by
  unfold setPartialBlock at h
  split at h
  case h_1 hnone =>
    rw [hnone] at h
    cases h
  case h_2 nodeid' queued' hlookup =>
    rw [AList.lookup_insert] at h
    cases h
    rfl

namespace Within

variable (h : s₀.Within may s)

include h

theorem ends : s₀.EndsWithin may (.ok s) := ⟨s, rfl, h⟩

theorem mono (hmay : ∀ nodeid hash, may nodeid hash → may' nodeid hash) : s₀.Within may' s :=
  { h with consumed := fun nodeid hash hnull => hmay nodeid hash (h.consumed nodeid hash hnull) }

theorem self : s.Within s.Consumed s :=
  { h with same := .refl s, consumed := fun _ _ => id }

theorem setPartialBlock {partialBlock : PartiallyDownloadedBlock}
    (hmay : ∀ nodeid other, other ≠ hash → may nodeid other → may' nodeid other)
    (hnull : partialBlock.header.isNull = true → ∀ nodeid queued,
      s.mapBlocksInFlight.lookup hash = some (nodeid, queued) → may' nodeid hash) :
    s₀.Within may' (s.setPartialBlock hash partialBlock) := by
  have hnodes : (s.setPartialBlock hash partialBlock).mapNodeState = s.mapNodeState := by
    unfold NetState.setPartialBlock
    split <;> rfl
  refine ⟨h.toConsistent.setPartialBlock hash partialBlock,
    by simpa [SamePeers, hnodes] using h.same, by simpa [hnodes] using h.limited, ?_⟩
  rintro nodeid other ⟨queued, object, hqueued, hobject⟩
  unfold NetState.setPartialBlock at hqueued
  split at hqueued
  case h_1 hnone =>
    refine hmay nodeid other ?_ (h.consumed nodeid other ⟨queued, object, hqueued, hobject⟩)
    rintro rfl
    rw [hnone] at hqueued
    cases hqueued
  case h_2 nodeid' queued' hlookup =>
    rcases AssocMap.of_lookup_insert hqueued with ⟨rfl, ⟨⟩⟩ | ⟨hne, hqueued⟩
    · obtain ⟨⟨⟩, hobject⟩ := hobject
      exact hnull hobject nodeid queued' hlookup
    · exact hmay nodeid other hne (h.consumed nodeid other ⟨queued, object, hqueued, hobject⟩)

theorem ends_markBlockAsReceived (hash : uint256)
    (hmay : ∀ nodeid other, other ≠ hash → may nodeid other → may' nodeid other) :
    s₀.EndsWithin may' ((s.markBlockAsReceived hash).map Prod.snd) := by
  obtain ⟨requested, s', heq, hconsistent, hsame, hlookup⟩ :=
    h.toConsistent.markBlockAsReceived hash
  rw [heq]
  refine ends ⟨hconsistent, h.same.trans hsame, fun nodeid state hstate => ?_,
    fun nodeid other hnull => ?_⟩
  · obtain ⟨old, hold, hle⟩ := nBlocksInFlight_le_of_received heq hstate
    exact hle.trans (h.limited nodeid old hold)
  · by_cases hother : other = hash
    · obtain ⟨queued, object, hqueued, -⟩ := hnull
      rw [hlookup, if_pos hother] at hqueued
      cases hqueued
    · have hbefore : s.Consumed nodeid other := hnull.congr ((hlookup other).trans (if_neg hother))
      exact hmay nodeid other hother (h.consumed nodeid other hbefore)

theorem ends_setPartialBlock_received (partialBlock : PartiallyDownloadedBlock)
    (hmay : ∀ nodeid other, other ≠ hash → may nodeid other → may' nodeid other) :
    s₀.EndsWithin may'
      (((s.setPartialBlock hash partialBlock).markBlockAsReceived hash).map Prod.snd) := by
  have hset : s₀.Within (fun nodeid other => may' nodeid other ∨ other = hash)
      (s.setPartialBlock hash partialBlock) :=
    h.setPartialBlock (fun nodeid other hne hold => .inl (hmay nodeid other hne hold))
      fun _ _ _ _ => .inr rfl
  exact hset.ends_markBlockAsReceived hash fun _ _ hne hold => hold.resolve_right hne

theorem markBlockAsInFlight {pit started : Bool}
    (hstate : s.mapNodeState.lookup nodeid = some state)
    (hroom : (s.mapBlocksInFlight.lookup hash).map Prod.fst = some nodeid ∨
      state.nBlocksInFlight < MAX_BLOCKS_IN_TRANSIT_PER_PEER)
    (hpit : pit = true → may nodeid hash)
    (hdone : s.markBlockAsInFlight nodeid hash pit = .ok (started, s')) : s₀.Within may s' := by
  have hnode : s.mapNodeState.lookup nodeid ≠ none := by simp [hstate]
  obtain ⟨_, _, heq, hconsistent, hsame, hold, hnew⟩ :=
    h.toConsistent.markBlockAsInFlight hnode hash pit
  rw [heq] at hdone
  cases hdone
  refine ⟨hconsistent, h.same.trans hsame, ?limited, ?consumed⟩
  case consumed =>
    intro nodeid' other hnull
    cases started with
    | false => exact h.consumed nodeid' other (hold rfl ▸ hnull)
    | true =>
      have hlookup := hnew rfl other
      by_cases hother : other = hash
      · obtain ⟨queued, object, hqueued, hobject, -⟩ := hnull
        rw [hlookup, if_pos hother] at hqueued
        cases hqueued
        rw [hother]
        exact hpit (by by_contra hpit; simp [hpit] at hobject)
      · exact h.consumed nodeid' other (hnull.congr (hlookup.trans (if_neg hother)))
  intro other state' hstate'
  unfold NetState.markBlockAsInFlight at heq
  rw [if_neg hnode] at heq
  split at heq
  case isTrue =>
    cases heq
    exact h.limited other state' hstate'
  case isFalse hmine =>
    split at heq
    case h_1 => cases heq
    case h_2 requested s₁ hreceived =>
      unfold NetState.enqueue at heq
      split at heq
      case h_1 => cases heq
      case h_2 state₁ hstate₁ =>
        cases heq
        rcases AssocMap.of_lookup_insert hstate' with ⟨-, rfl⟩ | ⟨-, hstate'⟩
        · obtain ⟨old, hold, hle⟩ := nBlocksInFlight_le_of_received hreceived hstate₁
          rw [hstate] at hold
          cases hold
          have hless := hroom.resolve_left hmine
          show state₁.nBlocksInFlight + 1 ≤ _
          omega
        · obtain ⟨old, hold, hle⟩ := nBlocksInFlight_le_of_received hreceived hstate'
          exact hle.trans (h.limited other old hold)

theorem ends_requestBlocks (hnode : s.mapNodeState.lookup nodeid ≠ none) (hashes : List uint256) :
    s₀.EndsWithin may (requestBlocks nodeid hashes s) := by
  induction hashes generalizing s with
  | nil => exact h.ends
  | cons hash hashes ih =>
    obtain ⟨state, hstate⟩ := ne_none_iff_exists'.mp hnode
    obtain ⟨started, s', heq, -, hpeers, -⟩ := h.toConsistent.markBlockAsInFlight hnode hash false
    unfold requestBlocks
    rw [hstate]
    dsimp only
    split
    case isTrue => exact h.ends
    case isFalse hroom =>
      rw [heq]
      exact ih (h.markBlockAsInFlight hstate (.inr (not_le.mp hroom)) (by simp) heq)
        (mt (hpeers nodeid).mp hnode)

theorem ends_processHeadersMessage (hnode : s.mapNodeState.lookup nodeid ≠ none)
    (ctx : HeadersContext) :
    s₀.EndsWithin may (s.processHeadersMessage nodeid ctx) := by
  obtain ⟨state, hstate⟩ := ne_none_iff_exists'.mp hnode
  unfold processHeadersMessage
  rw [hstate]
  dsimp only
  split
  case isTrue => exact h.ends
  case isFalse =>
    split
    case isTrue => exact h.ends
    case isFalse =>
      split
      case h_1 => exact h.ends
      case h_2 hashes _ => exact h.ends_requestBlocks hnode hashes

theorem ends_processBlockTxn (txn : List CTransaction)
    (hfresh : ∀ queued partialBlock, s.mapBlocksInFlight.lookup hash = some (nodeid, queued) →
      queued.partialBlock = some partialBlock → partialBlock.header.isNull = false)
    (hfail : ∀ queued partialBlock, s.mapBlocksInFlight.lookup hash = some (nodeid, queued) →
      queued.partialBlock = some partialBlock → FillFailed env partialBlock txn →
      may nodeid hash) :
    s₀.EndsWithin may (s.processBlockTxn env nodeid hash txn) := by
  unfold processBlockTxn
  split
  case h_1 => exact h.ends
  case h_2 nodeid' queued hlookup =>
    split
    case h_1 => exact h.ends
    case h_2 partialBlock hpb =>
      split
      case isTrue => exact h.ends
      case isFalse hsame =>
        obtain rfl : nodeid' = nodeid := not_not.mp hsame
        obtain ⟨status, block, partialBlock', hfill⟩ :=
          PartiallyDownloadedBlock.fillBlock_spec env txn (hfresh queued partialBlock hlookup hpb)
        rw [hfill]
        cases status with
        | READ_STATUS_FAILED =>
          refine (h.setPartialBlock (fun _ _ _ => id) fun _ other queued' hother => ?_).ends
          rw [hlookup] at hother
          cases hother
          exact hfail queued partialBlock hlookup hpb ⟨block, partialBlock', hfill⟩
        | READ_STATUS_OK | READ_STATUS_INVALID | READ_STATUS_CHECKBLOCK_FAILED =>
          exact h.ends_setPartialBlock_received partialBlock' fun _ _ _ => id

variable {cmpctblock : CBlockHeaderAndShortTxIDs}
  {vTxHashes extra_txn : List (uint256 × CTransaction)}

theorem ends_initPartialBlock
    (hmay : ∀ nodeid other, other ≠ cmpctblock.header.hash → may nodeid other →
      may' nodeid other)
    (hfail : FillFailedAtOnce env cmpctblock vTxHashes extra_txn →
      may' nodeid cmpctblock.header.hash) :
    s₀.EndsOrLoopsWithin may' cmpctblock
      (s.initPartialBlock env nodeid cmpctblock vTxHashes extra_txn .new) := by
  unfold initPartialBlock
  rcases PartiallyDownloadedBlock.initData_new env cmpctblock vTxHashes extra_txn with
    ⟨status, partialBlock, hinit, hready⟩ | ⟨hinit, hmany⟩
  · rw [hinit]
    have hset (hvalid : status ≠ .READ_STATUS_INVALID) :
        s₀.Within may' (s.setPartialBlock cmpctblock.header.hash partialBlock) :=
      h.setPartialBlock hmay fun hnull => by simp [(hready hvalid).1] at hnull
    cases status with
    | READ_STATUS_INVALID => exact (h.ends_setPartialBlock_received _ hmay).orLoops _
    | READ_STATUS_FAILED | READ_STATUS_CHECKBLOCK_FAILED =>
      exact (hset (by simp)).ends.orLoops _
    | READ_STATUS_OK =>
      obtain ⟨hnull, hlength⟩ := hready (by simp)
      obtain ⟨missing, hmissing⟩ := exists_missingIndexes hnull
        (List.range cmpctblock.blockTxCount) (by simp [hlength])
      dsimp only
      rw [hmissing]
      cases missing with
      | cons i missing => exact (hset (by simp)).ends.orLoops _
      | nil =>
        refine ((hset (by simp)).ends_processBlockTxn [] (fun queued object hlookup hpb => ?_)
          fun queued object hlookup hpb => ?_).orLoops _
        all_goals
          rw [lookup_setPartialBlock hlookup] at hpb
          cases hpb
        · exact hnull
        · exact fun hfailed => hfail ⟨partialBlock, hinit, hfailed⟩
  · rw [hinit]
    exact .inr ⟨rfl, hmany⟩

theorem ends_downloadCmpctBlock (hstate : s.mapNodeState.lookup nodeid = some state)
    (hroom : (s.mapBlocksInFlight.lookup cmpctblock.header.hash).map Prod.fst = some nodeid ∨
      state.nBlocksInFlight < MAX_BLOCKS_IN_TRANSIT_PER_PEER)
    (hfail : FillFailedAtOnce env cmpctblock vTxHashes extra_txn →
      may nodeid cmpctblock.header.hash) :
    s₀.EndsOrLoopsWithin may cmpctblock
      (s.downloadCmpctBlock env nodeid cmpctblock vTxHashes extra_txn) := by
  have hnode : s.mapNodeState.lookup nodeid ≠ none := by simp [hstate]
  obtain ⟨started, s', heq, -, -, hold, hnew⟩ :=
    h.toConsistent.markBlockAsInFlight hnode cmpctblock.header.hash true
  -- the object of a new entry has a null header until `InitData` has set it
  have hwithin : s₀.Within
      (fun nodeid other => may nodeid other ∨ other = cmpctblock.header.hash) s' :=
    (h.mono fun _ _ => .inl).markBlockAsInFlight hstate hroom (fun _ => .inr rfl) heq
  have hinit := hwithin.ends_initPartialBlock (fun _ _ hne hmay => hmay.resolve_right hne) hfail
  unfold downloadCmpctBlock
  rw [heq]
  dsimp only
  cases started with
  | false =>
    split
    case h_1 =>
      rw [hold rfl]
      exact h.ends.orLoops _
    case h_2 => exact hinit
    case h_3 hfalse _ => cases hfalse
    case h_4 hfalse _ => cases hfalse
  | true =>
    rw [hnew rfl, if_pos rfl]
    exact hinit

theorem ends_reconstructCmpctBlock (ctx : HeaderContext) :
    s₀.EndsOrLoopsWithin may cmpctblock
      (s.reconstructCmpctBlock env cmpctblock ctx vTxHashes extra_txn) := by
  unfold reconstructCmpctBlock
  rcases PartiallyDownloadedBlock.initData_new env cmpctblock vTxHashes extra_txn with
    ⟨status, tempBlock, hinit, hready⟩ | ⟨hinit, hmany⟩
  · rw [hinit]
    cases status with
    | READ_STATUS_INVALID | READ_STATUS_FAILED | READ_STATUS_CHECKBLOCK_FAILED =>
      exact h.ends.orLoops _
    | READ_STATUS_OK =>
      obtain ⟨hnull, -⟩ := hready (by simp)
      obtain ⟨status, block, tempBlock', hfill⟩ :=
        PartiallyDownloadedBlock.fillBlock_spec env [] hnull
      dsimp only
      rw [hfill]
      cases status with
      | READ_STATUS_OK =>
        dsimp only
        split
        · exact (h.ends_markBlockAsReceived _ fun _ _ _ => id).orLoops _
        · exact h.ends.orLoops _
      | READ_STATUS_INVALID | READ_STATUS_FAILED | READ_STATUS_CHECKBLOCK_FAILED =>
        exact h.ends.orLoops _
  · rw [hinit]
    exact .inr ⟨rfl, hmany⟩

theorem ends_processCmpctBlock (hnode : s.mapNodeState.lookup nodeid ≠ none) (ctx : HeaderContext)
    (walk : HeadersContext)
    (hfail : FillFailedAtOnce env cmpctblock vTxHashes extra_txn →
      may nodeid cmpctblock.header.hash) :
    s₀.EndsOrLoopsWithin may cmpctblock
      (s.processCmpctBlock env nodeid cmpctblock ctx vTxHashes extra_txn walk) := by
  obtain ⟨state, hstate⟩ := ne_none_iff_exists'.mp hnode
  unfold processCmpctBlock
  rw [hstate]
  dsimp only
  split_ifs with _ _ _ _ _ hroom
  · exact h.ends.orLoops _
  · exact h.ends.orLoops _
  · exact h.ends.orLoops _
  · exact h.ends.orLoops _
  · simp only [Bool.or_eq_true, Bool.and_eq_true, decide_eq_true_eq, beq_iff_eq] at hroom
    exact h.ends_downloadCmpctBlock hstate (hroom.symm.imp_right And.right) hfail
  · exact h.ends_reconstructCmpctBlock ctx
  · exact h.ends.orLoops _
  · exact (h.ends_processHeadersMessage hnode walk).orLoops _

end Within

theorem Follows.mono (h : s.Follows may event s')
    (hmay : ∀ nodeid hash, may nodeid hash → may' nodeid hash) : s.Follows may' event s' :=
  ⟨h.within.mono hmay, h.stays⟩

/-! ## Whole runs -/

inductive Reachable (env : BlockEncoding) : NetState → Prop
  | start : Reachable env empty
  | handled {s s' : NetState} {event : NetEvent} (before : Reachable env s)
      (possible : event.Possible s) (done : s.handle env event = .ok s') : Reachable env s'

/-- `BLOCKTXN` from the peer that a block is in flight from, for an object that
`FillBlock` has consumed. -/
def HitsConsumed (s : NetState) (event : NetEvent) : Prop :=
  ∃ nodeid hash txn queued partialBlock, event = .blockTxn nodeid hash txn ∧
    s.mapBlocksInFlight.lookup hash = some (nodeid, queued) ∧
    queued.partialBlock = some partialBlock ∧ partialBlock.header.isNull = true

theorem HitsConsumed.handle (h : s.HitsConsumed event) (env : BlockEncoding) :
    s.handle env event = .error (.assertion "!header.IsNull()") := by
  obtain ⟨nodeid, hash, txn, queued, partialBlock, rfl, hlookup, hpb, hnull⟩ := h
  show s.processBlockTxn env nodeid hash txn = _
  unfold processBlockTxn
  rw [hlookup]
  dsimp only
  rw [hpb]
  dsimp only
  rw [if_neg (by simp), PartiallyDownloadedBlock.fillBlock_of_isNull env txn hnull]

/-- An event in which `FillBlock` returns `READ_STATUS_FAILED` for a block that is in flight
from the peer. -/
inductive FillFails (env : BlockEncoding) (s : NetState) : NetEvent → NodeId → uint256 → Prop
  | blockTxn {nodeid : NodeId} {hash : uint256} {txn : List CTransaction} {queued : QueuedBlock}
      {partialBlock : PartiallyDownloadedBlock}
      (inFlight : s.mapBlocksInFlight.lookup hash = some (nodeid, queued))
      (object : queued.partialBlock = some partialBlock)
      (failed : FillFailed env partialBlock txn) :
      FillFails env s (.blockTxn nodeid hash txn) nodeid hash
  | cmpctBlock {nodeid : NodeId} {cmpctblock : CBlockHeaderAndShortTxIDs} {ctx : HeaderContext}
      {walk : HeadersContext} {vTxHashes extra_txn : List (uint256 × CTransaction)}
      (failed : FillFailedAtOnce env cmpctblock vTxHashes extra_txn) :
      FillFails env s (.cmpctBlock nodeid cmpctblock ctx walk vTxHashes extra_txn) nodeid
        cmpctblock.header.hash

/-- The blocks that may be consumed after the event. -/
def MayConsume (env : BlockEncoding) (s : NetState) (event : NetEvent) (nodeid : NodeId)
    (hash : uint256) : Prop :=
  s.Consumed nodeid hash ∨ FillFails env s event nodeid hash

/-- `FillBlock` has failed for the block, which has been in flight from the peer since. -/
inductive FailedSince (env : BlockEncoding) (nodeid : NodeId) (hash : uint256) : NetState → Prop
  | failed {s s' : NetState} {event : NetEvent} (before : Reachable env s)
      (fails : FillFails env s event nodeid hash) (done : s.handle env event = .ok s') :
      FailedSince env nodeid hash s'
  | kept {s s' : NetState} {event : NetEvent} (before : FailedSince env nodeid hash s)
      (still : s.Consumed nodeid hash) (done : s.handle env event = .ok s') :
      FailedSince env nodeid hash s'

namespace Within

variable (h : s.Within s.Consumed s)

include h

theorem initializeNode (hnew : s.mapNodeState.lookup nodeid = none) (compact witness : Bool) :
    s.Follows s.Consumed (.connect nodeid compact witness)
      (s.initializeNode nodeid compact witness) := by
  refine ⟨⟨h.toConsistent.initializeNode hnew compact witness, .refl _, ?_, h.consumed⟩, ?_⟩
  · intro other state hstate
    rcases AssocMap.of_lookup_insert hstate with ⟨-, rfl⟩ | ⟨-, hstate⟩
    · simp
    · exact h.limited other state hstate
  · intro other _ hother
    unfold NetState.initializeNode
    rw [AssocMap.lookup_insert_ite, if_neg (by rintro rfl; exact hother hnew)]
    exact hother

theorem finalizeNode (hnode : s.mapNodeState.lookup nodeid ≠ none) :
    ∃ s', s.finalizeNode nodeid = .ok s' ∧ s.Follows s.Consumed (.disconnect nodeid) s' := by
  obtain ⟨s', heq, hconsistent⟩ := h.toConsistent.finalizeNode hnode
  have herased : s'.mapNodeState = s.mapNodeState.erase nodeid ∧
      ∃ hashes, s'.mapBlocksInFlight = s.mapBlocksInFlight.eraseAll hashes := by
    unfold NetState.finalizeNode at heq
    split at heq
    case h_1 => cases heq
    case h_2 state _ =>
      dsimp only at heq
      split_ifs at heq
      cases heq
      exact ⟨rfl, state.vBlocksInFlight, rfl⟩
  obtain ⟨hnodes, hashes, hblocks⟩ := herased
  have hlookup (other : NodeId) : s'.mapNodeState.lookup other =
      if other = nodeid then none else s.mapNodeState.lookup other := by
    rw [hnodes, AssocMap.lookup_erase_ite]
  have hconsumed (nodeid : NodeId) (hash : uint256) (hnull : s'.Consumed nodeid hash) :
      s.Consumed nodeid hash := by
    obtain ⟨queued, object, hqueued, hobject⟩ := hnull
    rw [hblocks, AssocMap.lookup_eraseAll] at hqueued
    split_ifs at hqueued
    exact ⟨queued, object, hqueued, hobject⟩
  refine ⟨s', heq, ⟨hconsistent, .refl s', ?_, hconsumed⟩, ?_⟩
  · intro other state hstate
    rw [hlookup] at hstate
    split at hstate
    case isTrue => cases hstate
    case isFalse => exact h.limited other state hstate
  · intro other hne hother
    rw [hlookup, if_neg (by rintro rfl; exact hne rfl)]
    exact hother

theorem handle (env : BlockEncoding) (hpossible : event.Possible s)
    (hconsumed : ¬s.HitsConsumed event) :
    (∃ s', s.handle env event = .ok s' ∧ s.Follows (s.MayConsume env event) event s') ∨
      s.handle env event = .error .endless ∧ ∃ pfrom cmpctblock ctx walk vTxHashes extra_txn,
        event = .cmpctBlock pfrom cmpctblock ctx walk vTxHashes extra_txn ∧
        65536 ≤ cmpctblock.prefilledtxn.length := by
  have hold : s.Within (s.MayConsume env event) s := h.mono fun _ _ => .inl
  cases event with
  | connect nodeid compact witness =>
    exact .inl ⟨_, rfl, (h.initializeNode hpossible compact witness).mono fun _ _ => .inl⟩
  | cmpctBlock pfrom cmpctblock ctx walk vTxHashes extra_txn =>
    obtain hends | ⟨hloop, hmany⟩ := hold.ends_processCmpctBlock hpossible ctx walk
      fun hfailed => .inr (.cmpctBlock hfailed)
    · exact .inl (hends.follows _)
    · exact .inr ⟨hloop, pfrom, cmpctblock, ctx, walk, vTxHashes, extra_txn, rfl, hmany⟩
  | blockTxn pfrom hash txn =>
    refine .inl ((hold.ends_processBlockTxn txn (fun queued partialBlock hlookup hpb => ?_)
      fun _ _ hlookup hpb hfailed => .inr (.blockTxn hlookup hpb hfailed)).follows _)
    by_contra hnull
    exact hconsumed ⟨pfrom, hash, txn, queued, partialBlock, rfl, hlookup, hpb,
      by simpa using hnull⟩
  | headers pfrom ctx => exact .inl ((hold.ends_processHeadersMessage hpossible ctx).follows _)
  | block pfrom hash =>
    exact .inl ((hold.ends_markBlockAsReceived hash fun _ _ _ => id).follows _)
  | getData pto vToDownload => exact .inl ((hold.ends_requestBlocks hpossible _).follows _)
  | disconnect nodeid =>
    obtain ⟨s', heq, hfollows⟩ := h.finalizeNode hpossible
    exact .inl ⟨s', heq, hfollows.mono fun _ _ => .inl⟩

theorem follows (hpossible : event.Possible s) (hdone : s.handle env event = .ok s') :
    s.Follows (s.MayConsume env event) event s' := by
  have hconsumed : ¬s.HitsConsumed event := by
    intro hconsumed
    rw [hconsumed.handle env] at hdone
    cases hdone
  rcases h.handle env hpossible hconsumed with ⟨s'', heq, hfollows⟩ | ⟨hloop, -⟩
  · rw [heq] at hdone
    cases hdone
    exact hfollows
  · rw [hloop] at hdone
    cases hdone

end Within

theorem Reachable.within (h : Reachable env s) : s.Within s.Consumed s := by
  induction h with
  | start =>
    exact ⟨consistent_empty, .refl _, fun _ _ hstate => (by cases hstate), fun _ _ => id⟩
  | handled _ hpossible hdone ih => exact (ih.follows hpossible hdone).within.self

theorem Reachable.failedSince (h : Reachable env s) (hconsumed : s.Consumed nodeid hash) :
    FailedSince env nodeid hash s := by
  induction h with
  | start =>
    obtain ⟨queued, _, hqueued, -⟩ := hconsumed
    cases hqueued
  | handled before hpossible hdone ih =>
    have hfollows := before.within.follows hpossible hdone
    rcases hfollows.within.consumed nodeid hash hconsumed with hbefore | hfails
    · exact .kept (ih hbefore) hbefore hdone
    · exact .failed before hfails hdone

/-- The next event fails an assertion or reads out of range just when it is a `BLOCKTXN` for
a consumed object, and `FillBlock` has then failed for the block before; otherwise the handler
ends, unless a compact block has `2 ^ 16` prefilled transactions. -/
theorem handle_crashes_iff {env : BlockEncoding} {s : NetState} {event : NetEvent}
    (h : Reachable env s) (hpossible : event.Possible s) :
    ((∃ crash, s.handle env event = .error crash ∧ crash ≠ .endless) ↔ s.HitsConsumed event) ∧
      (s.HitsConsumed event → ∃ nodeid hash txn,
        event = .blockTxn nodeid hash txn ∧ FailedSince env nodeid hash s) ∧
      (s.handle env event = .error .endless → ∃ pfrom cmpctblock ctx walk vTxHashes extra_txn,
        event = .cmpctBlock pfrom cmpctblock ctx walk vTxHashes extra_txn ∧
        65536 ≤ cmpctblock.prefilledtxn.length) := by
  by_cases hconsumed : s.HitsConsumed event
  · have hcrash := hconsumed.handle env
    refine ⟨iff_of_true ⟨_, hcrash, by simp⟩ hconsumed, fun _ => ?_, fun hloop => ?_⟩
    · obtain ⟨nodeid, hash, txn, queued, partialBlock, hevent, hobject⟩ := hconsumed
      exact ⟨nodeid, hash, txn, hevent, h.failedSince ⟨queued, partialBlock, hobject⟩⟩
    · rw [hcrash] at hloop
      cases hloop
  · rcases h.within.handle env hpossible hconsumed with ⟨s', heq, -⟩ | ⟨hloop, hmany⟩
    · rw [heq]
      exact ⟨iff_of_false (by simp) hconsumed, fun h => absurd h hconsumed, by simp⟩
    · rw [hloop]
      exact ⟨iff_of_false (by simp) hconsumed, fun h => absurd h hconsumed, fun _ => hmany⟩

/-! ### Two answers to one request

A compact block with one short id that the node does not have.  The block that
`FillBlock` puts together is corrupt unless its hashes fit the header. -/

instance (s : NetState) : (event : NetEvent) → Decidable (event.Possible s)
  | .connect nodeid _ _ => inferInstanceAs (Decidable (s.mapNodeState.lookup nodeid = none))
  | .cmpctBlock nodeid _ _ _ _ _ | .blockTxn nodeid _ _ | .headers nodeid _ | .block nodeid _
  | .getData nodeid _ | .disconnect nodeid =>
    inferInstanceAs (Decidable (¬s.mapNodeState.lookup nodeid = none))

def handleAll (env : BlockEncoding) : List NetEvent → NetState → Option NetState
  | [], s => some s
  | event :: events, s =>
    if event.Possible s then (s.handle env event).toOption.bind (handleAll env events) else none

theorem Reachable.handleAll {events : List NetEvent} (h : Reachable env s)
    (hall : NetState.handleAll env events s = some s') : Reachable env s' := by
  induction events generalizing s with
  | nil =>
    cases hall
    exact h
  | cons event events ih =>
    unfold NetState.handleAll at hall
    split at hall
    case isTrue hpossible =>
      cases hdone : s.handle env event with
      | error crash =>
        rw [hdone] at hall
        cases hall
      | ok s₁ =>
        rw [hdone] at hall
        exact ih (h.handled hpossible hdone) hall
    case isFalse => cases hall

def sampleEncoding : BlockEncoding where
  getShortID _ _ hash := UInt64.ofNat hash.toNat
  bucketSize _ _ := 1
  getWitnessHash tx := tx.hash
  checkBlock block :=
    if block.hashMerkleRoot = block.vtx.foldr (fun tx root => tx.hash + root) 0 then .valid
    else .invalid true

def txOfHash (hash : uint256) : CTransaction := ⟨[], [⟨0, []⟩], 1, 0, 0, hash⟩

def sampleCmpctBlock : CBlockHeaderAndShortTxIDs where
  header := ⟨1, 0, 3, 0, 1, 0, 9⟩
  nonce := 0
  vchBlockSig := []
  shorttxids := [2]
  prefilledtxn := [⟨0, txOfHash 1⟩]

def sampleEvents : List NetEvent :=
  [.connect 0 true true,
    .cmpctBlock 0 sampleCmpctBlock ⟨true, true, false, 0, 1, 0, true, false, false⟩
      ⟨true, false, []⟩ [] []]

theorem handle_crashes_iff_sample :
    ∃ s, Reachable sampleEncoding s ∧
      ¬(∃ crash, s.handle sampleEncoding (.blockTxn 0 9 [txOfHash 2]) = .error crash ∧
        crash ≠ .endless) := by
  have heval : (handleAll sampleEncoding sampleEvents empty).map (fun s =>
      (decide (NetEvent.Possible s (.blockTxn 0 9 [txOfHash 2])),
        (s.mapBlocksInFlight.lookup 9).map fun entry =>
          entry.2.partialBlock.map fun partialBlock => partialBlock.header.isNull)) =
      some (true, some (some false)) := rfl
  obtain ⟨s, hs, heq⟩ := map_eq_some_iff.mp heval
  obtain ⟨hpossible, hheader⟩ := Prod.mk.injEq .. ▸ heq
  have hreach := Reachable.start.handleAll hs
  refine ⟨s, hreach, fun hcrash => ?_⟩
  obtain ⟨nodeid, hash, txn, queued, partialBlock, hevent, hlookup, hpb, hnull⟩ :=
    (handle_crashes_iff hreach (of_decide_eq_true hpossible)).1.mp hcrash
  cases hevent
  rw [hlookup, map_some, hpb, map_some, hnull] at hheader
  cases hheader

/-- A transaction that does not fit the header leaves the consumed object in
flight, and the next message for the block aborts the node. -/
theorem handle_second_blockTxn_crashes :
    ∃ s, Reachable sampleEncoding s ∧ NetEvent.Possible s (.blockTxn 0 9 []) ∧
      s.handle sampleEncoding (.blockTxn 0 9 []) = .error (.assertion "!header.IsNull()") := by
  have heval : (handleAll sampleEncoding (sampleEvents ++ [.blockTxn 0 9 [txOfHash 4]]) empty).map
      (fun s => (decide (NetEvent.Possible s (.blockTxn 0 9 [])),
        match s.handle sampleEncoding (.blockTxn 0 9 []) with
        | .error crash => some crash
        | .ok _ => none)) =
      some (true, some (.assertion "!header.IsNull()")) := rfl
  obtain ⟨s, hs, heq⟩ := map_eq_some_iff.mp heval
  obtain ⟨hpossible, hcrash⟩ := Prod.mk.injEq .. ▸ heq
  refine ⟨s, Reachable.start.handleAll hs, of_decide_eq_true hpossible, ?_⟩
  split at hcrash
  case h_1 crash hresult =>
    cases hcrash
    exact hresult
  case h_2 => cases hcrash

end NetState

end Verge
