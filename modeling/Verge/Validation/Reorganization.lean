import Verge.Validation.Replay

/-!
# Reorganizations

Blocks connected and disconnected at the tip, in any order.  A block is undone on coins that
need not be the ones it left: what later blocks spent and restored has lost its times.
-/

namespace Verge

open Foundation List WriteLog

variable (consensusParams : ConsensusParams) (secp : Secp256k1)

def disconnectTop (top : CBlock × CBlockUndo) (chain : List (CBlock × CBlockUndo)) :
    CoinsProg DisconnectResult :=
  disconnectBlock top.1 (chain.length + 1) (undoReadFromDisk secp (writeBlockUndo secp top.2))

/-- The active chain, newest block first and each with its undo data, and the coins. -/
inductive Reorganized : List (CBlock × CBlockUndo) → CoinsView → Prop
  | start : Reorganized [] ∅
  | connect {chain view rules block blockUndo view'} (before : Reorganized chain view)
      (height : chain.length + 1 < 2 ^ 31)
      (notGenesis : block.hash ≠ consensusParams.hashGenesisBlock)
      (passed : block.fChecked = true → PassedCheckBlock rules block)
      (bip30 : bip30Checked consensusParams block (chain.length + 1) = false →
        NoOverwrite view block.vtx)
      (accepted : (connectBlock consensusParams rules block (chain.length + 1)).run view =
        .ok (blockUndo, view')) :
      Reorganized ((block, blockUndo) :: chain) view'
  | disconnect {chain view top view'} (before : Reorganized (top :: chain) view)
      (undone : (disconnectTop secp top chain).run view = .ok (.ok, view')) :
      Reorganized chain view'

def chainCoins : List (CBlock × CBlockUndo) → CoinsView
  | [] => ∅
  | (block, _) :: chain =>
    WriteLog.apply (chainCoins chain) (connectLogs (chain.length + 1) block.vtx)

/-- Blocks connected one upon another, each on what the one below left, but for times. -/
inductive ConnectedChain : List (CBlock × CBlockUndo) → CoinsView → Prop
  | nil : ConnectedChain [] ∅
  | cons {chain block blockUndo below spent view view'} (rest : ConnectedChain chain below)
      (restored : RestoredUpTo spent view below) (height : chain.length + 1 < 2 ^ 31)
      (connected : ConnectedBlock consensusParams (chain.length + 1) view block blockUndo view')
      (free : NoOverwrite view block.vtx) : ConnectedChain ((block, blockUndo) :: chain) view'

variable {consensusParams secp} {nHeight : Nat} {block : CBlock} {blockUndo : CBlockUndo}
  {view view' current : CoinsView} {spent : List COutPoint} {chain : List (CBlock × CBlockUndo)}

section

variable (h : RestoredUpTo spent current view)

include h

theorem RestoredUpTo.comp {spent' : List COutPoint} (h' : RestoredUpTo spent' view view') :
    RestoredUpTo (spent ++ spent') current view' := by
  intro o
  rw [h o, h' o]
  by_cases ho : o ∈ spent <;> by_cases ho' : o ∈ spent' <;>
    cases view'.lookup o <;> simp [ho, ho', Coin.dropTime]

theorem RestoredUpTo.wellFormedView (hview : WellFormedView view) : WellFormedView current := by
  intro o coin hcoin
  rw [h o] at hcoin
  split at hcoin
  case isFalse => exact hview o coin hcoin
  case isTrue =>
    obtain ⟨stored, hstored, rfl⟩ := Option.map_eq_some_iff.mp hcoin
    obtain ⟨hrestorable, hheight⟩ := hview o stored hstored
    exact ⟨⟨hrestorable.1, hrestorable.2, hrestorable.3⟩, hheight⟩

theorem ConnectedBlock.restores_current {before : CoinsView}
    (hblock : ConnectedBlock consensusParams nHeight before block blockUndo view)
    (hbip30 : NoOverwrite before block.vtx) :
    UndoCleanly nHeight (blockPairs block.vtx blockUndo.vtxundo) current ∧
      ∃ spent', RestoredUpTo spent' (WriteLog.apply current
        (disconnectLogs nHeight (blockPairs block.vtx blockUndo.vtxundo))) before := by
  obtain ⟨coinbase, rest, fees, hvtx, hfirst, hrest, -⟩ := hblock.connected
  have hcb := hblock.coinbase_first hvtx
  have hfree : OutputsFree nHeight before coinbase := by
    intro o ho
    obtain ⟨i, hi, rfl⟩ := exists_output_of_mem_creations ho
    rw [spentInputs, if_pos hcb]
    exact hbip30 coinbase (hvtx ▸ mem_cons_self) i hi
  obtain ⟨hclean, hback⟩ := hrest.disconnect h
  rw [hvtx, blockPairs_cons hcb]
  constructor
  · exact undoCleanly_append.mpr ⟨hclean, undoesCleanly_of_restored hfirst hback, trivial⟩
  · rw [disconnectLogs_append, apply_append, disconnectLogs_singleton]
    exact ⟨_, hback.disconnect hfirst hfree⟩

end

theorem WellFormedView.connectLogs (hview : WellFormedView view)
    (hheight : 0 < nHeight ∧ nHeight < 2 ^ 31) {txs : List CTransaction}
    (houtputs : ∀ tx ∈ txs, ∀ txout ∈ tx.vout, txout.isNull = false) :
    WellFormedView (WriteLog.apply view (connectLogs nHeight txs)) := by
  induction txs generalizing view with
  | nil => exact hview
  | cons tx txs ih =>
    obtain ⟨htx, htxs⟩ := forall_mem_cons.mp houtputs
    have hrest := ih (hview.connect hheight htx) htxs
    rwa [← apply_append] at hrest

namespace ConnectedChain

variable (h : ConnectedChain consensusParams chain view)

include h

theorem wellFormedView : WellFormedView view := by
  induction h with
  | nil => exact fun o coin hcoin => nomatch hcoin
  | cons rest restored height connected free ih =>
    obtain ⟨heq, houtputs⟩ := connected.eq_apply
    rw [heq]
    exact (restored.wellFormedView ih).connectLogs ⟨connected.height, height⟩ houtputs

theorem sameUpToTime : SameUpToTime view (chainCoins chain) := by
  induction h with
  | nil => exact fun o => rfl
  | cons rest restored height connected free ih =>
    rw [connected.eq_apply.1]
    exact (restored.sameUpToTime.trans ih).apply _

end ConnectedChain

theorem ConnectedChain.disconnect {top : CBlock × CBlockUndo} (secp : Secp256k1)
    (h : ConnectedChain consensusParams (top :: chain) view)
    (hcurrent : RestoredUpTo spent current view) :
    ∃ view', (disconnectTop secp top chain).run current = .ok (.ok, view') ∧
      ∃ below spent', ConnectedChain consensusParams chain below ∧
        RestoredUpTo spent' view' below := by
  cases h with
  | cons rest restored height connected free =>
    have hview := restored.wellFormedView rest.wellFormedView
    obtain ⟨hclean, spent', hback⟩ := connected.restores_current hcurrent free
    obtain ⟨res, hrun, -, hok⟩ := connected.run_disconnectBlock hview height current
    rw [disconnectTop, connected.undo_read hview height secp]
    exact ⟨_, hok hclean ▸ hrun, _, _, rest, hback.comp restored⟩

theorem Reorganized.connectedChain (h : Reorganized consensusParams secp chain view) :
    ∃ below spent, ConnectedChain consensusParams chain below ∧ RestoredUpTo spent view below := by
  induction h with
  | start => exact ⟨∅, [], .nil, fun o => rfl⟩
  | @connect chain view rules block _ view' _ height notGenesis passed bip30 accepted ih =>
    obtain ⟨below, spent, rest, restored⟩ := ih
    have hconnected := (@post_connectBlock False view _ _ _ _ notGenesis passed
      False.elim).of_run accepted
    have hfree : NoOverwrite view block.vtx := by
      cases hchecked : bip30Checked consensusParams block (chain.length + 1) with
      | true => exact hconnected.bip30 hchecked
      | false => exact bip30 hchecked
    exact ⟨view', [], .cons rest restored height hconnected hfree, fun o => rfl⟩
  | disconnect _ undone ih =>
    obtain ⟨below, spent, hchain, hcurrent⟩ := ih
    obtain ⟨view', hrun, hbelow⟩ := hchain.disconnect secp hcurrent
    rw [hrun] at undone
    cases undone
    exact hbelow

/-- Whatever blocks have come and gone, the coins are those of the active chain, but for
times, and its newest block can be disconnected. -/
theorem reorganized_coins (h : Reorganized consensusParams secp chain view) :
    SameUpToTime view (chainCoins chain) ∧
      ∀ top below, chain = top :: below →
        ∃ view', (disconnectTop secp top below).run view = .ok (.ok, view') := by
  obtain ⟨below, spent, hchain, hview⟩ := h.connectedChain
  refine ⟨hview.sameUpToTime.trans hchain.sameUpToTime, ?_⟩
  rintro top rest rfl
  obtain ⟨view', hrun, -⟩ := hchain.disconnect secp hview
  exact ⟨view', hrun⟩

theorem reorganized_coins_rewards :
    SameUpToTime (rewardCoins 31) (chainCoins [(rewardBlock 52 31, ⟨[]⟩)]) := by
  have hfirst : Reorganized sampleParams noCurve [(rewardBlock 51 21, ⟨[]⟩)] (rewardCoins 21) :=
    @Reorganized.connect _ _ _ _ permissiveRules _ _ _ .start (by decide) (by decide) nofun
      nofun rfl
  exact (reorganized_coins (@Reorganized.connect _ _ _ _ permissiveRules _ _ _
    (.disconnect hfirst rfl) (by decide) (by decide) (by nofun) (by nofun) rfl)).1

end Verge
