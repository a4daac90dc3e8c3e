import Verge.Validation.Effects

/-!
# What an accepted block did

The facts that `ConnectBlock` leaves behind when it returns true: the view after
each transaction, the coins each one spent, the fees, and the bound on the
coinbase.  Later results start from these facts and do not look at the code
again.
-/

namespace Verge

open Foundation CoinsProg List

def PassedCheckBlock (rules : BlockRules) (block : CBlock) : Prop :=
  checkBlock rules { block with fChecked := false } = .ok ()

structure CheckedBlock (vtx : List CTransaction) : Prop where
  size : vtx.length * WITNESS_SCALE_FACTOR ≤ MAX_BLOCK_WEIGHT
  coinbase : (vtx.head?).any CTransaction.isCoinBase = true
  others : ∀ tx ∈ vtx.tail, tx.isCoinBase = false
  checked : ∀ tx ∈ vtx, CheckedTx tx

theorem ensures_checkTransactions {strict : Prop} (nBlockTime : Nat)
    (vtx : List CTransaction) :
    Ensures strict (checkTransactions nBlockTime vtx) fun _ => ∀ tx ∈ vtx, CheckedTx tx := by
  induction vtx with
  | nil => exact Ensures.ok (by simp)
  | cons tx vtx ih =>
    refine (ensures_checkTransaction tx).bind fun _ hchecked => ?_
    refine (ensures_ensure (by simp)).bind fun _ _ => ?_
    exact ih.mono fun _ hall => forall_mem_cons.mpr ⟨hchecked, hall⟩

theorem ensures_ensureAccepted {strict : Prop} (answer : Option (Nat × String)) :
    Ensures strict (ensureAccepted answer) fun _ => True := by
  cases answer with
  | none => exact trivial
  | some failure => exact fun _ => by simp

theorem ensures_checkBlock {strict : Prop} (rules : BlockRules) (block : CBlock)
    (hchecked : block.fChecked = true → PassedCheckBlock rules block) :
    Ensures strict (checkBlock rules block) fun _ => CheckedBlock block.vtx := by
  have hfresh : ∀ block : CBlock, block.fChecked = false →
      Ensures strict (checkBlock rules block) fun _ => CheckedBlock block.vtx := by
    intro block hfalse
    unfold checkBlock
    rw [if_neg (by simp [hfalse])]
    refine (ensures_ensureAccepted _).bind fun _ _ => ?_
    refine (ensures_ensure (by simp)).bind fun _ hsize => ?_
    refine (ensures_ensure (by simp)).bind fun _ hcoinbase => ?_
    refine (ensures_ensure (by simp)).bind fun _ hothers => ?_
    refine (ensures_ensure (by simp)).bind fun _ _ => ?_
    refine (ensures_checkTransactions _ _).bind fun _ htxs => ?_
    refine (ensures_ensure (by simp)).bind fun _ _ => ?_
    refine (ensures_ensure (by simp)).mono fun _ _ => ⟨?_, hcoinbase, ?_, htxs⟩
    · simp only [Bool.and_eq_true, decide_eq_true_eq] at hsize
      exact hsize.1.2
    · simpa using hothers
  cases hf : block.fChecked with
  | false => exact hfresh block hf
  | true =>
    unfold checkBlock
    rw [if_pos hf]
    exact (hfresh { block with fChecked := false } rfl).of_eq_ok (hchecked hf)

structure ConnectedTx (nHeight : Nat) (view : CoinsView) (tx : CTransaction)
    (txundo : CTxUndo) : Prop where
  undo : InputCoins view (spentInputs tx) txundo.vprevout
  distinct : ((spentInputs tx).map CTxIn.prevout).Nodup
  outputs : ∀ txout ∈ tx.vout, txout.isNull = false
  free : tx.isCoinBase = false → ∀ o ∈ (creations tx nHeight).map Prod.fst,
    (WriteLog.apply view (spends (spentInputs tx))).lookup o = none

structure SpendingTx (nHeight : Nat) (view : CoinsView) (tx : CTransaction)
    (txfee : Int) : Prop where
  notCoinBase : tx.isCoinBase = false
  checked : CheckedTx tx
  inputs : ∀ txin ∈ tx.vin, ∃ coin, view.lookup txin.prevout = some coin ∧
    GoodInput tx nHeight coin
  fee : 0 ≤ txfee ∧ txfee ≤ MAX_MONEY
  balance : txfee + totalOut tx.vout = view.valueIn tx.vin

inductive ConnectedTxs (nHeight : Nat) :
    CoinsView → List CTransaction → List CTxUndo → Int → CoinsView → Prop
  | nil (view : CoinsView) : ConnectedTxs nHeight view [] [] 0 view
  | cons {view view' : CoinsView} {tx : CTransaction} {rest : List CTransaction}
      {txundo : CTxUndo} {vtxundo : List CTxUndo} {txfee nFees : Int}
      (spending : SpendingTx nHeight view tx txfee)
      (connected : ConnectedTx nHeight view tx txundo)
      (next : ConnectedTxs nHeight (WriteLog.apply view (connectLog tx nHeight)) rest
        vtxundo nFees view') :
      ConnectedTxs nHeight view (tx :: rest) (txundo :: vtxundo) (txfee + nFees) view'

def ValuesInRange (view : CoinsView) : Prop :=
  ∀ o coin, view.lookup o = some coin → moneyRange coin.out.nValue = true

theorem ValuesInRange.connect {view : CoinsView} (h : ValuesInRange view)
    {tx : CTransaction} (htx : CheckedTx tx) (nHeight : Nat) :
    ValuesInRange (WriteLog.apply view (connectLog tx nHeight)) := by
  intro o coin hlookup
  rcases lookup_connectLog hlookup with hold | ⟨txout, hout, -, rfl⟩
  · exact h o coin hold
  · exact htx.values txout hout

section Loop

variable {strict : Prop} {rules : BlockRules} {nHeight : Nat} {view : CoinsView}

theorem post_accessInputs {vin : List CTxIn} :
    Post strict (accessInputs vin) view fun _ view' => view' = view := by
  induction vin with
  | nil => exact Post.pure rfl
  | cons txin vin ih =>
    refine post_accessCoin.bind fun _ view' h => ?_
    obtain ⟨-, rfl⟩ := h
    refine ih.bind fun _ view'' h => ?_
    exact Post.pure h

variable {tx : CTransaction} {nFees : Int} {nSigOpsCost : Nat}
  (hfees : 0 ≤ nFees ∧ nFees ≤ MAX_MONEY) (hview : strict → ValuesInRange view)

include hfees hview

theorem post_checkFees (htx : CheckedTx tx) :
    Post strict (checkFees rules nHeight tx nFees) view fun nFees' view' =>
      view' = view ∧ (0 ≤ nFees' ∧ nFees' ≤ MAX_MONEY) ∧
        (tx.isCoinBase = true → nFees' = nFees) ∧
        (tx.isCoinBase = false → ∃ txfee, nFees' = nFees + txfee ∧
          SpendingTx nHeight view tx txfee) := by
  unfold checkFees
  cases hcb : tx.isCoinBase with
  | true => exact Post.pure ⟨rfl, hfees, fun _ => rfl, by simp⟩
  | false =>
    refine (post_checkTxInputs htx hview).bind fun txfee view' h => ?_
    obtain ⟨rfl, hfee, hbalance, hinputs⟩ := h
    refine (post_ofExcept (ensures_addInt64 fun _ => inInt64_add hfees hfee)).bind
      fun sum view' h => ?_
    obtain ⟨rfl, rfl⟩ := h
    refine (post_require (by simp)).bind fun _ view' h => ?_
    obtain ⟨hrange, rfl⟩ := h
    refine post_accessInputs.bind fun coins view' h => ?_
    subst h
    refine (post_require (by simp)).bind fun _ view' h => ?_
    obtain ⟨-, rfl⟩ := h
    exact Post.pure ⟨rfl, (moneyRange_iff _).mp hrange, by simp,
      fun _ => ⟨txfee, rfl, hcb, htx, hinputs, hfee, hbalance⟩⟩

theorem post_checkTx (htx : CheckedTx tx) :
    Post strict (checkTx rules nHeight tx nFees nSigOpsCost) view fun r view' =>
      view' = view ∧ (0 ≤ r.1 ∧ r.1 ≤ MAX_MONEY) ∧
        (tx.isCoinBase = true → r.1 = nFees) ∧
        (tx.isCoinBase = false → ∃ txfee, r.1 = nFees + txfee ∧
          SpendingTx nHeight view tx txfee) := by
  refine (post_checkFees hfees hview htx).bind fun nFees' view' h => ?_
  obtain ⟨rfl, hspec⟩ := h
  refine post_accessInputs.bind fun coins view' h => ?_
  subst h
  refine (post_require (by simp)).bind fun _ view' h => ?_
  obtain ⟨-, rfl⟩ := h
  have hscripts : Ensures strict (checkScripts rules tx coins) fun _ => True := by
    unfold checkScripts
    split
    · exact trivial
    · exact ensures_ensureAccepted _
  refine (post_ofExcept hscripts).bind fun _ view' h => ?_
  obtain ⟨-, rfl⟩ := h
  exact Post.pure ⟨rfl, hspec⟩

theorem post_connectTxs {txs : List CTransaction} (hchecked : ∀ tx ∈ txs, CheckedTx tx)
    (hcb : ∀ tx ∈ txs, tx.isCoinBase = false) {i : Nat} (hi : 0 < i) :
    Post strict (connectTxs rules nHeight i txs nFees nSigOpsCost) view fun r view' =>
      (0 ≤ r.2 ∧ r.2 ≤ MAX_MONEY) ∧
        ∃ fees, r.2 = nFees + fees ∧ ConnectedTxs nHeight view txs r.1 fees view' := by
  induction txs generalizing i nFees nSigOpsCost view with
  | nil => exact Post.pure ⟨hfees, 0, by simp, .nil view⟩
  | cons tx txs ih =>
    have htx := hchecked tx mem_cons_self
    have hcbtx := hcb tx mem_cons_self
    refine (post_checkTx hfees hview htx).bind fun r view' h => ?_
    obtain ⟨rfl, hrange, -, hspend⟩ := h
    obtain ⟨txfee, hr, hspending⟩ := hspend hcbtx
    refine post_updateCoins.bind fun txundo mid h => ?_
    obtain ⟨rfl, hundo, hdistinct, houtputs, hfree⟩ := h
    refine (ih hrange (fun hs => (hview hs).connect htx nHeight)
      (fun t ht => hchecked t (mem_cons_of_mem _ ht))
      (fun t ht => hcb t (mem_cons_of_mem _ ht)) (Nat.succ_pos i)).bind fun r' view'' h => ?_
    obtain ⟨hrange', fees, hr', hnext⟩ := h
    refine Post.pure ⟨hrange', txfee + fees, ?_, ?_⟩
    · rw [hr', hr, Int.add_assoc]
    · rw [if_pos hi]
      exact .cons hspending ⟨hundo, hdistinct, houtputs, hfree⟩ hnext

end Loop

def NoOverwrite (view : CoinsView) (vtx : List CTransaction) : Prop :=
  ∀ tx ∈ vtx, ∀ i, i < tx.vout.length → view.lookup (tx.outpoint i) = none

structure ConnectedBlock (consensusParams : ConsensusParams) (nHeight : Nat)
    (view : CoinsView) (block : CBlock) (blockUndo : CBlockUndo)
    (view' : CoinsView) : Prop where
  height : 0 < nHeight
  checked : CheckedBlock block.vtx
  bip30 : bip30Checked consensusParams block nHeight = true → NoOverwrite view block.vtx
  connected : ∃ coinbase rest nFees, block.vtx = coinbase :: rest ∧
    ConnectedTx nHeight view coinbase ⟨[]⟩ ∧
    ConnectedTxs nHeight (WriteLog.apply view (connectLog coinbase nHeight)) rest
      blockUndo.vtxundo nFees view' ∧
    (0 ≤ nFees ∧ nFees ≤ MAX_MONEY) ∧
    totalOut coinbase.vout ≤ nFees + getBlockSubsidy nHeight consensusParams

theorem getBlockSubsidy_range {nHeight : Int} {consensusParams : ConsensusParams} :
    0 ≤ getBlockSubsidy nHeight consensusParams ∧
      getBlockSubsidy nHeight consensusParams ≤ 200000 * COIN := by
  have hshift : ∀ k : Nat, (0 : Int) ≤ (400 * COIN) >>> k ∧
      (400 * COIN) >>> k ≤ 200000 * COIN := by
    intro k
    rw [Int.shiftRight_eq_div_pow]
    have hpos : (0 : Int) ≤ 400 * COIN := by decide
    refine ⟨Int.ediv_nonneg hpos (Int.natCast_nonneg _), ?_⟩
    have hmax : 400 * COIN ≤ 200000 * COIN := by decide
    exact Int.le_trans (Int.ediv_le_self _ hpos) hmax
  have hite : ∀ {c : Prop} [Decidable c] {a b : Int}, 0 ≤ a ∧ a ≤ 200000 * COIN →
      0 ≤ b ∧ b ≤ 200000 * COIN →
      0 ≤ (if c then a else b) ∧ (if c then a else b) ≤ 200000 * COIN := by
    intro c _ a b ha hb
    split
    · exact ha
    · exact hb
  unfold getBlockSubsidy
  iterate 9 refine hite (by decide) ?_
  exact hite (hshift _) (by decide)

section Block

variable {strict : Prop} {view : CoinsView}

theorem post_checkNotOverwriting {tx : CTransaction} {o : Nat} {vout : List CTxOut} :
    Post strict (checkNotOverwriting tx o vout) view fun _ view' => view' = view ∧
      ∀ i, i < vout.length → view.lookup (tx.outpoint (o + i)) = none := by
  induction vout generalizing o with
  | nil => exact Post.pure ⟨rfl, by simp⟩
  | cons txout vout ih =>
    refine post_haveCoin.bind fun present view' h => ?_
    obtain ⟨hpresent, rfl⟩ := h
    refine (post_require (by simp)).bind fun _ view' h => ?_
    obtain ⟨habsent, rfl⟩ := h
    refine ih.mono fun _ view' h => ⟨h.1, fun i hi => ?_⟩
    cases i with
    | zero => simpa [hpresent] using habsent
    | succ i =>
      rw [← Nat.add_assoc, Nat.add_right_comm]
      exact h.2 i (Nat.lt_of_succ_lt_succ hi)

theorem post_checkBIP30 {vtx : List CTransaction} :
    Post strict (checkBIP30 vtx) view fun _ view' =>
      view' = view ∧ NoOverwrite view vtx := by
  induction vtx with
  | nil => exact Post.pure ⟨rfl, by simp [NoOverwrite]⟩
  | cons tx vtx ih =>
    refine post_checkNotOverwriting.bind fun _ view' h => ?_
    obtain ⟨rfl, htx⟩ := h
    refine ih.mono fun _ view'' h => ⟨h.1, fun t ht => ?_⟩
    rcases mem_cons.mp ht with rfl | ht
    · intro i hi
      rw [← Nat.zero_add i]
      exact htx i hi
    · exact h.2 t ht

theorem post_checkOverwrites {consensusParams : ConsensusParams} {block : CBlock}
    {nHeight : Nat} :
    Post strict (checkOverwrites consensusParams block nHeight) view fun _ view' =>
      view' = view ∧
        (bip30Checked consensusParams block nHeight = true → NoOverwrite view block.vtx) := by
  unfold checkOverwrites
  split
  case isTrue => exact post_checkBIP30.mono fun _ _ h => ⟨h.1, fun _ => h.2⟩
  case isFalse hunchecked => exact Post.pure ⟨rfl, fun h => absurd h hunchecked⟩

theorem post_connectBlock {consensusParams : ConsensusParams} {rules : BlockRules}
    {block : CBlock} {nHeight : Nat} (hgenesis : block.hash ≠ consensusParams.hashGenesisBlock)
    (hpassed : block.fChecked = true → PassedCheckBlock rules block)
    (hview : strict → ValuesInRange view) :
    Post strict (connectBlock consensusParams rules block nHeight) view
      fun blockUndo view' =>
        ConnectedBlock consensusParams nHeight view block blockUndo view' := by
  refine (post_ofExcept (ensures_checkBlock rules block hpassed)).bind fun _ view' h => ?_
  obtain ⟨hblock, rfl⟩ := h
  rw [if_neg hgenesis]
  refine (post_require (by simp)).bind fun _ view' h => ?_
  obtain ⟨hheight, rfl⟩ := h
  refine post_checkOverwrites.bind fun _ view' h => ?_
  obtain ⟨rfl, hbip30⟩ := h
  obtain ⟨coinbase, rest, hvtx⟩ : ∃ coinbase rest, block.vtx = coinbase :: rest := by
    cases hv : block.vtx with
    | nil => simpa [hv] using hblock.coinbase
    | cons coinbase rest => exact ⟨coinbase, rest, rfl⟩
  have hcb : coinbase.isCoinBase = true := by simpa [hvtx] using hblock.coinbase
  have hchecked : ∀ tx ∈ coinbase :: rest, CheckedTx tx := hvtx ▸ hblock.checked
  have hothers : ∀ tx ∈ rest, tx.isCoinBase = false := by
    have := hblock.others
    rwa [hvtx] at this
  have hcbTx := hchecked coinbase mem_cons_self
  have hloop : Post strict (connectTxs rules nHeight 0 block.vtx 0 0) view'
      fun r view'' => (0 ≤ r.2 ∧ r.2 ≤ MAX_MONEY) ∧ ConnectedTx nHeight view' coinbase ⟨[]⟩ ∧
        ConnectedTxs nHeight (WriteLog.apply view' (connectLog coinbase nHeight)) rest
          r.1 r.2 view'' := by
    rw [hvtx]
    refine (post_checkTx ⟨Int.le_refl 0, by decide⟩ hview hcbTx).bind fun r mid h => ?_
    obtain ⟨rfl, hrange, hzero, -⟩ := h
    have hr : r.1 = 0 := hzero hcb
    refine post_updateCoins.bind fun txundo mid h => ?_
    obtain ⟨rfl, hundo, hdistinct, houtputs, hfree⟩ := h
    refine (post_connectTxs hrange (fun hs => (hview hs).connect hcbTx nHeight)
      (fun t ht => hchecked t (mem_cons_of_mem _ ht)) hothers (Nat.succ_pos 0)).bind
      fun r' view'' h => ?_
    obtain ⟨hrange', fees, hr', hnext⟩ := h
    have hspent : spentInputs coinbase = [] := if_pos hcb
    refine Post.pure ⟨hrange', ⟨?_, hdistinct, houtputs, hfree⟩, ?_⟩
    · rw [hspent]
      rfl
    · rw [hr', hr, Int.zero_add]
      exact hnext
  refine hloop.bind fun r view'' h => ?_
  obtain ⟨hfees, hfirst, hrest⟩ := h
  have hsub := @getBlockSubsidy_range nHeight consensusParams
  have hsum : inInt64 (r.2 + getBlockSubsidy nHeight consensusParams) := by
    rw [MAX_MONEY_eq] at hfees
    unfold inInt64
    have hcoin : 200000 * COIN = 200000000000 := rfl
    omega
  refine (post_ofExcept (ensures_addInt64 fun _ => hsum)).bind fun reward view3 h => ?_
  obtain ⟨rfl, rfl⟩ := h
  rw [hvtx]
  refine (post_ofExcept (ensures_getValueOut hcbTx)).bind fun valueOut view3 h => ?_
  obtain ⟨rfl, rfl⟩ := h
  refine (post_require (by simp)).bind fun _ view3 h => ?_
  obtain ⟨hpay, rfl⟩ := h
  refine (post_require (by simp)).bind fun _ view3 h => ?_
  obtain ⟨-, rfl⟩ := h
  exact Post.pure ⟨of_decide_eq_true hheight, hblock, hbip30, coinbase, rest, r.2, hvtx, hfirst,
    hrest, hfees, of_decide_eq_true hpay⟩

end Block

end Verge
