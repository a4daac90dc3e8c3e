import Verge.Foundation.WriteLog
import Verge.Validation.ConnectBlock

/-!
# What connecting and disconnecting a transaction write

Both act on the view as logs of blind writes: the keys and values written depend
on the transaction and its undo data only.  The second half relates the two
logs, outpoint by outpoint.
-/

namespace Verge

open Foundation CoinsProg List WriteLog

abbrev CoinsLog := WriteLog COutPoint Coin

def createdCoin (tx : CTransaction) (nHeight : Nat) (txout : CTxOut) : Coin :=
  ⟨txout, tx.isCoinBase, nHeight, tx.nTime⟩

def creationsFrom (tx : CTransaction) (nHeight : Nat) : Nat → List CTxOut → CoinsLog
  | _, [] => []
  | i, txout :: rest =>
    if isUnspendable txout.scriptPubKey then creationsFrom tx nHeight (i + 1) rest
    else (tx.outpoint i, some (createdCoin tx nHeight txout)) ::
      creationsFrom tx nHeight (i + 1) rest

def creations (tx : CTransaction) (nHeight : Nat) : CoinsLog :=
  creationsFrom tx nHeight 0 tx.vout

def erasures (log : CoinsLog) : CoinsLog := log.map fun w => (w.1, none)

def spends (vin : List CTxIn) : CoinsLog := vin.map fun txin => (txin.prevout, none)

def connectLog (tx : CTransaction) (nHeight : Nat) : CoinsLog :=
  spends (spentInputs tx) ++ creations tx nHeight

def restores (vin : List CTxIn) (vprevout : List Coin) : CoinsLog :=
  (vin.zip vprevout).map fun p => (p.1.prevout, some p.2)

def disconnectLog (tx : CTransaction) (nHeight : Nat) (txundo : Option CTxUndo) : CoinsLog :=
  erasures (creations tx nHeight) ++
    match txundo with
    | none => []
    | some txundo => (restores tx.vin txundo.vprevout).reverse

@[simp] theorem map_fst_erasures (log : CoinsLog) :
    (erasures log).map Prod.fst = log.map Prod.fst := by
  simp [erasures, Function.comp_def]

@[simp] theorem map_fst_spends (vin : List CTxIn) :
    (spends vin).map Prod.fst = vin.map CTxIn.prevout := by
  simp [spends, Function.comp_def]

variable {tx : CTransaction} {nHeight i : Nat} {o : COutPoint} {vin : List CTxIn}
  {vout : List CTxOut} {view : CoinsView}

theorem map_fst_restores {vprevout : List Coin} (h : vprevout.length = vin.length) :
    (restores vin vprevout).map Prod.fst = vin.map CTxIn.prevout := by
  have hzip : (vin.zip vprevout).map Prod.fst = vin := map_fst_zip (by omega)
  conv_rhs => rw [← hzip]
  simp [restores, Function.comp_def]

theorem index_le_of_mem_creationsFrom (h : o ∈ (creationsFrom tx nHeight i vout).map Prod.fst) :
    i ≤ o.n := by
  induction vout generalizing i with
  | nil => simp [creationsFrom] at h
  | cons txout vout ih =>
    rw [creationsFrom] at h
    split at h
    · exact Nat.le_of_succ_le (ih h)
    · rw [map_cons, mem_cons] at h
      rcases h with rfl | h
      · exact le_refl _
      · exact Nat.le_of_succ_le (ih h)

theorem outpoint_notMem_creationsFrom (tx : CTransaction) (nHeight i : Nat)
    (vout : List CTxOut) :
    tx.outpoint i ∉ (creationsFrom tx nHeight (i + 1) vout).map Prod.fst := by
  intro h
  exact Nat.not_succ_le_self i (index_le_of_mem_creationsFrom h)

theorem nodup_creationsFrom (tx : CTransaction) (nHeight i : Nat) (vout : List CTxOut) :
    ((creationsFrom tx nHeight i vout).map Prod.fst).Nodup := by
  induction vout generalizing i with
  | nil => simp [creationsFrom]
  | cons txout vout ih =>
    rw [creationsFrom]
    split
    · exact ih (i + 1)
    · rw [map_cons, nodup_cons]
      exact ⟨outpoint_notMem_creationsFrom tx nHeight i vout, ih (i + 1)⟩

theorem mem_creationsFrom {w : Option Coin} (h : (o, w) ∈ creationsFrom tx nHeight i vout) :
    ∃ txout ∈ vout, isUnspendable txout.scriptPubKey = false ∧
      w = some (createdCoin tx nHeight txout) := by
  induction vout generalizing i with
  | nil => simp [creationsFrom] at h
  | cons txout vout ih =>
    rw [creationsFrom] at h
    split at h
    case isTrue =>
      obtain ⟨t, ht, hspend, hw⟩ := ih h
      exact ⟨t, mem_cons_of_mem _ ht, hspend, hw⟩
    case isFalse hspend =>
      rcases mem_cons.mp h with h | h
      · exact ⟨txout, mem_cons_self, by simpa using hspend, (Prod.mk.inj h).2⟩
      · obtain ⟨t, ht, hspend, hw⟩ := ih h
        exact ⟨t, mem_cons_of_mem _ ht, hspend, hw⟩

theorem lookup_connectLog {coin : Coin}
    (h : (WriteLog.apply view (connectLog tx nHeight)).lookup o = some coin) :
    view.lookup o = some coin ∨ ∃ txout ∈ tx.vout, isUnspendable txout.scriptPubKey = false ∧
      coin = createdCoin tx nHeight txout := by
  rw [lookup_apply] at h
  cases hlast : WriteLog.last (connectLog tx nHeight) o with
  | none =>
    rw [hlast] at h
    exact .inl h
  | some w =>
    rw [hlast] at h
    simp only [Option.getD_some] at h
    subst h
    rcases mem_append.mp (mem_of_last hlast) with hmem | hmem
    · obtain ⟨txin, -, heq⟩ := mem_map.mp hmem
      cases (Prod.mk.inj heq).2
    · obtain ⟨txout, hout, hspend, heq⟩ := mem_creationsFrom hmem
      exact .inr ⟨txout, hout, hspend, Option.some.inj heq⟩

theorem exists_output_of_mem_creations (h : o ∈ (creations tx nHeight).map Prod.fst) :
    ∃ i, i < tx.vout.length ∧ o = tx.outpoint i := by
  have hloop : ∀ (vout : List CTxOut) (i : Nat),
      o ∈ (creationsFrom tx nHeight i vout).map Prod.fst →
        ∃ j, j < vout.length ∧ o = tx.outpoint (i + j) := by
    intro vout
    induction vout with
    | nil => simp [creationsFrom]
    | cons txout vout ih =>
      intro i hi
      have hrec : o ∈ (creationsFrom tx nHeight (i + 1) vout).map Prod.fst →
          ∃ j, j < (txout :: vout).length ∧ o = tx.outpoint (i + j) := by
        intro hmem
        obtain ⟨j, hj, rfl⟩ := ih (i + 1) hmem
        exact ⟨j + 1, by simpa using hj, by rw [Nat.add_assoc, Nat.add_comm 1 j]⟩
      rw [creationsFrom] at hi
      split at hi
      · exact hrec hi
      · rw [map_cons, mem_cons] at hi
        rcases hi with rfl | hi
        · exact ⟨0, by simp, rfl⟩
        · exact hrec hi
  obtain ⟨i, hi, rfl⟩ := hloop tx.vout 0 h
  exact ⟨i, hi, by rw [Nat.zero_add]⟩

section Update

variable {strict : Prop}

def InputCoins (view : CoinsView) (vin : List CTxIn) (coins : List Coin) : Prop :=
  vin.map (fun txin => view.lookup txin.prevout) = coins.map some

theorem InputCoins.length_eq {coins : List Coin} (h : InputCoins view vin coins) :
    coins.length = vin.length := by
  have hlen := congrArg List.length h
  simpa using hlen.symm

theorem InputCoins.exists_coin {coins : List Coin} (h : InputCoins view vin coins) {txin : CTxIn}
    (ht : txin ∈ vin) : ∃ coin ∈ coins, view.lookup txin.prevout = some coin := by
  have hmem : view.lookup txin.prevout ∈ coins.map some := by
    rw [← h]
    exact mem_map_of_mem (f := fun txin => view.lookup txin.prevout) ht
  obtain ⟨coin, hcoin, heq⟩ := mem_map.mp hmem
  exact ⟨coin, hcoin, heq.symm⟩

theorem post_spendInputs :
    Post strict (spendInputs vin) view fun coins view' =>
      view' = WriteLog.apply view (spends vin) ∧ InputCoins view vin coins ∧
        (vin.map CTxIn.prevout).Nodup := by
  induction vin generalizing view with
  | nil => exact Post.pure ⟨rfl, rfl, nodup_nil⟩
  | cons txin vin ih =>
    refine post_spendCoin.bind fun found view' h => ?_
    obtain ⟨hfound, rfl⟩ := h
    cases found with
    | none => exact post_fail (by simp)
    | some coin =>
      refine ih.bind fun coins view' h => ?_
      obtain ⟨rfl, hcoins, hnodup⟩ := h
      have hother : ∀ t ∈ vin, t.prevout ≠ txin.prevout := by
        intro t ht heq
        obtain ⟨c, -, hc⟩ := hcoins.exists_coin ht
        rw [heq, AList.lookup_erase] at hc
        cases hc
      refine Post.pure ⟨rfl, ?_, ?_⟩
      · rw [InputCoins, map_cons, map_cons, ← hfound, ← hcoins]
        congr 1
        refine map_congr_left fun t ht => ?_
        rw [AList.lookup_erase_ne (hother t ht)]
      · refine nodup_cons.mpr ⟨fun hmem => ?_, hnodup⟩
        obtain ⟨t, ht, heq⟩ := mem_map.mp hmem
        exact hother t ht heq

theorem post_addCoinsFrom :
    Post strict (addCoinsFrom tx nHeight false i vout) view fun _ view' =>
      view' = WriteLog.apply view (creationsFrom tx nHeight i vout) ∧
        (∀ txout ∈ vout, txout.isNull = false) ∧
        (tx.isCoinBase = false →
          ∀ o ∈ (creationsFrom tx nHeight i vout).map Prod.fst, view.lookup o = none) := by
  induction vout generalizing i view with
  | nil => exact Post.pure ⟨rfl, by simp, by simp [creationsFrom]⟩
  | cons txout vout ih =>
    refine (Post.pure (Q := fun b v => b = tx.isCoinBase ∧ v = view) ⟨rfl, rfl⟩).bind
      fun overwrite view' h => ?_
    obtain ⟨rfl, rfl⟩ := h
    refine post_addCoin.bind fun _ mid h => ?_
    obtain ⟨hnull, hadd⟩ := h
    have hhead : txout.isNull = false := hnull
    refine ih.mono fun _ view'' h => ?_
    obtain ⟨rfl, hrest, habsent⟩ := h
    have hnulls : ∀ t ∈ txout :: vout, t.isNull = false := forall_mem_cons.mpr ⟨hhead, hrest⟩
    rw [creationsFrom]
    cases hspend : isUnspendable txout.scriptPubKey with
    | true =>
      simp only [hspend, if_true] at hadd ⊢
      subst hadd
      exact ⟨rfl, hnulls, habsent⟩
    | false =>
      simp only [hspend, Bool.false_eq_true, if_false] at hadd ⊢
      obtain ⟨rfl, hfree⟩ := hadd
      refine ⟨rfl, hnulls, fun hcb o ho => ?_⟩
      rw [map_cons, mem_cons] at ho
      rcases ho with rfl | ho
      · exact hfree hcb
      · have hne : o ≠ tx.outpoint i := by
          rintro rfl
          exact outpoint_notMem_creationsFrom tx nHeight i vout ho
        rw [← habsent hcb o ho, AList.lookup_insert_ne hne]

theorem post_updateCoins :
    Post strict (updateCoins tx nHeight) view fun txundo view' =>
      view' = WriteLog.apply view (connectLog tx nHeight) ∧
        InputCoins view (spentInputs tx) txundo.vprevout ∧
        ((spentInputs tx).map CTxIn.prevout).Nodup ∧
        (∀ txout ∈ tx.vout, txout.isNull = false) ∧
        (tx.isCoinBase = false → ∀ o ∈ (creations tx nHeight).map Prod.fst,
          (WriteLog.apply view (spends (spentInputs tx))).lookup o = none) := by
  refine post_spendInputs.bind fun coins mid h => ?_
  obtain ⟨rfl, hcoins, hnodup⟩ := h
  refine post_addCoinsFrom.bind fun _ view' h => ?_
  obtain ⟨rfl, hnulls, hfree⟩ := h
  refine Post.pure ⟨?_, hcoins, hnodup, hnulls, hfree⟩
  rw [connectLog, apply_append]
  rfl

end Update

/-- A record that is restored as it stands: it names its height, and it is an
unspent output that the view keeps. -/
structure Coin.Restorable (coin : Coin) : Prop where
  unspent : coin.isSpent = false
  spendable : isUnspendable coin.out.scriptPubKey = false
  height : 0 < coin.nHeight

theorem run_applyTxInUndo {undo : Coin} (h : undo.Restorable) (out : COutPoint)
    (view : CoinsView) :
    (applyTxInUndo undo out).run view =
      .ok (if view.haveCoin out then .unclean else .ok, view.insert out undo) := by
  have hmeta : restoreMetadata undo out = Pure.pure (some undo) :=
    if_neg (Nat.ne_of_gt h.height)
  have hadd : view.addCoin out undo (view.haveCoin out) = .ok (view.insert out undo) := by
    simp [CoinsView.addCoin, h.unspent, h.spendable]
  have hrun : (addCoin out undo (view.haveCoin out)).run view =
      .ok ((), view.insert out undo) := by
    rw [run_addCoin, hadd]
    rfl
  unfold applyTxInUndo
  rw [run_bind_of_ok (run_haveCoin out view), hmeta, run_bind_of_ok (run_pure _ view)]
  exact run_bind_of_ok hrun

private theorem run_disconnectOutput (tx : CTransaction) (nHeight o : Nat) (txout : CTxOut)
    (view : CoinsView) (hspend : isUnspendable txout.scriptPubKey = false) :
    ∃ clean, (disconnectOutput tx nHeight o txout).run view =
        .ok (clean, view.erase (tx.outpoint o)) ∧
      ((view.lookup (tx.outpoint o)).map Coin.dropTime =
        some (createdCoin tx nHeight txout).dropTime → clean = true) := by
  simp only [disconnectOutput, hspend, Bool.false_eq_true, if_false]
  rw [run_bind_of_ok (run_spendCoin (tx.outpoint o) view)]
  cases view.lookup (tx.outpoint o) with
  | none => exact ⟨false, rfl, by simp⟩
  | some coin =>
    refine ⟨_, rfl, fun h => ?_⟩
    simp only [Option.map_some, Option.some.injEq, Coin.dropTime, createdCoin,
      Coin.mk.injEq] at h
    simp [h.1, h.2.1, h.2.2.1]

theorem run_disconnectOutputs (tx : CTransaction) (nHeight i : Nat) (vout : List CTxOut)
    (view : CoinsView) :
    ∃ clean, (disconnectOutputs tx nHeight i vout).run view =
        .ok (clean, WriteLog.apply view (erasures (creationsFrom tx nHeight i vout))) ∧
      ((∀ o coin, (o, some coin) ∈ creationsFrom tx nHeight i vout →
        (view.lookup o).map Coin.dropTime = some coin.dropTime) → clean = true) := by
  induction vout generalizing i view with
  | nil => exact ⟨true, rfl, fun _ => rfl⟩
  | cons txout vout ih =>
    rw [creationsFrom]
    cases hspend : isUnspendable txout.scriptPubKey with
    | true =>
      obtain ⟨clean, hrun, hclean⟩ := ih (i + 1) view
      have hskip : (disconnectOutput tx nHeight i txout).run view = .ok (true, view) := by
        simp [disconnectOutput, hspend]
      refine ⟨clean, ?_, by simpa using hclean⟩
      rw [disconnectOutputs, run_bind_of_ok hskip, run_bind_of_ok hrun]
      rfl
    | false =>
      obtain ⟨clean₁, hrun₁, hclean₁⟩ :=
        run_disconnectOutput tx nHeight i txout view hspend
      obtain ⟨clean₂, hrun₂, hclean₂⟩ := ih (i + 1) (view.erase (tx.outpoint i))
      simp only [Bool.false_eq_true, if_false]
      refine ⟨clean₁ && clean₂, ?_, fun h => ?_⟩
      · rw [disconnectOutputs, run_bind_of_ok hrun₁, run_bind_of_ok hrun₂]
        rfl
      · rw [hclean₁ (h _ _ mem_cons_self), hclean₂, Bool.and_self]
        intro o coin hmem
        have hne : o ≠ tx.outpoint i := by
          rintro rfl
          exact outpoint_notMem_creationsFrom tx nHeight i vout
            (mem_map_of_mem (f := Prod.fst) hmem)
        rw [AList.lookup_erase_ne hne]
        exact h o coin (mem_cons_of_mem _ hmem)

theorem run_restoreInputs (pairs : List (CTxIn × Coin)) (view : CoinsView)
    (hcoins : ∀ p ∈ pairs, p.2.Restorable) :
    ∃ res, (restoreInputs pairs).run view =
        .ok (res, WriteLog.apply view (pairs.map fun p => (p.1.prevout, some p.2))) ∧
      res ≠ .failed ∧
      ((pairs.map fun p => p.1.prevout).Nodup →
        (∀ p ∈ pairs, view.lookup p.1.prevout = none) → res = .ok) := by
  induction pairs generalizing view with
  | nil => exact ⟨.ok, rfl, by simp, fun _ _ => rfl⟩
  | cons p pairs ih =>
    obtain ⟨txin, undo⟩ := p
    obtain ⟨res, hrun, hne, hclean⟩ := ih (view.insert txin.prevout undo)
      fun q hq => hcoins q (mem_cons_of_mem _ hq)
    have happly := run_applyTxInUndo (hcoins _ mem_cons_self) txin.prevout view
    have hokRest : ((txin, undo) :: pairs |>.map fun p => p.1.prevout).Nodup →
        (∀ p ∈ (txin, undo) :: pairs, view.lookup p.1.prevout = none) → res = .ok := by
      intro hnodup habsent
      rw [map_cons, nodup_cons] at hnodup
      refine hclean hnodup.2 fun q hq => ?_
      have hqne : q.1.prevout ≠ txin.prevout := by
        intro heq
        exact hnodup.1 (heq ▸ mem_map_of_mem (f := fun p => p.1.prevout) hq)
      rw [AList.lookup_insert_ne hqne]
      exact habsent q (mem_cons_of_mem _ hq)
    cases hhave : view.haveCoin txin.prevout with
    | true =>
      rw [hhave, if_pos rfl] at happly
      refine ⟨.unclean, ?_, by simp, fun _ habsent => ?_⟩
      · rw [restoreInputs, run_bind_of_ok happly, run_bind_of_ok hrun]
        cases res with
        | failed => exact absurd rfl hne
        | ok => rfl
        | unclean => rfl
      · have hnone := habsent _ mem_cons_self
        simp [CoinsView.haveCoin, hnone] at hhave
    | false =>
      rw [hhave, if_neg (by simp)] at happly
      refine ⟨res, ?_, hne, hokRest⟩
      rw [restoreInputs, run_bind_of_ok happly, run_bind_of_ok hrun]
      cases res with
      | failed => exact absurd rfl hne
      | ok => rfl
      | unclean => rfl

def UndoFits (tx : CTransaction) : Option CTxUndo → Prop
  | none => True
  | some txundo => txundo.vprevout.length = tx.vin.length ∧
      ∀ coin ∈ txundo.vprevout, coin.Restorable

/-- The view holds what the transaction created, up to the time, and nothing
else at the inputs that its undo data restores. -/
structure UndoesCleanly (tx : CTransaction) (nHeight : Nat) (txundo : Option CTxUndo)
    (view : CoinsView) : Prop where
  outputs : ∀ o coin, (o, some coin) ∈ creations tx nHeight →
    (view.lookup o).map Coin.dropTime = some coin.dropTime
  distinct : txundo.isSome → (tx.vin.map CTxIn.prevout).Nodup
  inputs : txundo.isSome → ∀ txin ∈ tx.vin,
    (WriteLog.apply view (erasures (creations tx nHeight))).lookup txin.prevout = none

theorem run_disconnectTx {txundo : Option CTxUndo} (hfits : UndoFits tx txundo) (view : CoinsView) :
    ∃ res, (disconnectTx nHeight tx txundo).run view =
        .ok (res, WriteLog.apply view (disconnectLog tx nHeight txundo)) ∧
      res ≠ .failed ∧ (UndoesCleanly tx nHeight txundo view → res = .ok) := by
  obtain ⟨clean, hrun, hclean⟩ := run_disconnectOutputs tx nHeight 0 tx.vout view
  unfold disconnectTx
  rw [run_bind_of_ok hrun]
  cases txundo with
  | none =>
    refine ⟨if clean then .ok else .unclean, ?_, ?_, fun h => ?_⟩
    · simp only [disconnectLog, append_nil]
      rfl
    · cases clean <;> simp
    · rw [hclean h.outputs, if_pos rfl]
  | some txundo =>
    obtain ⟨hlen, hcoins⟩ := hfits
    set mid := WriteLog.apply view (erasures (creationsFrom tx nHeight 0 tx.vout)) with hmid
    obtain ⟨res, hrun', hne, hok⟩ := run_restoreInputs
      (tx.vin.zip txundo.vprevout).reverse mid fun p hp =>
        hcoins p.2 (of_mem_zip (mem_reverse.mp hp)).2
    have hlog : WriteLog.apply view (disconnectLog tx nHeight (some txundo)) =
        WriteLog.apply mid ((tx.vin.zip txundo.vprevout).reverse.map
          fun p => (p.1.prevout, some p.2)) := by
      rw [disconnectLog, apply_append, map_reverse]
      rfl
    have hsize : ¬txundo.vprevout.length ≠ tx.vin.length := by simpa using hlen
    dsimp only
    rw [hlog, if_neg hsize, run_bind_of_ok hrun']
    have hfst : (tx.vin.zip txundo.vprevout).map Prod.fst = tx.vin :=
      map_fst_zip (by omega)
    have hkeys : ((tx.vin.zip txundo.vprevout).reverse.map fun p => p.1.prevout) =
        (tx.vin.map CTxIn.prevout).reverse := by
      rw [map_reverse, ← hfst, map_map, hfst]
      rfl
    cases res with
    | failed => exact absurd rfl hne
    | unclean =>
      refine ⟨.unclean, rfl, by simp, fun h => ?_⟩
      refine hok ?_ fun p hp => ?_
      · rw [hkeys]
        exact nodup_reverse.mpr (h.distinct rfl)
      · exact h.inputs rfl p.1 (of_mem_zip (mem_reverse.mp hp)).1
    | ok =>
      refine ⟨if clean then .ok else .unclean, rfl, ?_, fun h => ?_⟩
      · cases clean <;> simp
      · rw [hclean h.outputs, if_pos rfl]

def disconnectLogs (nHeight : Nat) (txs : List (CTransaction × Option CTxUndo)) : CoinsLog :=
  txs.flatMap fun p => disconnectLog p.1 nHeight p.2

def UndoCleanly (nHeight : Nat) : List (CTransaction × Option CTxUndo) → CoinsView → Prop
  | [], _ => True
  | (tx, txundo) :: rest, view => UndoesCleanly tx nHeight txundo view ∧
      UndoCleanly nHeight rest (WriteLog.apply view (disconnectLog tx nHeight txundo))

theorem disconnectLogs_append (nHeight : Nat)
    (txs txs' : List (CTransaction × Option CTxUndo)) :
    disconnectLogs nHeight (txs ++ txs') =
      disconnectLogs nHeight txs ++ disconnectLogs nHeight txs' :=
  flatMap_append

theorem disconnectLogs_singleton (nHeight : Nat) (tx : CTransaction)
    (txundo : Option CTxUndo) :
    disconnectLogs nHeight [(tx, txundo)] = disconnectLog tx nHeight txundo :=
  flatMap_singleton _ _

theorem undoCleanly_append {txs txs' : List (CTransaction × Option CTxUndo)} :
    UndoCleanly nHeight (txs ++ txs') view ↔ UndoCleanly nHeight txs view ∧
      UndoCleanly nHeight txs' (WriteLog.apply view (disconnectLogs nHeight txs)) := by
  induction txs generalizing view with
  | nil => simp [UndoCleanly, disconnectLogs]
  | cons p txs ih =>
    obtain ⟨tx, txundo⟩ := p
    have hlogs : disconnectLogs nHeight ((tx, txundo) :: txs) =
        disconnectLog tx nHeight txundo ++ disconnectLogs nHeight txs := rfl
    simp only [cons_append, UndoCleanly, ih, hlogs, apply_append, and_assoc]

theorem run_disconnectTxs {txs : List (CTransaction × Option CTxUndo)}
    (hfits : ∀ p ∈ txs, UndoFits p.1 p.2) (view : CoinsView) :
    ∃ res, (disconnectTxs nHeight txs).run view =
        .ok (res, WriteLog.apply view (disconnectLogs nHeight txs)) ∧
      res ≠ .failed ∧ (UndoCleanly nHeight txs view → res = .ok) := by
  induction txs generalizing view with
  | nil => exact ⟨.ok, rfl, by simp, fun _ => rfl⟩
  | cons p txs ih =>
    obtain ⟨tx, txundo⟩ := p
    obtain ⟨res₁, hrun₁, hne₁, hok₁⟩ :=
      run_disconnectTx (hfits _ mem_cons_self) view
    obtain ⟨res₂, hrun₂, hne₂, hok₂⟩ := ih
      (fun q hq => hfits q (mem_cons_of_mem _ hq))
      (WriteLog.apply view (disconnectLog tx nHeight txundo))
    have hlogs : WriteLog.apply view (disconnectLogs nHeight ((tx, txundo) :: txs)) =
        WriteLog.apply (WriteLog.apply view (disconnectLog tx nHeight txundo))
          (disconnectLogs nHeight txs) := apply_append _ _ _
    rw [disconnectTxs, run_bind_of_ok hrun₁, hlogs]
    cases res₁ with
    | failed => exact absurd rfl hne₁
    | ok =>
      dsimp only
      rw [run_bind_of_ok hrun₂]
      refine ⟨res₂, ?_, hne₂, fun h => hok₂ h.2⟩
      cases res₂ <;> rfl
    | unclean =>
      dsimp only
      rw [run_bind_of_ok hrun₂]
      cases res₂ with
      | failed => exact absurd rfl hne₂
      | ok => exact ⟨.unclean, rfl, by simp, fun h => hok₁ h.1⟩
      | unclean => exact ⟨.unclean, rfl, by simp, fun h => hok₁ h.1⟩

theorem last_erasures {log : CoinsLog} (h : o ∈ log.map Prod.fst) :
    WriteLog.last (erasures log) o = some none := by
  cases hlast : WriteLog.last (erasures log) o with
  | none =>
    rw [last_eq_none, map_fst_erasures] at hlast
    exact absurd h hlast
  | some w =>
    obtain ⟨v, -, hv⟩ := mem_map.mp (mem_of_last hlast)
    rw [← (Prod.mk.inj hv).2]

theorem last_spends {vin : List CTxIn} (h : o ∈ vin.map CTxIn.prevout) :
    WriteLog.last (spends vin) o = some none := by
  cases hlast : WriteLog.last (spends vin) o with
  | none =>
    rw [last_eq_none, map_fst_spends] at hlast
    exact absurd h hlast
  | some w =>
    obtain ⟨v, -, hv⟩ := mem_map.mp (mem_of_last hlast)
    rw [← (Prod.mk.inj hv).2]

end Verge
