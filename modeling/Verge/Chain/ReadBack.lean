import Verge.Chain.LiveIndex
import Verge.Chain.LoadBlockIndex

/-!
# Reading back what was written

The entries of a live index come back from the database as they were written,
whatever the order in which they are read.
-/

namespace Verge

open Foundation List BlockTree
open scoped CChainState

section Status

variable {entry : CBlockIndex}

private theorem nStatus_bits : ∀ v < 8, ∀ data undo failedValid failedChild : Bool,
    let n := v ||| (if data then BLOCK_HAVE_DATA else 0) ||| (if undo then BLOCK_HAVE_UNDO else 0) |||
      (if failedValid then BLOCK_FAILED_VALID else 0) |||
      (if failedChild then BLOCK_FAILED_CHILD else 0)
    n < 2 ^ 32 ∧ n &&& BLOCK_VALID_MASK = v ∧ statusHas n BLOCK_HAVE_DATA = data ∧
      statusHas n BLOCK_HAVE_UNDO = undo ∧
      statusHas n (BLOCK_HAVE_DATA ||| BLOCK_HAVE_UNDO) = (data || undo) ∧
      statusHas n BLOCK_FAILED_MASK = (failedValid || failedChild) ∧
      statusHas (n ||| BLOCK_FAILED_CHILD) BLOCK_FAILED_MASK = true := by
  decide +kernel

theorem CBlockIndex.Unconnected.nStatus (h : entry.Unconnected) :
    entry.nStatus < 2 ^ 32 ∧ entry.nStatus &&& BLOCK_VALID_MASK = entry.validity ∧
      statusHas entry.nStatus BLOCK_HAVE_DATA = entry.haveData ∧
      statusHas entry.nStatus BLOCK_HAVE_UNDO = false ∧
      statusHas entry.nStatus (BLOCK_HAVE_DATA ||| BLOCK_HAVE_UNDO) = entry.haveData ∧
      statusHas entry.nStatus BLOCK_FAILED_MASK = entry.failedValid ∧
      statusHas (entry.nStatus ||| BLOCK_FAILED_CHILD) BLOCK_FAILED_MASK = true := by
  have hlt : entry.validity < 8 := h.validity_le.trans_lt (by decide)
  have hbits := nStatus_bits entry.validity hlt entry.haveData entry.haveUndo entry.failedValid
    entry.failedChild
  rw [h.haveUndo, h.failedChild, Bool.or_false, Bool.or_false] at hbits
  unfold CBlockIndex.nStatus
  rw [h.haveUndo, h.failedChild]
  exact hbits

end Status

namespace BlockIndex

variable {ι : Type} {powHash : Algo → List UInt8 → uint256} {t : HeaderTree ι powHash}
  {x : BlockIndex ι} {m : LoadState} {i : ι} {L : List ι}

def raw (t : HeaderTree ι powHash) (x : BlockIndex ι) (i : ι) : LoadedIndex :=
  { LoadedIndex.null with
    pprev := (t.parent i).map t.hash
    nHeight := t.height i
    nFile := (x.links i).nFile
    nDataPos := (x.links i).nDataPos
    nTx := (x.chain.entry i).nTx
    nStatus := (x.chain.entry i).nStatus
    nVersion := (t.header i).nVersion
    hashMerkleRoot := (t.header i).hashMerkleRoot
    nTime := (t.header i).nTime
    nBits := (t.header i).nBits
    nNonce := (t.header i).nNonce }

theorem hashPrev_eq (t : HeaderTree ι powHash) (i : ι) :
    ((t.parent i).map t.hash).getD 0 = (t.header i).hashPrevBlock := by
  cases hp : t.parent i with
  | none =>
    rw [t.parent_eq_none hp, t.hashPrevBlock_root]
    rfl
  | some p =>
    rw [t.hashPrevBlock_parent hp]
    rfl

namespace Live

theorem diskIndex_inRange (hcounts : t.SmallCounts) (h : Live t x)
    (hi : i ∈ x.chain.mapBlockIndex) : (x.diskIndex t i).InRange := by
  obtain ⟨hlt, -, hdata, hundo, hfile, -, -⟩ := (h.stored.entry i hi).nStatus
  obtain ⟨hnFile, hnDataPos, hnone⟩ := h.disk i hi
  have hlinks := h.links i hi
  have hnTx : (x.chain.entry i).nTx < 2 ^ 32 := by
    rw [h.stored.linking.nTx i hi]
    split
    · refine lt_of_le_of_lt ?_ (hcounts.lt i)
      cases hp : t.parent i with
      | none => rw [t.parent_eq_none hp, chainTx_root]
      | some p =>
        rw [chainTx_parent hp]
        omega
    · decide
  refine ⟨?_, hlt, hnTx, hnFile, hnDataPos, ?_, ?_, ?_, ?_, ?_⟩
  · show (x.links i).nHeight < 2 ^ 31
    rw [hlinks]
    exact t.height_lt i
  · show (x.links i).nUndoPos < 2 ^ 64
    rw [hlinks]
    exact (by decide : 0 < 2 ^ 64)
  · obtain ⟨hlow, hhigh, htime, hbits, hnonce⟩ := t.inRange i
    exact ⟨hlow, hhigh, htime, hbits, hnonce⟩
  · intro hno
    exact (hnone (hfile.symm.trans hno)).1
  · intro hno
    exact (hnone (hdata.symm.trans hno)).2
  · intro _
    show (x.links i).nUndoPos = 0
    rw [hlinks]
    rfl

theorem prepare_diskIndex (h : Live t x) (hi : i ∈ x.chain.mapBlockIndex) :
    (x.diskIndex t i).prepare powHash =
      { x.diskIndex t i with
        hashPOWShared := (t.header i).getPoWHash powHash (getAlgo (t.header i).nVersion) } := by
  have hprev : (x.diskIndex t i).hashPrev = (t.header i).hashPrevBlock := by
    rw [← hashPrev_eq]
    show ((x.links i).pprev.map t.hash).getD 0 = _
    rw [h.links i hi]
    rfl
  have hbytes : (x.diskIndex t i).getBlockHeader.bytes = (t.header i).bytes := by
    unfold CBlockHeader.bytes CDiskBlockIndex.getBlockHeader
    rw [hprev]
    rfl
  unfold CDiskBlockIndex.prepare CBlockHeader.getPoWHash
  rw [if_neg (show ¬(x.diskIndex t i).hashBlockShared = 0 from t.hash_ne_zero i), hbytes]
  dsimp only
  congr 1
  rw [if_pos (show (x.diskIndex t i).hashPOWShared = 0 from rfl)]
  split
  case isTrue halgo =>
    have hscrypt : getAlgo (t.header i).nVersion = .scrypt := halgo
    rw [hscrypt]
    exact t.hash_eq i
  case isFalse => rfl

end Live

structure Loaded (t : HeaderTree ι powHash) (x : BlockIndex ι) (L : List ι) (m : LoadState) :
    Prop where
  rest : m = { LoadState.empty with mapBlockIndex := m.mapBlockIndex, entry := m.entry }
  nodup : m.mapBlockIndex.Nodup
  mem : ∀ hash, hash ∈ m.mapBlockIndex ↔
    ∃ i ∈ L, hash = t.hash i ∨ ∃ p, t.parent i = some p ∧ hash = t.hash p
  entry : ∀ i ∈ L, m.entry (t.hash i) = x.raw t i
  null : ∀ hash, (∀ i ∈ L, t.hash i ≠ hash) → m.entry hash = .null

theorem loaded_nil (t : HeaderTree ι powHash) (x : BlockIndex ι) : Loaded t x [] .empty where
  rest := rfl
  nodup := nodup_nil
  mem hash := by simp [LoadState.empty]
  entry i hi := absurd hi (by simp)
  null _ _ := rfl

theorem insertBlockIndex_eq {hash : uint256} (h : hash ≠ 0) :
    m.insertBlockIndex hash =
      (some hash, { m with mapBlockIndex := m.mapBlockIndex.insert hash }) := by
  unfold LoadState.insertBlockIndex
  rw [if_neg h]
  split
  case isTrue hmem => rw [insert_of_mem hmem]
  case isFalse hmem => rw [insert_of_not_mem hmem]

theorem insertBlockIndex_parent (t : HeaderTree ι powHash) (i : ι) (m : LoadState) :
    m.insertBlockIndex (((t.parent i).map t.hash).getD 0) =
      ((t.parent i).map t.hash,
        { m with mapBlockIndex :=
          ((t.parent i).map t.hash).toList.foldr List.insert m.mapBlockIndex }) := by
  cases hp : t.parent i with
  | none => rfl
  | some p => exact insertBlockIndex_eq (t.hash_ne_zero p)

theorem Loaded.loadRecord (hcounts : t.SmallCounts) (hlive : Live t x) (h : Loaded t x L m)
    (hi : i ∈ x.chain.mapBlockIndex) (hnew : i ∉ L) :
    ∃ m', m.loadRecord (x.record t i) = .ok m' ∧ Loaded t x (L ++ [i]) m' := by
  have hread := CDiskBlockIndex.reads_write powHash (hlive.diskIndex_inRange hcounts hi) []
  rw [append_nil, hlive.prepare_diskIndex hi] at hread
  have hlinks := hlive.links i hi
  have hprev : (x.links i).pprev = t.parent i := by
    rw [hlinks]
    rfl
  have hnull : m.entry (t.hash i) = .null :=
    h.null (t.hash i) fun j hj heq => hnew (t.hash_injective heq ▸ hj)
  have hraw : { LoadedIndex.null with
      pprev := (t.parent i).map t.hash
      nHeight := (x.links i).nHeight
      nFile := (x.links i).nFile
      nDataPos := (x.links i).nDataPos
      nUndoPos := (x.links i).nUndoPos
      nVersion := (t.header i).nVersion
      hashMerkleRoot := (t.header i).hashMerkleRoot
      nTime := (t.header i).nTime
      nBits := (t.header i).nBits
      nNonce := (t.header i).nNonce
      nStatus := (x.chain.entry i).nStatus
      nTx := (x.chain.entry i).nTx } = x.raw t i := by
    unfold raw
    rw [hlinks]
    rfl
  let keys := ((t.parent i).map t.hash).toList.foldr List.insert (m.mapBlockIndex.insert (t.hash i))
  refine ⟨{ m with mapBlockIndex := keys,
                   entry := Function.update m.entry (t.hash i) (x.raw t i) }, ?_, ?_⟩
  · unfold LoadState.loadRecord record
    rw [hread]
    dsimp only [diskIndex]
    rw [insertBlockIndex_eq (show t.hash i ≠ 0 from t.hash_ne_zero i)]
    dsimp only
    rw [hprev, insertBlockIndex_parent]
    dsimp only [LoadState.setEntry]
    rw [hnull, CBlockHeader.checkProofOfWork_of_check (hlive.check i hi), hraw]
    rfl
  · refine ⟨?_, ?_, ?_, ?_, ?_⟩
    · rw [h.rest]
    · show keys.Nodup
      have hnodup : (m.mapBlockIndex.insert (t.hash i)).Nodup := h.nodup.insert
      cases hp : t.parent i with
      | none =>
        simp only [keys, hp]
        exact hnodup
      | some p =>
        simp only [keys, hp]
        exact hnodup.insert
    · intro hash
      show hash ∈ keys ↔ _
      have hkeys : hash ∈ keys ↔ (∃ p, t.parent i = some p ∧ hash = t.hash p) ∨ hash = t.hash i ∨
          hash ∈ m.mapBlockIndex := by
        cases hp : t.parent i with
        | none => simp [keys, hp]
        | some p => simp [keys, hp]
      rw [hkeys, h.mem]
      constructor
      · rintro (hparent | hself | ⟨j, hj, hold⟩)
        · exact ⟨i, by simp, .inr hparent⟩
        · exact ⟨i, by simp, .inl hself⟩
        · exact ⟨j, by simp [hj], hold⟩
      · rintro ⟨j, hj, hcase⟩
        rcases mem_append.mp hj with hold | hadded
        · exact .inr (.inr ⟨j, hold, hcase⟩)
        · obtain rfl := mem_singleton.mp hadded
          exact hcase.elim (fun hself => .inr (.inl hself)) .inl
    · intro j hj
      dsimp only
      rcases mem_append.mp hj with hold | hadded
      · have hne : t.hash j ≠ t.hash i := fun heq => hnew (t.hash_injective heq ▸ hold)
        rw [Function.update_of_ne hne]
        exact h.entry j hold
      · rw [mem_singleton.mp hadded, Function.update_self]
    · intro hash hother
      dsimp only
      rw [Function.update_of_ne (hother i (by simp)).symm]
      exact h.null hash fun j hj => hother j (by simp [hj])

theorem Loaded.loadBlockIndexGuts {rest : List ι} (hcounts : t.SmallCounts) (hlive : Live t x)
    (h : Loaded t x L m) (hmem : ∀ i ∈ rest, i ∈ x.chain.mapBlockIndex)
    (hnodup : (L ++ rest).Nodup) :
    ∃ m', m.loadBlockIndexGuts (rest.map (x.record t)) = .ok m' ∧ Loaded t x (L ++ rest) m' := by
  induction rest generalizing L m with
  | nil => exact ⟨m, rfl, by rwa [append_nil]⟩
  | cons i rest ih =>
    have hnew : i ∉ L := fun hi => (nodup_append.mp hnodup).2.2 i hi i mem_cons_self rfl
    obtain ⟨m₁, hload, h₁⟩ := h.loadRecord hcounts hlive (hmem i mem_cons_self) hnew
    obtain ⟨m', hrest, h'⟩ := ih h₁ (fun j hj => hmem j (mem_cons_of_mem i hj))
      (by rwa [append_assoc])
    refine ⟨m', ?_, by rwa [append_assoc] at h'⟩
    rw [LoadState.loadBlockIndexGuts, map_cons, foldlM_cons, hload]
    exact hrest

end BlockIndex

end Verge
