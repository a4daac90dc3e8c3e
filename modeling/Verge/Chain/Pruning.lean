import Mathlib.Algebra.BigOperators.Group.List.Basic
import Mathlib.Algebra.Ring.Nat
import Verge.Chain.BlockFiles

/-!
# Pruning keeps recent blocks

The statistics of a file bound the heights of the blocks whose data is in it, and the
greatest height is that of one of them.  So a file that is pruned because its greatest
height is low has no recent block, and a file that is kept because it is high has one.
-/

namespace Verge

open Foundation List

/-! ## The statistics -/

namespace CBlockFileInfo

variable {info : CBlockFileInfo}

theorem addBlock_heights (info : CBlockFileInfo) (nHeight nTime : Nat) :
    (info.addBlock nHeight nTime).nHeightFirst ≤ nHeight ∧
      nHeight ≤ (info.addBlock nHeight nTime).nHeightLast := by
  unfold addBlock
  dsimp only
  constructor <;> split <;> omega

theorem addBlock_widens (nHeight nTime : Nat) (h : info.nBlocks ≠ 0) :
    (info.addBlock nHeight nTime).nHeightFirst ≤ info.nHeightFirst ∧
      info.nHeightLast ≤ (info.addBlock nHeight nTime).nHeightLast := by
  unfold addBlock
  dsimp only
  constructor <;> split <;> omega

theorem nHeightLast_addBlock (info : CBlockFileInfo) (nHeight nTime : Nat) :
    (info.addBlock nHeight nTime).nHeightLast = nHeight ∨
      info.nHeightLast ≠ 0 ∧
        (info.addBlock nHeight nTime).nHeightLast = info.nHeightLast := by
  unfold addBlock
  dsimp only
  split
  · exact .inl rfl
  · by_cases hzero : info.nHeightLast = 0
    · exact .inl (by omega)
    · exact .inr ⟨hzero, rfl⟩

end CBlockFileInfo

namespace BlockFileState

variable {ι : Type} {t : Ancestry ι} {s s' : BlockFileState ι}
  {f nAddSize nHeight nTime : Nat} {out_of_space : Bool} {pindex : ι}

/-! ## Files -/

theorem info_of_length_le (h : s.vinfoBlockFile.length ≤ f) : s.info f = .null := by
  rw [info, getD_eq_getElem?_getD, List.getElem?_eq_none h]
  rfl

theorem info_setInfo_self (h : f < s.vinfoBlockFile.length) (file : CBlockFileInfo) :
    (s.setInfo f file).info f = file := by
  rw [info, setInfo, getD_eq_getElem?_getD, List.getElem?_set_self h]
  rfl

theorem info_setInfo_of_ne {g : Nat} (h : g ≠ f) (file : CBlockFileInfo) :
    (s.setInfo f file).info g = s.info g := by
  rw [info, setInfo, getD_eq_getElem?_getD, List.getElem?_set_ne h.symm, info,
    getD_eq_getElem?_getD]

theorem info_resizeFiles (size last : Nat) :
    ({ s with vinfoBlockFile := resizeFiles s.vinfoBlockFile size, nLastBlockFile := last } :
      BlockFileState ι).info f = s.info f := by
  unfold info resizeFiles
  dsimp only
  rw [getD_eq_getElem?_getD, getD_eq_getElem?_getD]
  by_cases h : f < s.vinfoBlockFile.length
  · rw [List.getElem?_append_left h]
  · rw [List.getElem?_append_right (by omega), List.getElem?_eq_none (l := s.vinfoBlockFile)
      (by omega), List.getElem?_replicate]
    split <;> rfl

theorem length_resizeFiles (files : List CBlockFileInfo) (size : Nat) :
    (resizeFiles files size).length = max files.length size := by
  rw [resizeFiles, length_append, length_replicate]
  omega

theorem findFile_spec (hsize : nAddSize < MAX_BLOCKFILE_SIZE) (files : List CBlockFileInfo)
    (nFile : Nat) :
    ∃ k, findFile nAddSize files nFile = nFile + k ∧ k ≤ files.length ∧
      (files.getD k .null).nSize + nAddSize < MAX_BLOCKFILE_SIZE := by
  induction files generalizing nFile with
  | nil => exact ⟨0, rfl, Nat.le_refl _, by rwa [getD_nil, CBlockFileInfo.null, Nat.zero_add]⟩
  | cons file files ih =>
    rw [findFile]
    by_cases hfull : MAX_BLOCKFILE_SIZE ≤ file.nSize + nAddSize
    · obtain ⟨k, hk, hle, hroom⟩ := ih (nFile + 1)
      refine ⟨k + 1, ?_, Nat.succ_le_succ hle, hroom⟩
      rw [if_pos hfull, hk]
      omega
    · refine ⟨0, if_neg hfull, Nat.zero_le _, ?_⟩
      rw [getD_cons_zero]
      omega

theorem fileFor_spec (hsize : nAddSize < MAX_BLOCKFILE_SIZE)
    (hlast : s.nLastBlockFile ≤ s.vinfoBlockFile.length) :
    s.nLastBlockFile ≤ s.fileFor nAddSize ∧ s.fileFor nAddSize ≤ s.vinfoBlockFile.length ∧
      (s.info (s.fileFor nAddSize)).nSize + nAddSize < MAX_BLOCKFILE_SIZE := by
  obtain ⟨k, hk, hle, hroom⟩ :=
    findFile_spec hsize (s.vinfoBlockFile.drop s.nLastBlockFile) s.nLastBlockFile
  rw [length_drop] at hle
  rw [fileFor, hk]
  refine ⟨by omega, by omega, ?_⟩
  rwa [getD_eq_getElem?_getD, List.getElem?_drop, ← getD_eq_getElem?_getD] at hroom

theorem info_findBlockPos_self :
    (s.findBlockPos nAddSize nHeight nTime out_of_space).2.info (s.fileFor nAddSize) =
      { (s.info (s.fileFor nAddSize)).addBlock nHeight nTime with
        nSize := (s.info (s.fileFor nAddSize)).nSize + nAddSize } := by
  unfold findBlockPos
  dsimp only
  rw [info_setInfo_self, info_resizeFiles]
  · rfl
  · dsimp only
    rw [length_resizeFiles]
    omega

theorem info_findBlockPos_of_ne (h : f ≠ s.fileFor nAddSize) :
    (s.findBlockPos nAddSize nHeight nTime out_of_space).2.info f = s.info f := by
  unfold findBlockPos
  dsimp only
  rw [info_setInfo_of_ne h, info_resizeFiles]

theorem length_findBlockPos :
    (s.findBlockPos nAddSize nHeight nTime out_of_space).2.vinfoBlockFile.length =
      max s.vinfoBlockFile.length (s.fileFor nAddSize + 1) := by
  unfold findBlockPos setInfo
  dsimp only
  rw [length_set, length_resizeFiles]

/-! ## The invariant -/

/-- What the statistics of a file say about its entries.  `lost` has the file and the height
of the blocks that were not stored. -/
structure FileKept (t : Ancestry ι) (lost : List (Nat × Nat)) (s : BlockFileState ι) (f : Nat) :
    Prop where
  nBlocks_le : (s.info f).nBlocks ≤ (s.info f).nSize
  nSize_lt : (s.info f).nSize < MAX_BLOCKFILE_SIZE
  nHeightLast_eq : (s.info f).nBlocks = 0 → (s.info f).nHeightLast = 0
  within : ∀ pindex, (s.entry pindex).haveData = true → (s.entry pindex).nFile = f →
    (s.info f).nBlocks ≠ 0 ∧ (s.info f).nHeightFirst ≤ t.height pindex ∧
      t.height pindex ≤ (s.info f).nHeightLast
  attained : (s.info f).nSize ≠ 0 →
    (∃ pindex, (s.entry pindex).haveData = true ∧ (s.entry pindex).nFile = f ∧
      t.height pindex = (s.info f).nHeightLast) ∨ (f, (s.info f).nHeightLast) ∈ lost

structure Kept (t : Ancestry ι) (lost : List (Nat × Nat)) (s : BlockFileState ι) : Prop where
  last_le : s.nLastBlockFile ≤ s.vinfoBlockFile.length
  length_le : s.vinfoBlockFile.length ≤ s.nLastBlockFile + 1
  file : ∀ f, FileKept t lost s f
  undo : ∀ pindex, (s.entry pindex).haveUndo = true → (s.entry pindex).haveData = true

variable {lost : List (Nat × Nat)}

theorem FileKept.of_null (hnull : s.info f = .null)
    (hentry : ∀ pindex, (s.entry pindex).haveData = true → (s.entry pindex).nFile ≠ f) :
    FileKept t lost s f where
  nBlocks_le := by rw [hnull]; exact Nat.le_refl _
  nSize_lt := by rw [hnull]; decide
  nHeightLast_eq := by rw [hnull]; exact fun _ => rfl
  within := fun pindex hdata hfile => absurd hfile (hentry pindex hdata)
  attained := by rw [hnull]; exact fun h => absurd rfl h

variable {lost' : List (Nat × Nat)}

theorem FileKept.congr (h : FileKept t lost s f)
    (hinfo : s'.info f = { s.info f with nUndoSize := (s'.info f).nUndoSize })
    (hentry : ∀ pindex, (s'.entry pindex).haveData = true ∧ (s'.entry pindex).nFile = f ↔
      (s.entry pindex).haveData = true ∧ (s.entry pindex).nFile = f) (hlost : lost ⊆ lost') :
    FileKept t lost' s' f where
  nBlocks_le := by rw [hinfo]; exact h.nBlocks_le
  nSize_lt := by rw [hinfo]; exact h.nSize_lt
  nHeightLast_eq := by rw [hinfo]; exact h.nHeightLast_eq
  within := by
    intro pindex hdata hfile
    rw [hinfo]
    obtain ⟨hdata, hfile⟩ := (hentry pindex).mp ⟨hdata, hfile⟩
    exact h.within pindex hdata hfile
  attained := by
    rw [hinfo]
    intro hsize
    rcases h.attained hsize with ⟨pindex, hdata, hfile, hheight⟩ | hmem
    · obtain ⟨hdata, hfile⟩ := (hentry pindex).mpr ⟨hdata, hfile⟩
      exact .inl ⟨pindex, hdata, hfile, hheight⟩
    · exact .inr (hlost hmem)

/-! ## New blocks and undo data -/

theorem FileKept.addBlock (h : FileKept t lost s f) (hpos : 0 < nAddSize)
    (hroom : (s.info f).nSize + nAddSize < MAX_BLOCKFILE_SIZE)
    (hinfo : s'.info f = { (s.info f).addBlock (t.height pindex) nTime with
      nSize := (s.info f).nSize + nAddSize })
    (hold : ∀ j, j ≠ pindex → s'.entry j = s.entry j) (hnew : (s.entry pindex).haveData = false)
    (hplaced : (s'.entry pindex).haveData = true ∧ (s'.entry pindex).nFile = f ∨
      (s'.entry pindex).haveData = false ∧ (f, t.height pindex) ∈ lost') (hlost : lost ⊆ lost') :
    FileKept t lost' s' f := by
  have hne : ∀ j, (s.entry j).haveData = true → j ≠ pindex := by
    rintro j hdata rfl
    rw [hnew] at hdata
    cases hdata
  have hcount : (s'.info f).nBlocks = (s.info f).nBlocks + 1 := by
    rw [hinfo]
    have hle := h.nBlocks_le
    rw [MAX_BLOCKFILE_SIZE] at hroom
    exact Nat.mod_eq_of_lt (by omega)
  have hsize : (s'.info f).nSize = (s.info f).nSize + nAddSize := by rw [hinfo]
  have hheights := CBlockFileInfo.addBlock_heights (s.info f) (t.height pindex) nTime
  refine ⟨?_, ?_, ?_, ?_, ?_⟩
  · rw [hcount, hsize]
    have := h.nBlocks_le
    omega
  · rw [hsize]
    exact hroom
  · intro hzero
    rw [hcount] at hzero
    cases hzero
  · intro j hdata hfile
    refine ⟨by rw [hcount]; exact Nat.succ_ne_zero _, ?_⟩
    rw [hinfo]
    by_cases hj : j = pindex
    · rw [hj]
      exact hheights
    · rw [hold j hj] at hdata hfile
      obtain ⟨hblocks, hfirst, hlast⟩ := h.within j hdata hfile
      have hwidens := CBlockFileInfo.addBlock_widens (t.height pindex) nTime hblocks
      exact ⟨hwidens.1.trans hfirst, hlast.trans hwidens.2⟩
  · intro _
    rw [hinfo]
    dsimp only
    rcases CBlockFileInfo.nHeightLast_addBlock (s.info f) (t.height pindex) nTime with
      hlast | ⟨hne_zero, hlast⟩
    · rw [hlast]
      rcases hplaced with ⟨hdata, hfile⟩ | ⟨-, hmem⟩
      · exact .inl ⟨pindex, hdata, hfile, rfl⟩
      · exact .inr hmem
    · rw [hlast]
      have hnonempty : (s.info f).nSize ≠ 0 := by
        intro hzero
        exact hne_zero (h.nHeightLast_eq (by have := h.nBlocks_le; omega))
      rcases h.attained hnonempty with ⟨j, hdata, hfile, hheight⟩ | hmem
      · refine .inl ⟨j, ?_, ?_, hheight⟩
        · rw [hold j (hne j hdata)]
          exact hdata
        · rw [hold j (hne j hdata)]
          exact hfile
      · exact .inr (hlost hmem)

theorem Kept.of_undo (h : Kept t lost s) (hlast : s'.nLastBlockFile = s.nLastBlockFile)
    (hlength : s'.vinfoBlockFile.length = s.vinfoBlockFile.length)
    (hinfo : ∀ f, s'.info f = { s.info f with nUndoSize := (s'.info f).nUndoSize })
    (hentry : ∀ j, (s'.entry j).haveData = (s.entry j).haveData ∧
      (s'.entry j).nFile = (s.entry j).nFile)
    (hundo : ∀ j, (s'.entry j).haveUndo = true → (s.entry j).haveData = true) :
    Kept t lost s' := by
  refine ⟨?_, ?_, fun f => ?_, fun j hj => ?_⟩
  · rw [hlast, hlength]
    exact h.last_le
  · rw [hlast, hlength]
    exact h.length_le
  · refine (h.file f).congr (hinfo f) (fun j => ?_) (List.Subset.refl _)
    rw [(hentry j).1, (hentry j).2]
  · rw [(hentry j).1]
    exact hundo j hj

theorem findUndoPos_snd (s : BlockFileState ι) (f nAddSize : Nat) (out_of_space : Bool) :
    (s.findUndoPos f nAddSize out_of_space).2 = s ∨
      ∃ nUndoSize, (s.findUndoPos f nAddSize out_of_space).2 =
        s.setInfo f { s.info f with nUndoSize } := by
  unfold findUndoPos
  dsimp only
  split
  · exact .inl rfl
  · exact .inr ⟨_, rfl⟩

theorem Kept.findUndoPos (h : Kept t lost s) (f nAddSize : Nat) (out_of_space : Bool) :
    Kept t lost (s.findUndoPos f nAddSize out_of_space).2 := by
  rcases findUndoPos_snd s f nAddSize out_of_space with heq | ⟨nUndoSize, heq⟩
  · rw [heq]
    exact h
  · rw [heq]
    refine h.of_undo rfl length_set (fun g => ?_) (fun _ => ⟨rfl, rfl⟩) h.undo
    by_cases hg : g = f
    · rw [hg]
      by_cases hf : f < s.vinfoBlockFile.length
      · rw [info_setInfo_self hf]
      · have hlength : (s.setInfo f { s.info f with nUndoSize }).vinfoBlockFile.length ≤ f := by
          rw [setInfo, length_set]
          omega
        rw [info_of_length_le hlength, info_of_length_le (Nat.not_lt.mp hf)]
    · rw [info_setInfo_of_ne hg]

theorem entry_findUndoPos (f nAddSize : Nat) (out_of_space : Bool) :
    (s.findUndoPos f nAddSize out_of_space).2.entry = s.entry := by
  rcases findUndoPos_snd s f nAddSize out_of_space with heq | ⟨nUndoSize, heq⟩ <;> rw [heq]
  rfl

variable [DecidableEq ι]

theorem entry_setEntry_self (s : BlockFileState ι) (pindex : ι) (position : DataPosition) :
    (s.setEntry pindex position).entry pindex = position := by
  simp [setEntry]

theorem entry_setEntry_of_ne {j : ι} (h : j ≠ pindex) (position : DataPosition) :
    (s.setEntry pindex position).entry j = s.entry j := by
  simp [setEntry, h]

theorem acceptBlock_eq (t : Ancestry ι) (s : BlockFileState ι) (pindex : ι) (nAddSize nTime : Nat)
    (out_of_space fWritten : Bool) :
    s.acceptBlock t pindex nAddSize nTime out_of_space fWritten =
      let s₁ := (s.findBlockPos nAddSize (t.height pindex) nTime out_of_space).2
      if !out_of_space && fWritten then
        s₁.receiveBlock pindex ⟨s.fileFor nAddSize, (s.info (s.fileFor nAddSize)).nSize⟩
      else s₁ := by
  unfold acceptBlock findBlockPos
  dsimp only
  rw [info_resizeFiles]
  cases out_of_space <;> cases fWritten <;> rfl

section

variable (h : Kept t lost s)

include h

section

variable (hnew : (s.entry pindex).haveData = false) (hpos : 0 < nAddSize)
  (hsize : nAddSize < MAX_BLOCKFILE_SIZE)

include hnew hpos hsize

theorem Kept.of_placed
    (hfiles : s'.vinfoBlockFile =
      (s.findBlockPos nAddSize (t.height pindex) nTime false).2.vinfoBlockFile)
    (hlast : s'.nLastBlockFile = s.fileFor nAddSize)
    (hold : ∀ j, j ≠ pindex → s'.entry j = s.entry j)
    (hplaced : (s'.entry pindex).haveData = true ∧ (s'.entry pindex).nFile = s.fileFor nAddSize ∨
      (s'.entry pindex).haveData = false ∧ (s.fileFor nAddSize, t.height pindex) ∈ lost')
    (hundo : (s'.entry pindex).haveUndo = (s.entry pindex).haveUndo) (hlost : lost ⊆ lost') :
    Kept t lost' s' := by
  obtain ⟨hge, hle, hroom⟩ := fileFor_spec hsize h.last_le
  have hlength := h.length_le
  have hinfo : ∀ f, s'.info f =
      (s.findBlockPos nAddSize (t.height pindex) nTime false).2.info f := by
    intro f
    rw [info, hfiles, info]
  refine ⟨?_, ?_, fun f => ?_, fun j => ?_⟩
  · rw [hlast, hfiles, length_findBlockPos]
    omega
  · rw [hlast, hfiles, length_findBlockPos]
    omega
  · by_cases hf : f = s.fileFor nAddSize
    · rw [hf]
      exact (h.file _).addBlock hpos hroom ((hinfo _).trans info_findBlockPos_self) hold hnew
        hplaced hlost
    · have hsame : s'.info f = s.info f := (hinfo f).trans (info_findBlockPos_of_ne hf)
      refine (h.file f).congr ?_ (fun j => ?_) hlost
      · rw [hsame]
      · by_cases hj : j = pindex
        · rw [hj, hnew]
          rcases hplaced with ⟨-, hfile⟩ | ⟨hdata, -⟩
          · rw [hfile]
            exact iff_of_false (fun h => hf h.2.symm) fun h => Bool.noConfusion h.1
          · rw [hdata]
            exact iff_of_false (fun h => Bool.noConfusion h.1) fun h => Bool.noConfusion h.1
        · rw [hold j hj]
  · by_cases hj : j = pindex
    · rw [hj, hundo]
      intro hundo'
      have hdata := h.undo pindex hundo'
      rw [hnew] at hdata
      cases hdata
    · rw [hold j hj]
      exact h.undo j

theorem Kept.acceptBlock : Kept t lost (s.acceptBlock t pindex nAddSize nTime false true) := by
  rw [acceptBlock_eq]
  change Kept t lost (setEntry _ pindex _)
  refine h.of_placed hnew hpos hsize rfl rfl (fun j hj => ?_) (.inl ?_) ?_ (List.Subset.refl _)
  · exact entry_setEntry_of_ne hj _
  · rw [entry_setEntry_self]
    exact ⟨rfl, rfl⟩
  · rw [entry_setEntry_self]
    rfl

theorem Kept.acceptBlock_lost {fWritten : Bool} (hlost : out_of_space = true ∨ fWritten = false) :
    Kept t ((s.fileFor nAddSize, t.height pindex) :: lost)
      (s.acceptBlock t pindex nAddSize nTime out_of_space fWritten) := by
  have hfail : (!out_of_space && fWritten) = false := by
    rcases hlost with rfl | rfl
    · rfl
    · exact Bool.and_false _
  rw [acceptBlock_eq, hfail]
  exact h.of_placed hnew hpos hsize rfl rfl (fun j hj => rfl)
    (.inr ⟨hnew, mem_cons_self⟩) rfl (subset_cons_self _ _)

end

theorem Kept.writeUndoDataForBlock {fWritten : Bool} (hdata : (s.entry pindex).haveData = true) :
    Kept t lost (s.writeUndoDataForBlock pindex nAddSize out_of_space fWritten) := by
  have hfound := h.findUndoPos (s.entry pindex).nFile nAddSize out_of_space
  have hentry := entry_findUndoPos (s := s) (s.entry pindex).nFile nAddSize out_of_space
  unfold BlockFileState.writeUndoDataForBlock
  generalize s.findUndoPos (s.entry pindex).nFile nAddSize out_of_space = found at hfound hentry
  obtain ⟨pos, s₁⟩ := found
  dsimp only at hfound hentry ⊢
  split
  · exact h
  · cases pos with
    | none => exact hfound
    | some pos =>
      cases fWritten with
      | false => exact hfound
      | true =>
        change Kept t lost (s₁.setEntry pindex _)
        refine hfound.of_undo rfl rfl (fun _ => rfl) (fun j => ?_) fun j => ?_
        · by_cases hj : j = pindex
          · rw [hj, entry_setEntry_self]
            exact ⟨rfl, rfl⟩
          · rw [entry_setEntry_of_ne hj]
            exact ⟨rfl, rfl⟩
        · by_cases hj : j = pindex
          · rw [hj, hentry]
            exact fun _ => hdata
          · rw [entry_setEntry_of_ne hj]
            exact hfound.undo j

/-! ## Pruning a file -/

omit h in
theorem info_pruneOneBlockFile (g : Nat) :
    (s.pruneOneBlockFile t f).info g = if g = f then .null else s.info g := by
  by_cases hg : g = f
  · rw [if_pos hg, hg]
    by_cases hf : f < s.vinfoBlockFile.length
    · exact info_setInfo_self hf .null
    · refine info_of_length_le ?_
      rw [pruneOneBlockFile, setInfo, length_set]
      omega
  · rw [if_neg hg]
    exact info_setInfo_of_ne hg .null

theorem Kept.pruneOneBlockFile (f : Nat) : Kept t lost (s.pruneOneBlockFile t f) := by
  refine ⟨?_, ?_, fun g => ?_, fun j => ?_⟩
  · rw [BlockFileState.pruneOneBlockFile, setInfo, length_set]
    exact h.last_le
  · rw [BlockFileState.pruneOneBlockFile, setInfo, length_set]
    exact h.length_le
  · by_cases hg : g = f
    · refine .of_null ?_ fun j hdata hfile => ?_
      · rw [info_pruneOneBlockFile, if_pos hg]
      · dsimp only [BlockFileState.pruneOneBlockFile] at hdata hfile
        split at hdata
        · cases hdata
        next hne =>
          rw [if_neg hne] at hfile
          exact hne (hfile.trans hg)
    · refine (h.file g).congr ?_ (fun j => ?_) (List.Subset.refl _)
      · rw [info_pruneOneBlockFile, if_neg hg]
      · dsimp only [BlockFileState.pruneOneBlockFile]
        split
        next hfile =>
          exact iff_of_false (fun h => Bool.noConfusion h.1) fun h => hg (h.2.symm.trans hfile)
        · exact Iff.rfl
  · dsimp only [BlockFileState.pruneOneBlockFile]
    split
    · exact fun hundo => Bool.noConfusion hundo
    · exact h.undo j

theorem Kept.flags_pruneOneBlockFile (hheight : (s.info f).nHeightLast < t.height pindex) :
    ((s.pruneOneBlockFile t f).entry pindex).haveData = (s.entry pindex).haveData ∧
      ((s.pruneOneBlockFile t f).entry pindex).haveUndo = (s.entry pindex).haveUndo := by
  dsimp only [BlockFileState.pruneOneBlockFile]
  split
  next hfile =>
    have hdata : (s.entry pindex).haveData = false := by
      rw [← Bool.not_eq_true]
      intro hdata
      have hwithin := (h.file f).within pindex hdata hfile
      omega
    have hundo : (s.entry pindex).haveUndo = false := by
      rw [← Bool.not_eq_true]
      intro hundo
      rw [h.undo pindex hundo] at hdata
      cases hdata
    exact ⟨hdata.symm, hundo.symm⟩
  · exact ⟨rfl, rfl⟩

end

/-! ## The loops -/

inductive Pruned (t : Ancestry ι) (limit : Nat) : BlockFileState ι → BlockFileState ι → Prop
  | refl (s : BlockFileState ι) : Pruned t limit s s
  | file {s s' : BlockFileState ι} {f : Nat} (hfile : f < s.nLastBlockFile)
      (hlow : (s.info f).nHeightLast ≤ limit)
      (hrest : Pruned t limit (s.pruneOneBlockFile t f) s') :
      Pruned t limit s s'

variable {limit : Nat}

section

variable (hp : Pruned t limit s s')

include hp

theorem Pruned.kept (h : Kept t lost s) : Kept t lost s' := by
  induction hp with
  | refl s => exact h
  | file hfile hlow hrest ih => exact ih (h.pruneOneBlockFile _)

theorem Pruned.nLastBlockFile_eq : s'.nLastBlockFile = s.nLastBlockFile := by
  induction hp with
  | refl s => rfl
  | file hfile hlow hrest ih => exact ih

theorem Pruned.info_cases (g : Nat) : s'.info g = s.info g ∨ s'.info g = .null := by
  induction hp with
  | refl s => exact .inl rfl
  | file hfile hlow hrest ih =>
    rw [info_pruneOneBlockFile] at ih
    split at ih
    · exact .inr (or_self_iff.mp ih)
    · exact ih

theorem Pruned.skipped {g : Nat} (hskip : (s.info g).nSize = 0 ∨ limit < (s.info g).nHeightLast) :
    (s'.info g).nSize = 0 ∨ limit < (s'.info g).nHeightLast := by
  rcases hp.info_cases g with heq | heq
  · rw [heq]
    exact hskip
  · rw [heq]
    exact .inl rfl

theorem Pruned.flags (h : Kept t lost s) (hheight : limit < t.height pindex) :
    (s'.entry pindex).haveData = (s.entry pindex).haveData ∧
      (s'.entry pindex).haveUndo = (s.entry pindex).haveUndo := by
  induction hp with
  | refl s => exact ⟨rfl, rfl⟩
  | file hfile hlow hrest ih =>
    obtain ⟨hdata, hundo⟩ := h.flags_pruneOneBlockFile (lt_of_le_of_lt hlow hheight)
    rw [← hdata, ← hundo]
    exact ih (h.pruneOneBlockFile _)

end

theorem lastBlockWeCanPrune_eq {nHeight : Nat} (hlow : BlockTree.MIN_BLOCKS_TO_KEEP ≤ nHeight)
    (hint : nHeight < 2 ^ 31) :
    lastBlockWeCanPrune nHeight = nHeight - BlockTree.MIN_BLOCKS_TO_KEEP := by
  unfold lastBlockWeCanPrune
  rw [BlockTree.MIN_BLOCKS_TO_KEEP] at hlow ⊢
  omega

theorem Pruned.mono {limit' : Nat} (hp : Pruned t limit s s') (hle : limit ≤ limit') :
    Pruned t limit' s s' := by
  induction hp with
  | refl s => exact .refl s
  | file hfile hlow hrest ih => exact .file hfile (hlow.trans hle) ih

def totalUsage (s : BlockFileState ι) : Nat :=
  (s.vinfoBlockFile.map fun file => file.nSize + file.nUndoSize).sum

omit [DecidableEq ι] in
theorem calculateCurrentUsage_eq : s.calculateCurrentUsage = s.totalUsage % 2 ^ 64 := by
  have hfold : ∀ (files : List CBlockFileInfo) (retval : Nat),
      files.foldl (fun retval file => (retval + (file.nSize + file.nUndoSize)) % 2 ^ 64)
        (retval % 2 ^ 64) =
      (retval + (files.map fun file => file.nSize + file.nUndoSize).sum) % 2 ^ 64 := by
    intro files
    induction files with
    | nil => exact fun retval => rfl
    | cons file files ih =>
      intro retval
      rw [foldl_cons, Nat.mod_add_mod, ih, map_cons, sum_cons, Nat.add_assoc]
  have husage := hfold s.vinfoBlockFile 0
  rwa [Nat.zero_add] at husage

section

variable (t s f)

theorem totalUsage_pruneOneBlockFile :
    (s.pruneOneBlockFile t f).totalUsage + ((s.info f).nSize + (s.info f).nUndoSize) =
      s.totalUsage := by
  have hset : ∀ (files : List CBlockFileInfo) (f : Nat),
      ((files.set f .null).map fun file => file.nSize + file.nUndoSize).sum +
        ((files.getD f .null).nSize + (files.getD f .null).nUndoSize) =
      (files.map fun file => file.nSize + file.nUndoSize).sum := by
    intro files
    induction files with
    | nil => exact fun f => rfl
    | cons file files ih =>
      intro f
      cases f with
      | zero =>
        rw [set_cons_zero, getD_cons_zero, map_cons, sum_cons,
          map_cons, sum_cons, CBlockFileInfo.null]
        dsimp only
        omega
      | succ f =>
        rw [set_cons_succ, getD_cons_succ, map_cons, sum_cons,
          map_cons, sum_cons, ← ih f]
        omega
  exact hset s.vinfoBlockFile f

theorem calculateCurrentUsage_pruneOneBlockFile :
    (s.pruneOneBlockFile t f).calculateCurrentUsage =
      (s.calculateCurrentUsage + 2 ^ 64 - ((s.info f).nSize + (s.info f).nUndoSize) % 2 ^ 64) %
        2 ^ 64 := by
  rw [calculateCurrentUsage_eq, calculateCurrentUsage_eq, ← totalUsage_pruneOneBlockFile t s f]
  omega

section

variable (limit nPruneTarget : Nat) (files : List Nat) (nCurrentUsage : Nat)
  (r : BlockFileState ι × List Nat) (hfiles : ∀ f ∈ files, f < r.1.nLastBlockFile)

include hfiles

theorem pruned_pruneManualLoop : Pruned t limit r.1 (pruneManualLoop t limit files r).1 := by
  induction files generalizing r with
  | nil => exact .refl _
  | cons f files ih =>
    obtain ⟨s, setFilesToPrune⟩ := r
    obtain ⟨hfile, hfiles⟩ := forall_mem_cons.mp hfiles
    rw [pruneManualLoop]
    split
    · exact ih _ hfiles
    next hprune =>
      rw [not_or, Nat.not_lt] at hprune
      exact .file hfile hprune.2 (ih (s.pruneOneBlockFile t f, setFilesToPrune ++ [f]) hfiles)

theorem pruned_pruneLoop :
    Pruned t limit r.1 (pruneLoop t limit nPruneTarget files nCurrentUsage r).1 := by
  induction files generalizing r nCurrentUsage with
  | nil => exact .refl _
  | cons f files ih =>
    obtain ⟨s, setFilesToPrune⟩ := r
    obtain ⟨hfile, hfiles⟩ := forall_mem_cons.mp hfiles
    rw [pruneLoop]
    split
    · exact ih _ _ hfiles
    · split
      · exact .refl _
      · split
        · exact ih _ _ hfiles
        next hprune =>
          exact .file hfile (Nat.not_lt.mp hprune)
            (ih _ (s.pruneOneBlockFile t f, setFilesToPrune ++ [f]) hfiles)

theorem pruneLoop_usage :
    ((pruneLoop t limit nPruneTarget files r.1.calculateCurrentUsage r).1.calculateCurrentUsage +
        nBuffer) % 2 ^ 64 < nPruneTarget ∨
    ∀ f ∈ files,
      ((pruneLoop t limit nPruneTarget files r.1.calculateCurrentUsage r).1.info f).nSize = 0 ∨
      limit < ((pruneLoop t limit nPruneTarget files r.1.calculateCurrentUsage r).1.info
        f).nHeightLast := by
  induction files generalizing r with
  | nil => exact .inr (forall_mem_nil _)
  | cons f files ih =>
    obtain ⟨s, setFilesToPrune⟩ := r
    obtain ⟨hfile, hfiles⟩ := forall_mem_cons.mp hfiles
    rw [pruneLoop]
    dsimp only
    have hrest := pruned_pruneLoop t limit nPruneTarget files s.calculateCurrentUsage
      (s, setFilesToPrune) hfiles
    by_cases hempty : (s.info f).nSize = 0
    · rw [if_pos hempty, forall_mem_cons]
      exact (ih (s, setFilesToPrune) hfiles).imp_right (And.intro (hrest.skipped (.inl hempty)))
    · rw [if_neg hempty]
      by_cases hbelow : (s.calculateCurrentUsage + nBuffer) % 2 ^ 64 < nPruneTarget
      · rw [if_pos hbelow]
        exact .inl hbelow
      · rw [if_neg hbelow]
        by_cases hhigh : limit < (s.info f).nHeightLast
        · rw [if_pos hhigh, forall_mem_cons]
          exact (ih (s, setFilesToPrune) hfiles).imp_right (And.intro (hrest.skipped (.inr hhigh)))
        · rw [if_neg hhigh, forall_mem_cons, ← calculateCurrentUsage_pruneOneBlockFile t]
          have hafter := pruned_pruneLoop t limit nPruneTarget files
            (s.pruneOneBlockFile t f).calculateCurrentUsage
            (s.pruneOneBlockFile t f, setFilesToPrune ++ [f]) hfiles
          refine (ih (s.pruneOneBlockFile t f, setFilesToPrune ++ [f]) hfiles).imp_right
            (And.intro (hafter.skipped (.inl ?_)))
          rw [info_pruneOneBlockFile, if_pos rfl]
          rfl

end

theorem pruned_findFilesToPruneManual (nHeight nManualPruneHeight : Nat) :
    Pruned t (lastBlockWeCanPrune nHeight) s
      (s.findFilesToPruneManual t (some nHeight) nManualPruneHeight).1 :=
  (pruned_pruneManualLoop t _ (List.range s.nLastBlockFile) (s, [])
    fun _ hf => mem_range.mp hf).mono (Nat.min_le_right _ _)

theorem pruned_findFilesToPrune (nHeight nPruneTarget nPruneAfterHeight : Nat) :
    Pruned t (lastBlockWeCanPrune nHeight) s
      (s.findFilesToPrune t (some nHeight) nPruneTarget nPruneAfterHeight).1 := by
  unfold findFilesToPrune
  dsimp only
  split
  · exact .refl s
  · split
    · exact pruned_pruneLoop t _ nPruneTarget (List.range s.nLastBlockFile) _ (s, [])
        fun _ hf => mem_range.mp hf
    · exact .refl s

end

/-! ## Runs -/

/-- The states that the block files reach.  A new block has no data yet and is smaller than
a file.  `mapBlocksUnlinked` is changed by other functions as well. -/
inductive Reached (t : Ancestry ι) : List (Nat × Nat) → BlockFileState ι → Prop
  | start {files : List CBlockFileInfo} (hfiles : files = [] ∨ files = [.null]) :
      Reached t [] { vinfoBlockFile := files }
  | block {lost : List (Nat × Nat)} {s : BlockFileState ι} (h : Reached t lost s) {pindex : ι}
      {nAddSize nTime : Nat} (hnew : (s.entry pindex).haveData = false) (hpos : 0 < nAddSize)
      (hsize : nAddSize < MAX_BLOCKFILE_SIZE) :
      Reached t lost (s.acceptBlock t pindex nAddSize nTime false true)
  | blockLost {lost : List (Nat × Nat)} {s : BlockFileState ι} (h : Reached t lost s) {pindex : ι}
      {nAddSize nTime : Nat} {out_of_space fWritten : Bool}
      (hnew : (s.entry pindex).haveData = false) (hpos : 0 < nAddSize)
      (hsize : nAddSize < MAX_BLOCKFILE_SIZE) (hlost : out_of_space = true ∨ fWritten = false) :
      Reached t ((s.fileFor nAddSize, t.height pindex) :: lost)
        (s.acceptBlock t pindex nAddSize nTime out_of_space fWritten)
  | undo {lost : List (Nat × Nat)} {s : BlockFileState ι} (h : Reached t lost s) {pindex : ι}
      {nAddSize : Nat} {out_of_space fWritten : Bool}
      (hdata : (s.entry pindex).haveData = true) :
      Reached t lost (s.writeUndoDataForBlock pindex nAddSize out_of_space fWritten)
  | relink {lost : List (Nat × Nat)} {s : BlockFileState ι} (h : Reached t lost s)
      (mapBlocksUnlinked : List (ι × ι)) : Reached t lost { s with mapBlocksUnlinked }
  | prune {lost : List (Nat × Nat)} {s : BlockFileState ι} (h : Reached t lost s)
      {nHeight nPruneTarget nPruneAfterHeight : Nat}
      (hafter : BlockTree.MIN_BLOCKS_TO_KEEP ≤ nPruneAfterHeight)
      (htip : nPruneAfterHeight < nHeight) (hint : nHeight < 2 ^ 31) :
      Reached t lost (s.findFilesToPrune t (some nHeight) nPruneTarget nPruneAfterHeight).1
  | pruneManual {lost : List (Nat × Nat)} {s : BlockFileState ι} (h : Reached t lost s)
      {nHeight nManualPruneHeight nPruneAfterHeight : Nat}
      (hafter : BlockTree.MIN_BLOCKS_TO_KEEP ≤ nPruneAfterHeight)
      (htip : nPruneAfterHeight ≤ nHeight) (hint : nHeight < 2 ^ 31)
      (hmanual : 0 < nManualPruneHeight) :
      Reached t lost (s.findFilesToPruneManual t (some nHeight) nManualPruneHeight).1

theorem Reached.kept (h : Reached t lost s) : Kept t lost s := by
  induction h with
  | start hfiles =>
    refine ⟨Nat.zero_le _, ?_, fun f => .of_null ?_ fun _ hdata => Bool.noConfusion hdata,
      fun _ hundo => Bool.noConfusion hundo⟩
    · rcases hfiles with rfl | rfl
      · exact Nat.zero_le _
      · exact Nat.le_refl _
    · rcases hfiles with rfl | rfl
      · rfl
      · cases f <;> rfl
  | block h hnew hpos hsize ih => exact ih.acceptBlock hnew hpos hsize
  | blockLost h hnew hpos hsize hlost ih => exact ih.acceptBlock_lost hnew hpos hsize hlost
  | undo h hdata ih => exact ih.writeUndoDataForBlock hdata
  | relink h mapBlocksUnlinked ih =>
    exact ih.of_undo rfl rfl (fun _ => rfl) (fun _ => ⟨rfl, rfl⟩) ih.undo
  | prune h hafter htip hint ih => exact (pruned_findFilesToPrune t _ _ _ _).kept ih
  | pruneManual h hafter htip hint hmanual ih =>
    exact (pruned_findFilesToPruneManual t _ _ _).kept ih

theorem findFilesToPrune_usage (h : Kept t lost s) {nHeight nPruneTarget nPruneAfterHeight : Nat}
    (htip : nPruneAfterHeight < nHeight) (hmode : 0 < nPruneTarget) :
    let s' := (s.findFilesToPrune t (some nHeight) nPruneTarget nPruneAfterHeight).1
    (s'.calculateCurrentUsage + nBuffer) % 2 ^ 64 < nPruneTarget ∨
    ∀ f ≠ s'.nLastBlockFile, (s'.info f).nSize ≠ 0 →
      lastBlockWeCanPrune nHeight < (s'.info f).nHeightLast := by
  intro s'
  have hp : Pruned t (lastBlockWeCanPrune nHeight) s s' := pruned_findFilesToPrune t s _ _ _
  have hbefore : ∀ f ≠ s'.nLastBlockFile, (s'.info f).nSize ≠ 0 → f < s.nLastBlockFile := by
    intro f hlast hsize
    rw [hp.nLastBlockFile_eq] at hlast
    have hlength := (hp.kept h).length_le
    rw [hp.nLastBlockFile_eq] at hlength
    by_contra hge
    refine hsize ?_
    rw [info_of_length_le (by omega)]
    rfl
  have hs' : s' = if nPruneTarget ≤ (s.calculateCurrentUsage + nBuffer) % 2 ^ 64 then
      (pruneLoop t (lastBlockWeCanPrune nHeight) nPruneTarget (List.range s.nLastBlockFile)
        s.calculateCurrentUsage (s, [])).1
      else s := by
    have hguard : ¬ (nPruneTarget = 0 ∨ nHeight ≤ nPruneAfterHeight) := by omega
    dsimp only [s', findFilesToPrune]
    rw [if_neg hguard, apply_ite Prod.fst]
  clear_value s'
  by_cases husage : nPruneTarget ≤ (s.calculateCurrentUsage + nBuffer) % 2 ^ 64
  · rw [if_pos husage] at hs'
    rw [hs'] at hbefore ⊢
    refine (pruneLoop_usage t (lastBlockWeCanPrune nHeight) nPruneTarget
      (List.range s.nLastBlockFile) (s, []) fun _ hf => mem_range.mp hf).imp_right ?_
    intro hseen f hlast hsize
    exact (hseen f (mem_range.mpr (hbefore f hlast hsize))).resolve_left hsize
  · rw [if_neg husage] at hs'
    rw [hs']
    exact .inl (Nat.not_le.mp husage)

/-- The statistics of a file bound the heights of the blocks in it, pruning spares recent
blocks, and `FindFilesToPrune` prunes as much as it may. -/
theorem pruning_keeps_recent (h : Reached t lost s) :
    (∀ pindex, (s.entry pindex).haveData = true →
      (s.info (s.entry pindex).nFile).nHeightFirst ≤ t.height pindex ∧
        t.height pindex ≤ (s.info (s.entry pindex).nFile).nHeightLast) ∧
    ∀ nHeight nPruneAfterHeight, BlockTree.MIN_BLOCKS_TO_KEEP ≤ nPruneAfterHeight →
      nPruneAfterHeight < nHeight → nHeight < 2 ^ 31 →
      (∀ pindex, nHeight - BlockTree.MIN_BLOCKS_TO_KEEP < t.height pindex →
        (∀ nPruneTarget,
          let s' := (s.findFilesToPrune t (some nHeight) nPruneTarget nPruneAfterHeight).1
          (s'.entry pindex).haveData = (s.entry pindex).haveData ∧
            (s'.entry pindex).haveUndo = (s.entry pindex).haveUndo) ∧
        (∀ nManualPruneHeight,
          let s' := (s.findFilesToPruneManual t (some nHeight) nManualPruneHeight).1
          (s'.entry pindex).haveData = (s.entry pindex).haveData ∧
            (s'.entry pindex).haveUndo = (s.entry pindex).haveUndo)) ∧
      ∀ nPruneTarget, 0 < nPruneTarget →
        let s' := (s.findFilesToPrune t (some nHeight) nPruneTarget nPruneAfterHeight).1
        ((s'.calculateCurrentUsage + nBuffer) % 2 ^ 64 < nPruneTarget ∧
          (s'.totalUsage + nBuffer < 2 ^ 64 → s'.totalUsage + nBuffer < nPruneTarget)) ∨
        ∀ f ≠ s'.nLastBlockFile, (s'.info f).nSize ≠ 0 →
          (∃ pindex, (s'.entry pindex).haveData = true ∧ (s'.entry pindex).nFile = f ∧
            nHeight - BlockTree.MIN_BLOCKS_TO_KEEP < t.height pindex) ∨
          ∃ height, (f, height) ∈ lost ∧ nHeight - BlockTree.MIN_BLOCKS_TO_KEEP < height := by
  have hkept := h.kept
  refine ⟨fun pindex hdata => ((hkept.file _).within pindex hdata rfl).2, ?_⟩
  intro nHeight nPruneAfterHeight hafter htip hint
  have hlimit := lastBlockWeCanPrune_eq (hafter.trans htip.le) hint
  refine ⟨fun pindex hheight => ⟨fun nPruneTarget => ?_, fun nManualPruneHeight => ?_⟩, ?_⟩
  · exact (pruned_findFilesToPrune t s _ _ _).flags hkept (hlimit ▸ hheight)
  · exact (pruned_findFilesToPruneManual t s _ _).flags hkept (hlimit ▸ hheight)
  · intro nPruneTarget hmode s'
    have hkept' : Kept t lost s' := (pruned_findFilesToPrune t s _ _ _).kept hkept
    refine (findFilesToPrune_usage hkept htip hmode).imp (fun hbelow => ⟨hbelow, ?_⟩) ?_
    · intro hfit
      rw [calculateCurrentUsage_eq, Nat.mod_add_mod, Nat.mod_eq_of_lt hfit] at hbelow
      exact hbelow
    · intro hhigh f hlast hsize
      have hlow := hhigh f hlast hsize
      rw [hlimit] at hlow
      rcases (hkept'.file f).attained hsize with ⟨pindex, hdata, hfile, heq⟩ | hmem
      · exact .inl ⟨pindex, hdata, hfile, heq ▸ hlow⟩
      · exact .inr ⟨_, hmem, hlow⟩

namespace TwoFiles

def row : Ancestry Nat where
  root := 0
  parent
    | 0 => none
    | i + 1 => some i
  height := id
  parent_eq_none := by
    intro i h
    cases i with
    | zero => rfl
    | succ i => cases h
  height_root := rfl
  height_parent := by
    intro i j h
    cases i with
    | zero => cases h
    | succ i =>
      cases h
      rfl

def files : BlockFileState Nat :=
  (({} : BlockFileState Nat).acceptBlock row 5 0x7ffffff 100 false true).acceptBlock row 2000 300
    200 false true

theorem pruning_keeps_recent_row :
    ((files.findFilesToPrune row (some 2000) 1 1000).1.entry 5).haveData = false ∧
    ((files.findFilesToPrune row (some 2000) 1 1000).1.entry 2000).haveData = true := by
  have hreached : Reached row [] files :=
    .block (.block (.start (.inl rfl)) rfl (by decide) (by decide)) (by decide) (by decide)
      (by decide)
  obtain ⟨-, hprune⟩ := pruning_keeps_recent hreached
  obtain ⟨hflags, -⟩ := hprune 2000 1000 (by decide) (by decide) (by decide)
  obtain ⟨hauto, -⟩ := hflags 2000 (by decide)
  exact ⟨by decide +kernel, (hauto 1).1.trans (by decide)⟩

end TwoFiles

end BlockFileState

end Verge
