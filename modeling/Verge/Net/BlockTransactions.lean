import Mathlib.Data.Fintype.Card
import Verge.Primitives
import Verge.Serialize

/-!
# Requests for the transactions of a block

`BlockTransactionsRequest` of `blockencodings.h` names transactions by their
indexes, which are written as differences.  The running offset of the reader has
16 bits: after index 65535 it is 0 again, and smaller indexes are accepted.
-/

namespace Verge

open Foundation Reader

structure BlockTransactionsRequest where
  blockhash : uint256
  indexes : List (Fin 65536)
  deriving DecidableEq, Repr

namespace BlockTransactionsRequest

/-- The numbers that are written; the difference is an `int` made a `uint64_t`. -/
def differences : Int → List (Fin 65536) → List Nat
  | _, [] => []
  | next, index :: rest => ((index.val - next) % 2 ^ 64).toNat :: differences (index.val + 1) rest

def serialize (req : BlockTransactionsRequest) : List UInt8 :=
  writeLE 32 req.blockhash.toNat ++ (writeCompactSize req.indexes.length ++
    (differences 0 req.indexes).flatMap writeCompactSize)

def readIndex : ByteReader Nat := do
  let index ← readCompactSize
  if 0xFFFF < index then throwRead "index overflowed 16 bits" else pure index

def addOffsets : Nat → List Nat → Except Failure (List (Fin 65536))
  | _, [] => .ok []
  | offset, index :: rest =>
    if h : index + offset < 65536 then do
      let indexes ← addOffsets ((index + offset + 1) % 65536) rest
      return ⟨index + offset, h⟩ :: indexes
    else .error (.throws "indexes overflowed 16 bits")

/-- The block hash and the numbers as they stand in the message. -/
def readDifferences : ByteReader (Nat × List Nat) := do
  let blockhash ← readLE 32
  let indexes_size ← readCompactSize
  -- the source makes room for a thousand indexes at a time
  let indexes ← many readIndex indexes_size
  return (blockhash, indexes)

def unserialize : ByteReader BlockTransactionsRequest := do
  let (blockhash, indexes) ← readDifferences
  let indexes ← addOffsets 0 indexes
  return ⟨BitVec.ofNat 256 blockhash, indexes⟩

/-- No number is read after the one that takes the offset to `2 ^ 16`: the first `k` numbers
take it to their sum and `k` more. -/
def KeepsOffset (offset : Nat) (numbers : List Nat) : Prop :=
  ∀ k < numbers.length, offset + (numbers.take k).sum + k ≠ 65536

instance (offset : Nat) (numbers : List Nat) : Decidable (KeepsOffset offset numbers) :=
  inferInstanceAs (Decidable (∀ k < numbers.length, _))

variable {offset number : Nat} {numbers : List Nat} {indexes : List (Fin 65536)}

theorem keepsOffset_cons (hoffset : offset < 65536) : KeepsOffset offset (number :: numbers) ↔
    KeepsOffset (number + offset + 1) numbers := by
  refine ⟨fun h k hk => ?_, fun h k hk => ?_⟩
  · have := h (k + 1) (Nat.succ_lt_succ hk)
    rw [List.take_succ_cons, List.sum_cons] at this
    omega
  · cases k with
    | zero => simpa using hoffset.ne
    | succ k =>
      have := h k (Nat.lt_of_succ_lt_succ hk)
      rw [List.take_succ_cons, List.sum_cons]
      omega

/-- The offset of the next number is the one that `KeepsOffset` follows, unless nothing
follows. -/
theorem nextOffset_of_keepsOffset (hfits : number + offset < 65536)
    (h : KeepsOffset (number + offset + 1) numbers) :
    numbers = [] ∨ (number + offset + 1 < 65536 ∧
      (number + offset + 1) % 65536 = number + offset + 1) := by
  cases numbers with
  | nil => exact .inl rfl
  | cons _ _ =>
    have := h 0 (Nat.succ_pos _)
    rw [List.take_zero, List.sum_nil] at this
    exact .inr ⟨by omega, Nat.mod_eq_of_lt (by omega)⟩

theorem addOffsets_eq_ok (hoffset : offset < 65536) (h : addOffsets offset numbers = .ok indexes)
    (hkeeps : KeepsOffset offset numbers) : indexes.Pairwise (· < ·) ∧
      (∀ i ∈ indexes, offset ≤ i.val) ∧ differences offset indexes = numbers := by
  induction numbers generalizing offset indexes with
  | nil =>
    cases h
    simp [differences]
  | cons number numbers ih =>
    unfold addOffsets at h
    split at h
    case isFalse => cases h
    case isTrue hfits =>
      obtain ⟨tail, htail, h⟩ := bind_eq_ok.mp h
      cases h
      have hnumber : (((number + offset : Nat) - offset : Int) % 2 ^ 64).toNat = number := by omega
      have hrest := (keepsOffset_cons hoffset).mp hkeeps
      rcases nextOffset_of_keepsOffset hfits hrest with rfl | ⟨hlt, hmod⟩
      · cases htail
        exact ⟨List.pairwise_singleton _ _, by simp, congrArg (· :: []) hnumber⟩
      · rw [hmod] at htail
        obtain ⟨hpairs, hle, rfl⟩ := ih hlt htail hrest
        refine ⟨List.pairwise_cons.mpr ⟨fun j hj => hle j hj, hpairs⟩, ?_, ?_⟩
        · refine List.forall_mem_cons.mpr ⟨Nat.le_add_left _ _, fun j hj => ?_⟩
          have := hle j hj
          omega
        · rw [differences, hnumber]
          rfl

/-- After index 65535 the next index, whatever it is, is not above it. -/
theorem keepsOffset_of_addOffsets (hoffset : offset < 65536)
    (h : addOffsets offset numbers = .ok indexes) (hpairs : indexes.Pairwise (· < ·)) :
    KeepsOffset offset numbers := by
  induction numbers generalizing offset indexes with
  | nil => exact fun k hk => absurd hk (Nat.not_lt_zero k)
  | cons number numbers ih =>
    unfold addOffsets at h
    split at h
    case isFalse => cases h
    case isTrue hfits =>
      obtain ⟨tail, htail, h⟩ := bind_eq_ok.mp h
      cases h
      obtain ⟨hhead, hpairs⟩ := List.pairwise_cons.mp hpairs
      rw [keepsOffset_cons hoffset]
      have hih := ih (Nat.mod_lt _ (by decide)) htail hpairs
      by_cases hlast : number + offset + 1 = 65536
      · -- the offset is 0 again, so an index that follows would have to be above 65535
        cases numbers with
        | nil => exact fun k hk => absurd hk (Nat.not_lt_zero k)
        | cons next numbers =>
          unfold addOffsets at htail
          split at htail
          case isFalse => cases htail
          case isTrue hnext =>
            obtain ⟨_, -, htail⟩ := bind_eq_ok.mp htail
            cases htail
            have hlt : number + offset < next + (number + offset + 1) % 65536 :=
              hhead _ List.mem_cons_self
            omega
      · rwa [Nat.mod_eq_of_lt (by omega)] at hih

theorem addOffsets_differences (h : indexes.Pairwise (· < ·))
    (hle : ∀ i ∈ indexes, offset ≤ i.val) :
    addOffsets offset (differences offset indexes) = .ok indexes ∧
      ∀ number ∈ differences offset indexes, number ≤ 0xFFFF := by
  induction indexes generalizing offset with
  | nil => exact ⟨rfl, by simp [differences]⟩
  | cons i indexes ih =>
    obtain ⟨hhead, htail⟩ := List.pairwise_cons.mp h
    have hi := hle i List.mem_cons_self
    have hlt := i.isLt
    have hnumber : (((i.val : Int) - offset) % 2 ^ 64).toNat = i.val - offset := by omega
    obtain ⟨hadd, hnumbers⟩ := ih htail fun j hj => Nat.succ_le_of_lt (hhead j hj)
    have hrest : addOffsets ((i.val + 1) % 65536) (differences (i.val + 1 : Nat) indexes) =
        .ok indexes := by
      cases indexes with
      | nil => rfl
      | cons j indexes =>
        have hj : i.val < j.val := hhead j List.mem_cons_self
        rwa [Nat.mod_eq_of_lt (by omega)]
    rw [differences, hnumber]
    refine ⟨?_, List.forall_mem_cons.mpr ⟨by omega, hnumbers⟩⟩
    rw [addOffsets, dif_pos (by omega)]
    simp only [Nat.sub_add_cancel hi]
    rw [show ((i.val : Int) + 1) = (i.val + 1 : Nat) by omega, hrest]
    rfl

theorem length_differences (next : Int) : (differences next indexes).length = indexes.length := by
  induction indexes generalizing next with
  | nil => rfl
  | cons i indexes ih => simp [differences, ih]

theorem canonical_readIndex : Canonical readIndex writeCompactSize := by
  intro input index rest h
  obtain ⟨m, mid, hread, h⟩ := run_bind_eq_ok.mp h
  split at h
  case isTrue => cases h
  case isFalse =>
    cases h
    exact canonical_readCompactSize hread

theorem reads_index {number : Nat} (h : number ≤ 0xFFFF) :
    Reads readIndex (writeCompactSize number) number := by
  refine (reads_compactSize (h.trans (by decide))).bind_nil ?_
  rw [if_neg (by omega)]
  exact reads_pure number

/-- The bytes are the serialization of what they are read as exactly if the numbers in them
are the differences of the indexes. -/
theorem serialize_of_readDifferences {bytes rest : List UInt8} {blockhash : Nat}
    (h : readDifferences.run bytes = .ok ((blockhash, numbers), rest))
    (hdifferences : differences 0 indexes = numbers) :
    bytes = (BlockTransactionsRequest.mk (BitVec.ofNat 256 blockhash) indexes).serialize ++
      rest := by
  obtain ⟨_, afterHash, hhash, h⟩ := run_bind_eq_ok.mp h
  obtain ⟨size, afterSize, hsize, h⟩ := run_bind_eq_ok.mp h
  obtain ⟨_, afterNumbers, hnumbers, h⟩ := run_bind_eq_ok.mp h
  cases h
  obtain ⟨hlt, rfl⟩ := readLE_run hhash
  obtain ⟨hlength, rfl⟩ := canonical_readIndex.many hnumbers
  obtain rfl := canonical_readCompactSize hsize
  subst hdifferences
  rw [length_differences] at hlength
  simp only [serialize, BitVec.toNat_ofNat, hlength, List.append_assoc]
  rw [Nat.mod_eq_of_lt (show blockhash < 2 ^ 256 from hlt)]

theorem reads_differences {blockhash : Nat} (hhash : blockhash < 256 ^ 32)
    (hlength : numbers.length ≤ 65536) (hnumbers : ∀ number ∈ numbers, number ≤ 0xFFFF) :
    Reads readDifferences (writeLE 32 blockhash ++ (writeCompactSize numbers.length ++
      numbers.flatMap writeCompactSize)) (blockhash, numbers) := by
  have hread := reads_many _ fun number hnumber => reads_index (hnumbers number hnumber)
  rw [List.map_id'] at hread
  exact (reads_LE 32 hhash).bind ((reads_compactSize (hlength.trans (by decide))).bind
    (hread.bind_nil fun _ => rfl))

theorem reads_request {req : BlockTransactionsRequest} (h : req.indexes.Pairwise (· < ·)) :
    Reads unserialize req.serialize req := by
  have hle : ∀ i ∈ req.indexes, 0 ≤ i.val := fun i _ => Nat.zero_le i
  obtain ⟨hadd, hnumbers⟩ := addOffsets_differences h hle
  rw [Nat.cast_zero] at hadd hnumbers
  have hlength : req.indexes.length ≤ 65536 := by
    simpa using List.Nodup.length_le_card (h.imp ne_of_lt)
  rw [← length_differences 0] at hlength
  have hread := reads_differences req.blockhash.isLt hlength hnumbers
  rw [length_differences] at hread
  refine hread.bind_nil fun rest => ?_
  simp only [hadd, BitVec.ofNat_toNat, BitVec.setWidth_eq]
  rfl

/-- A request that is accepted has increasing indexes and is their encoding exactly if no
proper part of the numbers read adds up, with one for each of them, to `2 ^ 16`.  Increasing
indexes are read back. -/
theorem unserialize_canonical_iff {bytes rest : List UInt8} {blockhash : Nat}
    {req : BlockTransactionsRequest}
    (hread : readDifferences.run bytes = .ok ((blockhash, numbers), rest))
    (h : unserialize.run bytes = .ok (req, rest)) :
    (req.indexes.Pairwise (· < ·) ∧ bytes = req.serialize ++ rest ↔ KeepsOffset 0 numbers) ∧
    ∀ other : BlockTransactionsRequest, other.indexes.Pairwise (· < ·) →
      Reads unserialize other.serialize other := by
  refine ⟨?_, fun other hother => reads_request hother⟩
  obtain ⟨_, _, hread', h⟩ := run_bind_eq_ok.mp h
  cases hread.symm.trans hread'
  obtain ⟨indexes, _, hoffsets, h⟩ := run_bind_eq_ok.mp h
  obtain ⟨_, hadd, heq⟩ := bind_eq_ok.mp hoffsets
  cases heq
  cases h
  refine ⟨fun ⟨hpairs, _⟩ => keepsOffset_of_addOffsets (by decide) hadd hpairs, fun hkeeps => ?_⟩
  obtain ⟨hpairs, -, hdifferences⟩ := addOffsets_eq_ok (by decide) hadd hkeeps
  exact ⟨hpairs, serialize_of_readDifferences hread hdifferences⟩

/-- The numbers 1 and 65533 take the offset to `2 ^ 16` with the last of them. -/
theorem unserialize_canonical_iff_lastIndex :
    let req : BlockTransactionsRequest := ⟨0, [1, 65535]⟩
    req.indexes.Pairwise (· < ·) ∧
      writeLE 32 0 ++ [2, 1, 253, 253, 255] = req.serialize ++ ([] : List UInt8) :=
  (unserialize_canonical_iff
    (show readDifferences.run _ = .ok ((0, [1, 65533]), []) from rfl) rfl).1.mpr (by decide)

/-- Two numbers, 65535 and 0, are read as the indexes 65535 and 0. -/
theorem unserialize_not_increasing : ∃ bytes req, unserialize.run bytes = .ok (req, []) ∧
    ¬req.indexes.Pairwise (· < ·) ∧ req.serialize ≠ bytes :=
  ⟨writeLE 32 0 ++ [2, 253, 255, 255, 0], ⟨0, [65535, 0]⟩, rfl, by decide, by decide⟩

end BlockTransactionsRequest

end Verge
