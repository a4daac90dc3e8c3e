import Mathlib.Data.List.Count
import Verge.Chain.ChainState
import Verge.Foundation.AssocMap

/-!
# Compact blocks

`blockencodings.cpp`: a compact block names its transactions by short ids, and
`PartiallyDownloadedBlock` collects those that the node has.  An access out of
the range of a vector and a loop that does not end are failures of the model
beside the assertions of the source.
-/

namespace Verge

open Foundation List

inductive Crash where
  | assertion (expression : String)
  | outOfRange
  | endless
  deriving DecidableEq, Repr

inductive ReadStatus where
  | READ_STATUS_OK
  | READ_STATUS_INVALID
  | READ_STATUS_FAILED
  | READ_STATUS_CHECKBLOCK_FAILED
  deriving DecidableEq, Repr

/-- `index` is a `uint16_t`, the offset from the last prefilled transaction. -/
structure PrefilledTransaction where
  index : Fin 65536
  tx : CTransaction
  deriving DecidableEq, Repr

structure CBlockHeaderAndShortTxIDs where
  header : CBlockHeader
  nonce : UInt64
  vchBlockSig : List UInt8
  shorttxids : List UInt64
  prefilledtxn : List PrefilledTransaction
  deriving DecidableEq, Repr

def CBlockHeaderAndShortTxIDs.blockTxCount (cmpctblock : CBlockHeaderAndShortTxIDs) : Nat :=
  cmpctblock.shorttxids.length + cmpctblock.prefilledtxn.length

/-- What the reconstruction takes from elsewhere: the keyed hash of a
transaction hash, the size of the bucket that the latest short id is in, the
witness hash and `CheckBlock`. -/
structure BlockEncoding where
  getShortID : CBlockHeader → UInt64 → uint256 → UInt64
  bucketSize : Nat → List UInt64 → Nat
  getWitnessHash : CTransaction → uint256
  checkBlock : CBlock → Verdict

structure PartiallyDownloadedBlock where
  header : CBlockHeader
  vchBlockSig : List UInt8
  txn_available : List (Option CTransaction)
  mempool_count : Nat
  deriving DecidableEq, Repr

namespace PartiallyDownloadedBlock

def new : PartiallyDownloadedBlock := ⟨.null, [], [], 0⟩

/-! ## `InitData` -/

def MAX_TRANSACTIONS : Nat := 4000000 / 40

/-- The loop over the prefilled transactions: whether all were placed.  `i` of
them are placed already, the last at `lastprefilledindex`. -/
def placePrefilled (nShortIDs i : Nat) (lastprefilledindex : Int) :
    List PrefilledTransaction → List (Option CTransaction) →
      Except Crash (Bool × List (Option CTransaction))
  | [], txn_available => .ok (true, txn_available)
  | prefilled :: rest, txn_available =>
    let index := lastprefilledindex + prefilled.index + 1
    if prefilled.tx.isNull then .ok (false, txn_available)
    else if 65535 < index then .ok (false, txn_available)
    else if (nShortIDs + i : Nat) < index then .ok (false, txn_available)
    else if txn_available.length ≤ index.toNat then .error .outOfRange
    else
      placePrefilled nShortIDs (i + 1) index rest
        (txn_available.set index.toNat (some prefilled.tx))

/-- `while (txn_available[i + index_offset]) index_offset++`.  The offset is a
`uint16_t`: after as many rounds as it has values the loop has come round. -/
def skipPrefilled (txn_available : List (Option CTransaction)) (i : Nat) :
    Nat → Nat → Except Crash Nat
  | 0, _ => .error .endless
  | n + 1, index_offset =>
    match txn_available[i + index_offset]? with
    | none => .error .outOfRange
    | some none => .ok index_offset
    | some (some _) => skipPrefilled txn_available i n ((index_offset + 1) % 65536)

/-- The loop that gives the short ids their positions; without a table the
status is `READ_STATUS_FAILED`. -/
def placeShortIDs (env : BlockEncoding) (nShortIDs : Nat)
    (txn_available : List (Option CTransaction)) :
    Nat → Nat → List UInt64 → AssocMap UInt64 Nat → Except Crash (Option (AssocMap UInt64 Nat))
  | _, _, [], shorttxids => .ok (some shorttxids)
  | i, index_offset, id :: rest, shorttxids =>
    match skipPrefilled txn_available i 65536 index_offset with
    | .error crash => .error crash
    | .ok index_offset =>
      let shorttxids := shorttxids.insert id ((i + index_offset) % 65536)
      if 12 < env.bucketSize nShortIDs shorttxids.keys then .ok none
      else placeShortIDs env nShortIDs txn_available (i + 1) index_offset rest shorttxids

structure Slots where
  txn_available : List (Option CTransaction)
  have_txn : List Bool
  mempool_count : Nat

/-- A known transaction whose short id may be one of the block's.  `clashes`
says whether it has to displace the transaction that is held at its position. -/
def offer (clashes : CTransaction → CTransaction → Bool) (shorttxids : AssocMap UInt64 Nat)
    (shortid : UInt64) (tx : CTransaction) (slots : Slots) : Except Crash Slots :=
  match shorttxids.lookup shortid with
  | none => .ok slots
  | some position =>
    match slots.have_txn[position]?, slots.txn_available[position]? with
    | some false, some _ =>
      .ok { txn_available := slots.txn_available.set position (some tx)
            have_txn := slots.have_txn.set position true
            mempool_count := slots.mempool_count + 1 }
    | some true, some (some held) =>
      if clashes held tx then
        .ok { slots with
          txn_available := slots.txn_available.set position none
          mempool_count := slots.mempool_count - 1 }
      else .ok slots
    | some true, some none => .ok slots
    | _, _ => .error .outOfRange

def offerAll (clashes : CTransaction → CTransaction → Bool) (getShortID : uint256 → UInt64)
    (shorttxids : AssocMap UInt64 Nat) : List (uint256 × CTransaction) → Slots → Except Crash Slots
  | [], slots => .ok slots
  | (hash, tx) :: rest, slots =>
    match offer clashes shorttxids (getShortID hash) tx slots with
    | .error crash => .error crash
    | .ok slots =>
      if slots.mempool_count = shorttxids.entries.length then .ok slots
      else offerAll clashes getShortID shorttxids rest slots

/-- The part of `InitData` that looks for the transactions: in the mempool, where equal
short ids displace each other, then in the extra transactions, where one may come again. -/
def findTransactions (env : BlockEncoding) (cmpctblock : CBlockHeaderAndShortTxIDs)
    (vTxHashes extra_txn : List (uint256 × CTransaction)) (shorttxids : AssocMap UInt64 Nat)
    (self : PartiallyDownloadedBlock) : Except Crash PartiallyDownloadedBlock :=
  let getShortID := env.getShortID cmpctblock.header cmpctblock.nonce
  let slots : Slots :=
    ⟨self.txn_available, List.replicate self.txn_available.length false, self.mempool_count⟩
  match offerAll (fun _ _ => true) getShortID shorttxids vTxHashes slots with
  | .error crash => .error crash
  | .ok slots =>
    match offerAll (fun held tx => env.getWitnessHash held != env.getWitnessHash tx)
        getShortID shorttxids extra_txn slots with
    | .error crash => .error crash
    | .ok slots =>
      .ok { self with
        txn_available := slots.txn_available
        mempool_count := slots.mempool_count }

def initData (env : BlockEncoding) (cmpctblock : CBlockHeaderAndShortTxIDs)
    (vTxHashes extra_txn : List (uint256 × CTransaction)) (self : PartiallyDownloadedBlock) :
    Except Crash (ReadStatus × PartiallyDownloadedBlock) :=
  if cmpctblock.header.isNull ||
      (cmpctblock.shorttxids.isEmpty && cmpctblock.prefilledtxn.isEmpty) then
    .ok (.READ_STATUS_INVALID, self)
  else if MAX_TRANSACTIONS < cmpctblock.blockTxCount then .ok (.READ_STATUS_INVALID, self)
  else if !(self.header.isNull && self.txn_available.isEmpty) then
    .error (.assertion "header.IsNull() && txn_available.empty()")
  else
    let self : PartiallyDownloadedBlock :=
      { self with
        header := cmpctblock.header
        vchBlockSig := cmpctblock.vchBlockSig }
    match placePrefilled cmpctblock.shorttxids.length 0 (-1) cmpctblock.prefilledtxn
        (List.replicate cmpctblock.blockTxCount none) with
    | .error crash => .error crash
    | .ok (placed, txn_available) =>
      let self : PartiallyDownloadedBlock := { self with txn_available := txn_available }
      if !placed then .ok (.READ_STATUS_INVALID, self)
      else
        match placeShortIDs env cmpctblock.shorttxids.length txn_available 0 0
            cmpctblock.shorttxids ∅ with
        | .error crash => .error crash
        | .ok none => .ok (.READ_STATUS_FAILED, self)
        | .ok (some shorttxids) =>
          if shorttxids.entries.length ≠ cmpctblock.shorttxids.length then
            .ok (.READ_STATUS_FAILED, self)
          else
            (findTransactions env cmpctblock vTxHashes extra_txn shorttxids self).map
              fun self => (.READ_STATUS_OK, self)

/-! ## `IsTxAvailable` and `FillBlock` -/

def isTxAvailable (self : PartiallyDownloadedBlock) (index : Nat) : Except Crash Bool :=
  if self.header.isNull then .error (.assertion "!header.IsNull()")
  else
    match self.txn_available[index]? with
    | none => .error (.assertion "index < txn_available.size()")
    | some tx => .ok tx.isSome

/-- The loop of `FillBlock`: the transactions of the block and the rest of the
missing ones, or the vector as it is left when one is lacking. -/
def fillLoop : List (Option CTransaction) → List CTransaction →
    Except (List (Option CTransaction)) (List CTransaction × List CTransaction)
  | [], vtx_missing => .ok ([], vtx_missing)
  | none :: txn_available, [] => .error (none :: txn_available)
  | none :: txn_available, tx :: vtx_missing =>
    match fillLoop txn_available vtx_missing with
    | .error left => .error (none :: left)
    | .ok (vtx, rest) => .ok (tx :: vtx, rest)
  | some tx :: txn_available, vtx_missing =>
    match fillLoop txn_available vtx_missing with
    | .error left => .error (none :: left)
    | .ok (vtx, rest) => .ok (tx :: vtx, rest)

/-- `FillBlock`; the block is read only with a status that is not
`READ_STATUS_INVALID`. -/
def fillBlock (env : BlockEncoding) (vtx_missing : List CTransaction)
    (self : PartiallyDownloadedBlock) :
    Except Crash (ReadStatus × CBlock × PartiallyDownloadedBlock) :=
  let block : CBlock := ⟨self.header, [], self.vchBlockSig, false⟩
  if self.header.isNull then .error (.assertion "!header.IsNull()")
  else
    match fillLoop self.txn_available vtx_missing with
    | .error left => .ok (.READ_STATUS_INVALID, block, { self with txn_available := left })
    | .ok (vtx, rest) =>
      let block : CBlock := { block with vtx := vtx }
      let self : PartiallyDownloadedBlock :=
        { self with
          header := .null
          txn_available := [] }
      if !rest.isEmpty then .ok (.READ_STATUS_INVALID, block, self)
      else
        match env.checkBlock block with
        | .valid => .ok (.READ_STATUS_OK, block, self)
        | .invalid true => .ok (.READ_STATUS_FAILED, block, self)
        | _ => .ok (.READ_STATUS_CHECKBLOCK_FAILED, block, self)

/-! ## Positions

The prefilled transactions leave at least as many positions free as there are
short ids, and all of them are below `2 ^ 16`. -/

section Positions

variable {txn_available : List (Option CTransaction)}

def freeFrom (txn_available : List (Option CTransaction)) (k : Nat) : Nat :=
  (txn_available.drop k).countP Option.isNone

theorem freeFrom_of_some {k : Nat} {tx : CTransaction} (h : txn_available[k]? = some (some tx)) :
    freeFrom txn_available k = freeFrom txn_available (k + 1) := by
  obtain ⟨hk, hget⟩ := List.getElem?_eq_some_iff.mp h
  rw [freeFrom, drop_eq_getElem_cons hk, hget, countP_cons_of_neg (by simp)]
  rfl

theorem freeFrom_of_none {k : Nat} (h : txn_available[k]? = some none) :
    freeFrom txn_available k = freeFrom txn_available (k + 1) + 1 := by
  obtain ⟨hk, hget⟩ := List.getElem?_eq_some_iff.mp h
  rw [freeFrom, drop_eq_getElem_cons hk, hget, countP_cons_of_pos (by simp)]
  rfl

theorem freeFrom_of_length_le {k : Nat} (h : txn_available.length ≤ k) :
    freeFrom txn_available k = 0 := by
  simp [freeFrom, drop_eq_nil_of_le h]

theorem freeFrom_of_filled {n : Nat}
    (h : ∀ k, k < n → ∃ tx, txn_available[k]? = some (some tx)) :
    freeFrom txn_available 0 = freeFrom txn_available n := by
  induction n with
  | zero => rfl
  | succ n ih =>
    obtain ⟨tx, hget⟩ := h n (Nat.lt_succ_self n)
    rw [ih fun k hk => h k (Nat.lt_succ_of_lt hk), freeFrom_of_some hget]

theorem freeFrom_replicate (n : Nat) : freeFrom (List.replicate n none) 0 = n := by
  simp [freeFrom, countP_replicate]

theorem freeFrom_le (txn_available : List (Option CTransaction)) (k : Nat) :
    freeFrom txn_available k ≤ txn_available.length - k := by
  rw [← length_drop]
  exact countP_le_length

theorem freeFrom_set_le (txn_available : List (Option CTransaction)) (k : Nat)
    (tx : CTransaction) :
    freeFrom txn_available 0 ≤ freeFrom (txn_available.set k (some tx)) 0 + 1 := by
  simp only [freeFrom, drop_zero]
  by_cases hk : k < txn_available.length
  · rw [countP_set hk]
    have hle : (if txn_available[k].isNone = true then 1 else 0) ≤ 1 := by
      split <;> simp
    simp only [Option.isNone_some, Bool.false_eq_true, if_false]
    omega
  · rw [set_eq_of_length_le (by omega)]
    omega

/-- The prefilled transactions are where the offsets of the short ids can
reach. -/
def FilledBelow (bound : Nat) (txn_available : List (Option CTransaction)) : Prop :=
  ∀ k tx, txn_available[k]? = some (some tx) → k < bound

variable (hbelow : FilledBelow 65536 txn_available)

include hbelow

theorem placePrefilled_spec {nShortIDs i : Nat} {last : Int}
    {prefilledtxn : List PrefilledTransaction} (hlast : -1 ≤ last)
    (hlength : txn_available.length = nShortIDs + i + prefilledtxn.length) :
    ∃ placed txn_available',
      placePrefilled nShortIDs i last prefilledtxn txn_available = .ok (placed, txn_available') ∧
      txn_available'.length = txn_available.length ∧ FilledBelow 65536 txn_available' ∧
      freeFrom txn_available 0 ≤ freeFrom txn_available' 0 + prefilledtxn.length := by
  induction prefilledtxn generalizing i last txn_available with
  | nil => exact ⟨true, txn_available, rfl, rfl, hbelow, Nat.le_refl _⟩
  | cons prefilled rest ih =>
    unfold placePrefilled
    dsimp only
    rw [length_cons] at hlength
    split_ifs with hnull hlarge hgap hrange
    · exact ⟨false, txn_available, rfl, rfl, hbelow, by omega⟩
    · exact ⟨false, txn_available, rfl, rfl, hbelow, by omega⟩
    · exact ⟨false, txn_available, rfl, rfl, hbelow, by omega⟩
    · omega
    · have hbelow' : FilledBelow 65536
          (txn_available.set (last + prefilled.index + 1).toNat (some prefilled.tx)) := by
        intro k tx hk
        rw [List.getElem?_set] at hk
        split at hk
        case isTrue heq => omega
        case isFalse => exact hbelow k tx hk
      have hlast' : -1 ≤ last + prefilled.index + 1 := by omega
      obtain ⟨placed, slots, heq, hlen, hbel, hfree⟩ :=
        ih (i := i + 1) hbelow' hlast' (by rw [length_set]; omega)
      rw [length_set] at hlen
      have hset := freeFrom_set_le txn_available
        (last + prefilled.index + 1).toNat prefilled.tx
      rw [length_cons]
      exact ⟨placed, slots, heq, hlen, hbel, by omega⟩

theorem skipPrefilled_spec {i n index_offset : Nat}
    (hfree : 0 < freeFrom txn_available (i + index_offset)) (hoffset : index_offset < 65536)
    (hrounds : 65536 ≤ index_offset + n) (hfirst : i = 0 → index_offset + n = 65536) :
    (∃ index_offset', skipPrefilled txn_available i n index_offset = .ok index_offset' ∧
        index_offset' < 65536 ∧ txn_available[i + index_offset']? = some none ∧
        freeFrom txn_available (i + index_offset') = freeFrom txn_available (i + index_offset)) ∨
      skipPrefilled txn_available i n index_offset = .error .endless ∧ i = 0 ∧
        ∀ k, index_offset ≤ k → k < 65536 → ∃ tx, txn_available[k]? = some (some tx) := by
  induction n generalizing index_offset with
  | zero => omega
  | succ n ih =>
    unfold skipPrefilled
    split
    case h_1 hnone =>
      rw [freeFrom_of_length_le (List.getElem?_eq_none_iff.mp hnone)] at hfree
      omega
    case h_2 hempty => exact .inl ⟨index_offset, rfl, hoffset, hempty, rfl⟩
    case h_3 tx hfilled =>
      have hpos := hbelow _ _ hfilled
      have hnext := freeFrom_of_some hfilled
      by_cases hend : index_offset = 65535
      · -- the offset wraps round: position 65535 is taken and `i` is zero
        obtain rfl : i = 0 := by omega
        obtain rfl : n = 0 := by have := hfirst rfl; omega
        refine .inr ⟨rfl, rfl, fun k hk hk' => ⟨tx, ?_⟩⟩
        obtain rfl : k = index_offset := by omega
        simpa using hfilled
      · rw [Nat.mod_eq_of_lt (by omega)]
        rw [hnext, Nat.add_assoc] at hfree
        rcases ih hfree (by omega) (by omega) (by intro hi; have := hfirst hi; omega) with
          ⟨found, heq, hlt, hempty, hsame⟩ | ⟨heq, hzero, hall⟩
        · refine .inl ⟨found, heq, hlt, hempty, ?_⟩
          rw [hsame, hnext, Nat.add_assoc]
        · refine .inr ⟨heq, hzero, fun k hk hk' => ?_⟩
          rcases Nat.eq_or_lt_of_le hk with rfl | hlt
          · exact ⟨tx, by simpa [hzero] using hfilled⟩
          · exact hall k hlt hk'

def InRange (length : Nat) (shorttxids : AssocMap UInt64 Nat) : Prop :=
  ∀ id position, shorttxids.lookup id = some position → position < length

theorem placeShortIDs_spec {env : BlockEncoding} {nShortIDs i index_offset : Nat}
    {ids : List UInt64} {shorttxids : AssocMap UInt64 Nat}
    (hfree : ids.length ≤ freeFrom txn_available (i + index_offset))
    (hoffset : index_offset < 65536) (hfirst : i = 0 → index_offset = 0)
    (hrange : InRange txn_available.length shorttxids) :
    (∃ table, placeShortIDs env nShortIDs txn_available i index_offset ids shorttxids = .ok table ∧
        ∀ t ∈ table, InRange txn_available.length t) ∨
      placeShortIDs env nShortIDs txn_available i index_offset ids shorttxids = .error .endless ∧
        ∀ k, k < 65536 → ∃ tx, txn_available[k]? = some (some tx) := by
  induction ids generalizing i index_offset shorttxids with
  | nil =>
    refine .inl ⟨some shorttxids, rfl, fun t ht => ?_⟩
    cases ht
    exact hrange
  | cons id ids ih =>
    rw [length_cons] at hfree
    unfold placeShortIDs
    rcases skipPrefilled_spec (i := i) (n := 65536) hbelow (by omega) hoffset (by omega)
        (by intro hi; have := hfirst hi; omega) with
      ⟨found, heq, hlt, hempty, hsame⟩ | ⟨heq, hzero, hall⟩
    · rw [heq]
      dsimp only
      have hnext := freeFrom_of_none hempty
      have hposition := (List.getElem?_eq_some_iff.mp hempty).1
      have hrange' : InRange txn_available.length
          (shorttxids.insert id ((i + found) % 65536)) := by
        intro id' position hlookup
        rcases AssocMap.of_lookup_insert hlookup with ⟨-, rfl⟩ | ⟨-, hlookup⟩
        · exact Nat.lt_of_le_of_lt (Nat.mod_le _ _) hposition
        · exact hrange id' position hlookup
      split
      case isTrue => exact .inl ⟨none, rfl, by simp⟩
      case isFalse =>
        refine ih (by rw [Nat.add_right_comm]; omega) hlt (by omega) hrange'
    · rw [heq]
      obtain rfl : index_offset = 0 := hfirst hzero
      exact .inr ⟨rfl, fun k hk => hall k (Nat.zero_le k) hk⟩

omit hbelow in
theorem placePrefilled_start (cmpctblock : CBlockHeaderAndShortTxIDs) :
    ∃ placed txn_available,
      placePrefilled cmpctblock.shorttxids.length 0 (-1) cmpctblock.prefilledtxn
        (List.replicate cmpctblock.blockTxCount none) = .ok (placed, txn_available) ∧
      txn_available.length = cmpctblock.blockTxCount ∧ FilledBelow 65536 txn_available ∧
      cmpctblock.shorttxids.length ≤ freeFrom txn_available 0 := by
  have hempty : FilledBelow 65536 (List.replicate cmpctblock.blockTxCount none) := by
    intro k tx hk
    simp [List.getElem?_replicate] at hk
  obtain ⟨placed, slots, heq, hlength, hbelow, hfree⟩ :=
    placePrefilled_spec (i := 0) hempty (Int.le_refl (-1))
      (show _ = cmpctblock.shorttxids.length + 0 + cmpctblock.prefilledtxn.length by
        rw [length_replicate]
        rfl)
  rw [length_replicate] at hlength
  rw [freeFrom_replicate, CBlockHeaderAndShortTxIDs.blockTxCount] at hfree
  exact ⟨placed, slots, heq, hlength, hbelow, by omega⟩

theorem placeShortIDs_start (env : BlockEncoding) (cmpctblock : CBlockHeaderAndShortTxIDs)
    (hlength : txn_available.length = cmpctblock.blockTxCount)
    (hfree : cmpctblock.shorttxids.length ≤ freeFrom txn_available 0) :
    (∃ table, placeShortIDs env cmpctblock.shorttxids.length txn_available 0 0
        cmpctblock.shorttxids ∅ = .ok table ∧ ∀ t ∈ table, InRange txn_available.length t) ∨
      placeShortIDs env cmpctblock.shorttxids.length txn_available 0 0
        cmpctblock.shorttxids ∅ = .error .endless ∧ 65536 ≤ cmpctblock.prefilledtxn.length := by
  have hnone : InRange txn_available.length ∅ := by
    intro id position h
    simp at h
  refine (placeShortIDs_spec hbelow hfree (by omega) (fun _ => rfl) hnone).imp_right ?_
  rintro ⟨hendless, hfilled⟩
  refine ⟨hendless, ?_⟩
  -- all the free positions are above, so the others are prefilled
  obtain ⟨tx, hlast⟩ := hfilled 65535 (by omega)
  have hmany := (List.getElem?_eq_some_iff.mp hlast).1
  have hsame := freeFrom_of_filled hfilled
  have hle := freeFrom_le txn_available 65536
  rw [hlength, CBlockHeaderAndShortTxIDs.blockTxCount] at hle hmany
  omega

end Positions

/-! ## What the functions leave -/

section Specs

variable {shorttxids : AssocMap UInt64 Nat}

section

variable (clashes : CTransaction → CTransaction → Bool) {slots : Slots}
  (hrange : InRange slots.txn_available.length shorttxids)
  (hlength : slots.have_txn.length = slots.txn_available.length)

include hrange hlength

theorem offer_spec (shortid : UInt64) (tx : CTransaction) :
    ∃ slots', offer clashes shorttxids shortid tx slots = .ok slots' ∧
      slots'.txn_available.length = slots.txn_available.length ∧
      slots'.have_txn.length = slots'.txn_available.length := by
  unfold offer
  split
  case h_1 => exact ⟨slots, rfl, rfl, hlength⟩
  case h_2 position hlookup =>
    have hposition := hrange _ _ hlookup
    split
    case h_1 => exact ⟨_, rfl, by simp, by simpa using hlength⟩
    case h_2 =>
      split
      · exact ⟨_, rfl, by simp, by simpa using hlength⟩
      · exact ⟨slots, rfl, rfl, hlength⟩
    case h_3 => exact ⟨slots, rfl, rfl, hlength⟩
    case h_4 hfalse htrue hempty =>
      have havailable : slots.txn_available[position]? = some slots.txn_available[position] :=
        List.getElem?_eq_getElem hposition
      have hhave : slots.have_txn[position]? =
          some (slots.have_txn.get ⟨position, by omega⟩) := by
        rw [List.getElem?_eq_getElem (by omega)]
        rfl
      cases hb : slots.have_txn.get ⟨position, by omega⟩ with
      | false => exact (hfalse _ (hb ▸ hhave) havailable).elim
      | true =>
        cases ht : slots.txn_available[position] with
        | none => exact (hempty (hb ▸ hhave) (ht ▸ havailable)).elim
        | some held => exact (htrue held (hb ▸ hhave) (ht ▸ havailable)).elim

theorem offerAll_spec (getShortID : uint256 → UInt64) (known : List (uint256 × CTransaction)) :
    ∃ slots', offerAll clashes getShortID shorttxids known slots = .ok slots' ∧
      slots'.txn_available.length = slots.txn_available.length ∧
      slots'.have_txn.length = slots'.txn_available.length := by
  induction known generalizing slots with
  | nil => exact ⟨slots, rfl, rfl, hlength⟩
  | cons entry known ih =>
    obtain ⟨hash, tx⟩ := entry
    obtain ⟨slots₁, heq, hsame, hlength₁⟩ :=
      offer_spec clashes hrange hlength (getShortID hash) tx
    unfold offerAll
    rw [heq]
    dsimp only
    split
    case isTrue => exact ⟨slots₁, rfl, hsame, hlength₁⟩
    case isFalse =>
      obtain ⟨slots₂, heq₂, hsame₂, hlength₂⟩ := ih (hsame ▸ hrange) hlength₁
      exact ⟨slots₂, heq₂, hsame₂.trans hsame, hlength₂⟩

end

variable (env : BlockEncoding) (cmpctblock : CBlockHeaderAndShortTxIDs)
  (vTxHashes extra_txn : List (uint256 × CTransaction))

theorem findTransactions_spec (self : PartiallyDownloadedBlock)
    (hrange : InRange self.txn_available.length shorttxids) :
    ∃ self', findTransactions env cmpctblock vTxHashes extra_txn shorttxids self = .ok self' ∧
      self'.header = self.header ∧ self'.txn_available.length = self.txn_available.length := by
  unfold findTransactions
  dsimp only
  have hlength : (Slots.mk self.txn_available (List.replicate self.txn_available.length false)
      self.mempool_count).have_txn.length = self.txn_available.length := length_replicate
  obtain ⟨slots₁, heq₁, hsame₁, hlength₁⟩ := offerAll_spec (fun _ _ => true) hrange
    hlength (env.getShortID cmpctblock.header cmpctblock.nonce) vTxHashes
  obtain ⟨slots₂, heq₂, hsame₂, -⟩ := offerAll_spec
    (fun held tx => env.getWitnessHash held != env.getWitnessHash tx) (hsame₁ ▸ hrange) hlength₁
    (env.getShortID cmpctblock.header cmpctblock.nonce) extra_txn
  rw [heq₁]
  dsimp only
  rw [heq₂]
  exact ⟨_, rfl, rfl, hsame₂.trans hsame₁⟩

theorem initData_new :
    (∃ status self, initData env cmpctblock vTxHashes extra_txn new = .ok (status, self) ∧
        (status ≠ .READ_STATUS_INVALID → self.header.isNull = false ∧
          self.txn_available.length = cmpctblock.blockTxCount)) ∨
      initData env cmpctblock vTxHashes extra_txn new = .error .endless ∧
        65536 ≤ cmpctblock.prefilledtxn.length := by
  unfold initData
  split
  case isTrue => exact .inl ⟨_, _, rfl, by simp⟩
  case isFalse hheader =>
    have hnull : cmpctblock.header.isNull = false := by
      cases h : cmpctblock.header.isNull <;> simp_all
    split
    case isTrue => exact .inl ⟨_, _, rfl, by simp⟩
    case isFalse =>
      obtain ⟨placed, slots, hplaced, hlength, hbelow, hfree⟩ := placePrefilled_start cmpctblock
      rw [if_neg (by decide), hplaced]
      dsimp only
      split
      case isTrue => exact .inl ⟨_, _, rfl, by simp⟩
      case isFalse =>
        rcases placeShortIDs_start hbelow env cmpctblock hlength hfree with
          ⟨table, htable, hrange⟩ | ⟨hendless, hmany⟩
        · rw [htable]
          cases table with
          | none => exact .inl ⟨_, _, rfl, fun _ => ⟨hnull, hlength⟩⟩
          | some shorttxids =>
            dsimp only
            split
            case isTrue => exact .inl ⟨_, _, rfl, fun _ => ⟨hnull, hlength⟩⟩
            case isFalse =>
              obtain ⟨self, heq, hheader, hsame⟩ := findTransactions_spec env cmpctblock
                vTxHashes extra_txn
                ⟨cmpctblock.header, cmpctblock.vchBlockSig, slots, 0⟩ (hrange shorttxids rfl)
              refine .inl ⟨.READ_STATUS_OK, self, congrArg (Except.map _) heq, fun _ => ?_⟩
              exact ⟨hheader ▸ hnull, hsame.trans hlength⟩
        · rw [hendless]
          exact .inr ⟨rfl, hmany⟩

variable (vtx_missing : List CTransaction) {self : PartiallyDownloadedBlock}

theorem isTxAvailable_spec {index : Nat} (hnull : self.header.isNull = false)
    (hindex : index < self.txn_available.length) :
    ∃ available, self.isTxAvailable index = .ok available := by
  unfold isTxAvailable
  rw [if_neg (by simp [hnull]), List.getElem?_eq_getElem hindex]
  exact ⟨_, rfl⟩

theorem fillBlock_spec (hnull : self.header.isNull = false) :
    ∃ status block self', fillBlock env vtx_missing self = .ok (status, block, self') := by
  unfold fillBlock
  rw [if_neg (by simp [hnull])]
  dsimp only
  split
  · exact ⟨_, _, _, rfl⟩
  · split
    · exact ⟨_, _, _, rfl⟩
    · split <;> exact ⟨_, _, _, rfl⟩

theorem fillBlock_of_isNull (hnull : self.header.isNull = true) :
    fillBlock env vtx_missing self = .error (.assertion "!header.IsNull()") :=
  if_pos hnull

/-- What of a block is not at hand. -/
def missing (slots : List (Option CTransaction)) (vtx : List CTransaction) :=
  ((slots.zip vtx).filter fun p => p.1.isNone).map Prod.snd

theorem fillLoop_eq_ok {slots : List (Option CTransaction)} {txn vtx rest : List CTransaction} :
    fillLoop slots txn = .ok (vtx, rest) ↔ txn = missing slots vtx ++ rest ∧
      Forall₂ (fun slot tx => slot = none ∨ slot = some tx) slots vtx := by
  unfold missing
  fun_induction fillLoop slots txn generalizing vtx with
  | case1 | case2 => cases vtx <;> simp
  | case3 _ _ _ _ hrest ih | case4 _ _ _ _ _ hrest ih =>
    rw [hrest] at ih
    cases vtx <;> simp [← ih, and_assoc]
  | case5 _ _ _ _ hrest ih | case6 _ _ _ _ _ hrest ih =>
    rw [hrest] at ih
    cases vtx <;> simp [and_left_comm, ← ih, and_assoc]

/-- A block is filled exactly by what is missing, and keeps what was at hand. -/
theorem fillBlock_reconstructs {vtx : List CTransaction} :
    (∃ r, fillBlock env vtx_missing self = .ok r ∧ r.1 ≠ .READ_STATUS_INVALID ∧ r.2.1.vtx = vtx) ↔
      self.header.isNull = false ∧ vtx_missing = missing self.txn_available vtx ∧
        Forall₂ (fun slot tx => slot = none ∨ slot = some tx) self.txn_available vtx := by
  rw [← append_nil (missing _ _), ← fillLoop_eq_ok, fillBlock]
  cases self.header.isNull with
  | true => simp
  | false =>
    obtain left | ⟨vtx', _ | ⟨tx, rest⟩⟩ := fillLoop self.txn_available vtx_missing
    · simp
    · dsimp only [isEmpty_nil]
      rw [if_neg (by simp), if_neg (by simp)]
      split <;> simp
    · simp

end Specs

end PartiallyDownloadedBlock

end Verge
