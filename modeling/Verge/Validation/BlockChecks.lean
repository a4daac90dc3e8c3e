import Mathlib.Data.Nat.Pairing
import Verge.Foundation.MerkleTree
import Verge.Foundation.Restricts
import Verge.LockTime
import Verge.Script.Script
import Verge.Serialize
import Verge.Validation.ConnectBlock

/-!
# What a block header commits to

`BlockMerkleRoot` and the check of it in `CheckBlock`, `ContextualCheckBlock`, and
copies of a block: blocks with the same header and any other body.  The header
commits neither to the block signature nor to witness data, and to the list of
transactions only through a merkle tree that repeats its last leaf.  A copy that
passes `CheckBlock` has the transactions of the block nevertheless.
-/

namespace Verge

open Foundation List Option CTransaction

def hashBytes (hash : uint256) : List UInt8 := writeLE 32 hash.toNat

def CTxIn.serialize (txin : CTxIn) : List UInt8 :=
  hashBytes txin.prevout.hash ++ writeLE 4 txin.prevout.n ++
    (writeCompactSize txin.scriptSig.length ++ txin.scriptSig) ++ writeLE 4 txin.nSequence

def CTxOut.serialize (txout : CTxOut) : List UInt8 :=
  writeLE 8 (txout.nValue % 2 ^ 64).toNat ++
    (writeCompactSize txout.scriptPubKey.length ++ txout.scriptPubKey)

namespace CTransaction

/-- `SerializeTransaction`, which writes no witness data. -/
def serialize (tx : CTransaction) : List UInt8 :=
  writeLE 4 (tx.nVersion % 2 ^ 32).toNat ++ writeLE 4 tx.nTime ++
    (writeCompactSize tx.vin.length ++ tx.vin.flatMap CTxIn.serialize) ++
    (writeCompactSize tx.vout.length ++ tx.vout.flatMap CTxOut.serialize) ++
    writeLE 4 tx.nLockTime

def stripWitness (tx : CTransaction) : CTransaction :=
  { tx with vin := tx.vin.map fun txin => { txin with scriptWitness := [] } }

theorem stripWitness_of_hasWitness {tx : CTransaction} (h : tx.hasWitness = false) :
    tx.stripWitness = tx := by
  have hvin : tx.vin.map (fun txin => { txin with scriptWitness := [] }) = tx.vin := by
    refine (map_congr_left fun txin htxin => ?_).trans (map_id tx.vin)
    have hempty := any_eq_false.mp h txin htxin
    cases txin
    simp_all
  rw [stripWitness, hvin]

end CTransaction

@[simp] theorem length_writeLE (k n : Nat) : (writeLE k n).length = k := by
  induction k generalizing n with
  | zero => rfl
  | succ k ih => simp [writeLE, ih]

@[simp] theorem length_hashBytes (hash : uint256) : (hashBytes hash).length = 32 :=
  length_writeLE 32 _

theorem hashBytes_injective : Function.Injective hashBytes := by
  intro a b h
  have hread : ∀ c : uint256, readLE 32 (hashBytes c ++ []) = .ok (c.toNat, []) := fun c =>
    reads_LE 32 (by simpa using c.isLt) []
  have heq := (hread a).symm.trans ((congrArg (fun bytes => readLE 32 (bytes ++ [])) h).trans
    (hread b))
  exact BitVec.eq_of_toNat_eq (congrArg Prod.fst (Except.ok.inj heq))

theorem length_writeCompactSize_pos (n : Nat) : 1 ≤ (writeCompactSize n).length := by
  unfold writeCompactSize
  split_ifs <;> simp

theorem CTransaction.length_serialize_coinBase {tx : CTransaction} {txin : CTxIn}
    (hvin : tx.vin = [txin]) (hsig : 2 ≤ txin.scriptSig.length) (hvout : tx.vout ≠ []) :
    64 < tx.serialize.length := by
  obtain ⟨txout, rest, hrest⟩ := exists_cons_of_ne_nil hvout
  have h1 := length_writeCompactSize_pos 1
  have h2 := length_writeCompactSize_pos txin.scriptSig.length
  have h3 := length_writeCompactSize_pos (rest.length + 1)
  have h4 := length_writeCompactSize_pos txout.scriptPubKey.length
  simp only [serialize, CTxIn.serialize, CTxOut.serialize, hvin, hrest, length_append,
    length_cons, length_nil, flatMap_cons, flatMap_nil, length_writeLE,
    length_hashBytes, Nat.zero_add]
  omega

section Root

variable (doubleSha256 : List UInt8 → uint256)

def pairHash (p : uint256 × uint256) : uint256 := doubleSha256 (hashBytes p.1 ++ hashBytes p.2)

def blockMerkleRoot (block : CBlock) : uint256 × Bool :=
  computeMerkleRoot (pairHash doubleSha256) 0 (block.vtx.map CTransaction.hash)

def checkMerkleRoot (block : CBlock) : Option (Nat × String) :=
  let (hashMerkleRoot2, mutated) := blockMerkleRoot doubleSha256 block
  if block.hashMerkleRoot ≠ hashMerkleRoot2 then some (100, "bad-txnmrklroot")
  else if mutated then some (100, "bad-txns-duplicate")
  else none

/-- The rules with the check of the merkle root after `CheckBlockHeader`, of which
`rules.checkHeader` is the answer. -/
def BlockRules.withMerkleRoot (rules : BlockRules) : BlockRules :=
  { rules with
    checkHeader := fun block => (rules.checkHeader block).or (checkMerkleRoot doubleSha256 block) }

def HashedString (block : CBlock) (bytes : List UInt8) : Prop :=
  (∃ tx ∈ block.vtx, bytes = tx.serialize) ∨
    ∃ p, HashedPair (pairHash doubleSha256) (block.vtx.map CTransaction.hash) p ∧
      bytes = hashBytes p.1 ++ hashBytes p.2

/-- The assumption on the hash: none of the strings hashed for some blocks collide, and an
id fixes its transaction up to witness data. -/
structure CollisionFree (blocks : List CBlock) : Prop where
  ids : ∀ block ∈ blocks, ∀ tx ∈ block.vtx, tx.hash = doubleSha256 tx.serialize
  injOn : Set.InjOn doubleSha256 { bytes | ∃ block ∈ blocks, HashedString doubleSha256 block bytes }
  txid : ∀ block ∈ blocks, ∀ block' ∈ blocks, ∀ tx ∈ block.vtx, ∀ tx' ∈ block'.vtx,
    tx.hash = tx'.hash → tx.stripWitness = tx'.stripWitness

end Root

/-- The list `copy` is `hashes` with tails repeated, each at the end of the list
as it is then. -/
inductive RepeatsTails {α : Type} (hashes : List α) : List α → Prop
  | none : RepeatsTails hashes hashes
  | tail {copy tail : List α} (h : RepeatsTails hashes copy) (htail : tail <:+ copy) :
      RepeatsTails hashes (copy ++ tail)

theorem RepeatsTails.subset {α : Type} {hashes copy : List α} (h : RepeatsTails hashes copy) :
    copy ⊆ hashes ∧ hashes ⊆ copy := by
  induction h with
  | none => exact ⟨fun _ => id, fun _ => id⟩
  | tail _ htail ih =>
    exact ⟨append_subset.mpr ⟨ih.1, fun a ha => ih.1 (htail.subset ha)⟩,
      fun a ha => mem_append_left _ (ih.2 ha)⟩

section Faithful

variable {α : Type} [DecidableEq α] {H : α × α → α}

def OutsideRange (H : α × α → α) (hashes : List α) : Prop := ∀ a ∈ hashes, ∀ p, H p ≠ a

theorem eq_of_root_eq (hinj : Function.Injective H) {null : α} {l m : List α} (hl : l ≠ [])
    (hm : m ≠ []) (hlleaf : OutsideRange H l) (hmleaf : OutsideRange H m)
    (hlmut : (computeMerkleRoot H null l).2 = false)
    (hmmut : (computeMerkleRoot H null m).2 = false)
    (hroot : (computeMerkleRoot H null l).1 = (computeMerkleRoot H null m).1) : l = m := by
  have ha := List.head?_eq_some_head hl
  have hb := List.head?_eq_some_head hm
  exact eq_of_computeMerkleRoot_eq hinj.injOn (fun p _ => Set.mem_univ p)
    (fun p _ => Set.mem_univ p) (Prod.ext rfl hlmut) (Prod.ext hroot.symm hmmut) ha hb
    (fun p _ => hlleaf _ (mem_of_mem_head? ha) p)
    (fun p _ => hmleaf _ (mem_of_mem_head? hb) p)

/-- The root fixes an unmutated list, `mutated` says that a level has a pair of equal
hashes, and no other unmutated list arises by repeating tails. -/
theorem computeMerkleRoot_faithful (hinj : Function.Injective H) (null : α) :
    (∀ l m, l ≠ [] → m ≠ [] → OutsideRange H l → OutsideRange H m →
      (computeMerkleRoot H null l).2 = false → (computeMerkleRoot H null m).2 = false →
      (computeMerkleRoot H null l).1 = (computeMerkleRoot H null m).1 → l = m) ∧
    (∀ l, (computeMerkleRoot H null l).2 = true ↔ ∃ level, Level H l level ∧
      ∃ pos, 2 * pos + 1 < level.length ∧ level[2 * pos]? = level[2 * pos + 1]?) ∧
    ∀ l copy, OutsideRange H l → (computeMerkleRoot H null l).2 = false →
      RepeatsTails l copy → copy ≠ l →
      (computeMerkleRoot H null copy).1 = (computeMerkleRoot H null l).1 →
      (computeMerkleRoot H null copy).2 = true := by
  refine ⟨fun l m hl hm => eq_of_root_eq hinj hl hm, fun l => ?_, ?_⟩
  · rw [computeMerkleRoot, merkleLoop_mutated_iff le_rfl]
    refine exists_congr fun level => and_congr_right fun _ => ?_
    rw [hasTwins_iff]
    refine and_iff_right_of_imp ?_
    rintro ⟨pos, hpos, -⟩
    omega
  · intro l copy hleaf hmut hrepeats hne hroot
    by_contra hcopy
    have hsubset := hrepeats.subset
    have hl : l ≠ [] := by
      rintro rfl
      exact hne (subset_nil.mp hsubset.1)
    have hnonempty : copy ≠ [] := fun h => hl (subset_nil.mp (h ▸ hsubset.2))
    exact hne (eq_of_root_eq hinj hnonempty hl (fun a ha => hleaf a (hsubset.1 ha)) hleaf
      (Bool.eq_false_iff.mpr hcopy) hmut hroot)

theorem computeMerkleRoot_faithful_pairing :
    (computeMerkleRoot (fun p => 2 * Nat.pair p.1 p.2 + 1) 0 [0, 2, 4, 4]).2 = true := by
  refine (computeMerkleRoot_faithful (fun p q h => ?_) 0).2.2 [0, 2, 4] _ ?_ (by decide)
    (.tail .none ⟨[0, 2], rfl⟩ : RepeatsTails [0, 2, 4] ([0, 2, 4] ++ [4])) (by decide) (by decide)
  · obtain ⟨h₁, h₂⟩ := Nat.pair_eq_pair.mp (by simpa using h)
    exact Prod.ext h₁ h₂
  · intro a ha p
    simp only [mem_cons, not_mem_nil, or_false] at ha
    dsimp only
    omega

end Faithful

def IsCopyOf (copy block : CBlock) : Prop := copy.toCBlockHeader = block.toCBlockHeader

structure CommittedBlock (doubleSha256 : List UInt8 → uint256) (block : CBlock) : Prop where
  root : blockMerkleRoot doubleSha256 block = (block.hashMerkleRoot, false)
  size : block.serializeSize * WITNESS_SCALE_FACTOR ≤ MAX_BLOCK_WEIGHT
  coinBase : ∃ tx txin, block.vtx.head? = some tx ∧ tx.vin = [txin] ∧
    2 ≤ txin.scriptSig.length ∧ tx.vout ≠ []
  noWitness : ∀ tx ∈ block.vtx, tx.hasWitness = false

private theorem ensure_eq_ok {condition : Bool} {failure : Failure} {u : Unit} :
    ensure condition failure = .ok u ↔ condition = true := by
  cases condition <;> simp [ensure]

private theorem ensureAccepted_eq_ok {answer : Option (Nat × String)} {u : Unit} :
    ensureAccepted answer = .ok u ↔ answer = none := by
  rcases answer with _ | ⟨nDoS, reason⟩ <;> simp [ensureAccepted]

theorem checkTransactions_eq_ok {nBlockTime : Nat} {vtx : List CTransaction} {u : Unit}
    (h : checkTransactions nBlockTime vtx = .ok u) :
    ∀ tx ∈ vtx, checkTransaction tx true = .ok () := by
  induction vtx with
  | nil => simp
  | cons tx vtx ih =>
    obtain ⟨_, htx, h⟩ := bind_eq_ok.mp h
    obtain ⟨_, -, h⟩ := bind_eq_ok.mp h
    exact forall_mem_cons.mpr ⟨htx, ih h⟩

theorem checkTransaction_eq_ok {tx : CTransaction} {u : Unit}
    (h : checkTransaction tx true = .ok u) :
    tx.hasWitness = false ∧ tx.vout ≠ [] ∧
      (tx.isCoinBase = true → ∃ txin, tx.vin = [txin] ∧ 2 ≤ txin.scriptSig.length) := by
  obtain ⟨_, -, h⟩ := bind_eq_ok.mp h
  obtain ⟨_, hvout, h⟩ := bind_eq_ok.mp h
  obtain ⟨_, hwitness, h⟩ := bind_eq_ok.mp h
  obtain ⟨_, -, h⟩ := bind_eq_ok.mp h
  obtain ⟨_, -, h⟩ := bind_eq_ok.mp h
  obtain ⟨_, -, h⟩ := bind_eq_ok.mp h
  rw [ensure_eq_ok] at hvout hwitness
  refine ⟨by simpa using hwitness, by simpa using hvout, fun hcoinbase => ?_⟩
  rw [if_pos hcoinbase, ensure_eq_ok] at h
  unfold isCoinBase at hcoinbase
  split at hcoinbase
  case h_1 txin hvin =>
    simp only [hvin, List.head?_cons, any_some, Bool.and_eq_true, decide_eq_true_eq] at h
    exact ⟨txin, hvin, h.1⟩
  case h_2 => cases hcoinbase

section Copies

variable {doubleSha256 : List UInt8 → uint256} {rules : BlockRules}

theorem committedBlock_of_checkBlock {block : CBlock} (hunchecked : block.fChecked = false)
    (h : checkBlock (rules.withMerkleRoot doubleSha256) block = .ok ()) :
    CommittedBlock doubleSha256 block := by
  unfold checkBlock at h
  rw [if_neg (by simp [hunchecked])] at h
  obtain ⟨_, hheader, h⟩ := bind_eq_ok.mp h
  obtain ⟨_, hsize, h⟩ := bind_eq_ok.mp h
  obtain ⟨_, hcoinbase, h⟩ := bind_eq_ok.mp h
  obtain ⟨_, -, h⟩ := bind_eq_ok.mp h
  obtain ⟨_, -, h⟩ := bind_eq_ok.mp h
  obtain ⟨_, htxs, -⟩ := bind_eq_ok.mp h
  rw [ensure_eq_ok] at hsize hcoinbase
  have htx := checkTransactions_eq_ok htxs
  refine ⟨?_, ?_, ?_, fun tx hmem => (checkTransaction_eq_ok (htx tx hmem)).1⟩
  · rw [ensureAccepted_eq_ok, BlockRules.withMerkleRoot, or_eq_none_iff] at hheader
    have hroot := hheader.2
    simp only [checkMerkleRoot] at hroot
    split at hroot
    case isTrue => cases hroot
    case isFalse heq =>
      split at hroot
      case isTrue => cases hroot
      case isFalse hmutated =>
        exact Prod.ext (not_not.mp heq).symm (Bool.eq_false_of_not_eq_true hmutated)
  · simp only [Bool.and_eq_true, decide_eq_true_eq] at hsize
    exact hsize.2
  · cases hhead : block.vtx.head? with
    | none => simp [hhead] at hcoinbase
    | some tx =>
      rw [hhead, any_some] at hcoinbase
      obtain ⟨-, hvout, hvin⟩ := checkTransaction_eq_ok (htx tx (mem_of_mem_head? hhead))
      obtain ⟨txin, hvin, hsig⟩ := hvin hcoinbase
      exact ⟨tx, txin, rfl, hvin, hsig, hvout⟩

theorem vtx_eq_of_hashes {vtx vtx' : List CTransaction}
    (htxid : ∀ tx ∈ vtx, ∀ tx' ∈ vtx', tx.hash = tx'.hash → tx.stripWitness = tx'.stripWitness)
    (hwitness : ∀ tx ∈ vtx, tx.hasWitness = false) (hwitness' : ∀ tx ∈ vtx', tx.hasWitness = false)
    (h : vtx.map hash = vtx'.map hash) : vtx = vtx' := by
  induction vtx generalizing vtx' with
  | nil => simpa using h.symm
  | cons tx vtx ih =>
    cases vtx' with
    | nil => cases h
    | cons tx' vtx' =>
      simp only [map_cons, List.cons.injEq] at h
      rw [forall_mem_cons] at hwitness hwitness'
      have hstrip := htxid tx mem_cons_self tx' mem_cons_self h.1
      rw [stripWitness_of_hasWitness hwitness.1,
        stripWitness_of_hasWitness hwitness'.1] at hstrip
      rw [hstrip, ih (fun a ha b hb => htxid a (mem_cons_of_mem _ ha) b
        (mem_cons_of_mem _ hb)) hwitness.2 hwitness'.2 h.2]

theorem CommittedBlock.coinBase_ne {blocks : List CBlock} {block block' : CBlock}
    (hfree : CollisionFree doubleSha256 blocks) (hblock : block ∈ blocks)
    (hblock' : block' ∈ blocks) (h : CommittedBlock doubleSha256 block) :
    ∃ tx, block.vtx.head? = some tx ∧
      ∀ p, HashedPair (pairHash doubleSha256) (block'.vtx.map hash) p →
        pairHash doubleSha256 p ≠ tx.hash := by
  obtain ⟨tx, txin, hhead, hvin, hsig, hvout⟩ := h.coinBase
  have hmem : tx ∈ block.vtx := mem_of_mem_head? hhead
  refine ⟨tx, hhead, fun p hp heq => ?_⟩
  rw [hfree.ids block hblock tx hmem] at heq
  have hbytes := hfree.injOn ⟨block', hblock', .inr ⟨p, hp, rfl⟩⟩
    ⟨block, hblock, .inl ⟨tx, hmem, rfl⟩⟩ heq
  have hlength := congrArg List.length hbytes
  have hlong := length_serialize_coinBase hvin hsig hvout
  rw [length_append, length_hashBytes, length_hashBytes] at hlength
  omega

theorem CommittedBlock.vtx_eq {blocks : List CBlock} {block copy : CBlock}
    (hfree : CollisionFree doubleSha256 blocks) (hblock : block ∈ blocks) (hcopy : copy ∈ blocks)
    (hheader : IsCopyOf copy block) (h : CommittedBlock doubleSha256 block)
    (h' : CommittedBlock doubleSha256 copy) : copy.vtx = block.vtx := by
  have hroot : copy.hashMerkleRoot = block.hashMerkleRoot := congrArg (·.hashMerkleRoot) hheader
  obtain ⟨tx, hhead, hleaf⟩ := h.coinBase_ne hfree hblock hcopy
  obtain ⟨tx', hhead', hleaf'⟩ := h'.coinBase_ne hfree hcopy hblock
  have hinj : Set.InjOn (pairHash doubleSha256)
      { p | ∃ blk ∈ blocks,
        HashedPair (pairHash doubleSha256) (blk.vtx.map hash) p } := by
    rintro p ⟨blk, hblk, hp⟩ q ⟨blk', hblk', hq⟩ heq
    have hbytes := hfree.injOn ⟨blk, hblk, .inr ⟨p, hp, rfl⟩⟩ ⟨blk', hblk', .inr ⟨q, hq, rfl⟩⟩ heq
    obtain ⟨hfst, hsnd⟩ := append_inj hbytes (by simp)
    exact Prod.ext (hashBytes_injective hfst) (hashBytes_injective hsnd)
  have hleaves : copy.vtx.map hash = block.vtx.map hash :=
    eq_of_computeMerkleRoot_eq hinj (fun p hp => ⟨copy, hcopy, hp⟩)
      (fun p hp => ⟨block, hblock, hp⟩) (hroot ▸ h'.root) h.root
      (by rw [List.head?_map, hhead']; rfl) (by rw [List.head?_map, hhead]; rfl) hleaf' hleaf
  exact vtx_eq_of_hashes (hfree.txid copy hcopy block hblock) h'.noWitness h.noWitness hleaves

end Copies

structure BlockFault where
  nDoS : Nat
  strRejectReason : String
  corruptionPossible : Bool
  deriving DecidableEq, Repr

/-- What `ContextualCheckBlock` reads besides the block. -/
structure BlockContext where
  nHeight : Nat
  csvActive : Bool
  segwitActive : Bool
  medianTimePast : Nat
  BIP34Height : Int

def pushInt64 (n : Int) : CScript :=
  if n = -1 ∨ (1 ≤ n ∧ n ≤ 16) then [UInt8.ofInt (n + 0x50)]
  else if n = 0 then [0]
  else pushData (CScriptNum.serialize n)

def isWitnessCommitment (scriptPubKey : CScript) : Bool :=
  decide (38 ≤ scriptPubKey.length) &&
    scriptPubKey.take 6 == [OP_RETURN, 0x24, 0xaa, 0x21, 0xa9, 0xed]

/-- `GetWitnessCommitmentIndex`: the last output that looks like a commitment. -/
def getWitnessCommitment (block : CBlock) : Option CTxOut :=
  (block.vtx.head?).bind fun tx =>
    (tx.vout.filter fun txout => isWitnessCommitment txout.scriptPubKey).getLast?

def blockWitnessMerkleRoot (doubleSha256 : List UInt8 → uint256) (block : CBlock) : uint256 :=
  (computeMerkleRoot (pairHash doubleSha256) 0
    (0 :: block.vtx.tail.map CTransaction.hash)).1

def checkWitnessCommitment (doubleSha256 : List UInt8 → uint256) (block : CBlock) :
    Except BlockFault Bool :=
  match getWitnessCommitment block with
  | none => .ok false
  | some txout => do
    let stack := ((block.vtx.head?).bind fun tx =>
      (tx.vin.head?).map CTxIn.scriptWitness).getD []
    failIf (stack.map List.length != [32]) ⟨100, "bad-witness-nonce-size", true⟩
    let hashWitness :=
      doubleSha256 (hashBytes (blockWitnessMerkleRoot doubleSha256 block) ++ stack.flatten)
    failIf (hashBytes hashWitness != (txout.scriptPubKey.drop 6).take 32)
      ⟨100, "bad-witness-merkle-match", true⟩
    return true

def getBlockWeight (block : CBlock) : Nat :=
  block.serializeSize * (WITNESS_SCALE_FACTOR - 1) + block.serializeSize

/-- `ContextualCheckBlock`.  A block time before the median is noted in the state
and does not fail the check. -/
def contextualCheckBlock (doubleSha256 : List UInt8 → uint256) (context : BlockContext)
    (block : CBlock) : Except BlockFault Unit := do
  let nLockTimeCutoff := if context.csvActive then context.medianTimePast else block.nTime
  failIf (!block.vtx.all fun tx => isFinalTx tx context.nHeight nLockTimeCutoff)
    ⟨10, "bad-txns-nonfinal", false⟩
  let scriptSig := ((block.vtx.head?).bind fun tx => (tx.vin.head?).map CTxIn.scriptSig).getD []
  failIf (decide (context.BIP34Height ≤ context.nHeight) &&
      !(pushInt64 context.nHeight).isPrefixOf scriptSig) ⟨100, "bad-cb-height", false⟩
  let fHaveWitness ←
    if context.segwitActive then checkWitnessCommitment doubleSha256 block else .ok false
  failIf (!fHaveWitness && block.vtx.any CTransaction.hasWitness)
    ⟨100, "unexpected-witness", true⟩
  failIf (decide (MAX_BLOCK_WEIGHT < getBlockWeight block)) ⟨100, "bad-blk-weight", false⟩

theorem contextualCheckBlock_congr {doubleSha256 : List UInt8 → uint256} {context : BlockContext}
    {block copy : CBlock} (htime : copy.nTime = block.nTime) (hvtx : copy.vtx = block.vtx)
    (hsize : block.serializeSize * WITNESS_SCALE_FACTOR ≤ MAX_BLOCK_WEIGHT)
    (hsize' : copy.serializeSize * WITNESS_SCALE_FACTOR ≤ MAX_BLOCK_WEIGHT) :
    contextualCheckBlock doubleSha256 context copy =
      contextualCheckBlock doubleSha256 context block := by
  have hweight : ∀ blk : CBlock, blk.serializeSize * WITNESS_SCALE_FACTOR ≤ MAX_BLOCK_WEIGHT →
      decide (MAX_BLOCK_WEIGHT < getBlockWeight blk) = false := by
    intro blk h
    simp only [getBlockWeight, WITNESS_SCALE_FACTOR] at h ⊢
    exact decide_eq_false (by omega)
  simp only [contextualCheckBlock, checkWitnessCommitment, getWitnessCommitment,
    blockWitnessMerkleRoot, htime, hvtx, hweight block hsize, hweight copy hsize']

theorem connectBlock_congr (consensusParams : ConsensusParams) {rules : BlockRules}
    {block copy : CBlock} (nHeight : Nat) (hhash : copy.hash = block.hash)
    (hvtx : copy.vtx = block.vtx) (hcheck : checkBlock rules block = .ok ())
    (hcheck' : checkBlock rules copy = .ok ()) :
    connectBlock consensusParams rules copy nHeight =
      connectBlock consensusParams rules block nHeight := by
  have htransactions : connectTransactions consensusParams rules copy nHeight =
      connectTransactions consensusParams rules block nHeight := by
    obtain ⟨⟨_, _, _, _, _, _, hash⟩, vtx, _, _⟩ := copy
    subst hhash hvtx
    rfl
  simp only [connectBlock, hcheck, hcheck', hhash, htransactions]

end Verge
