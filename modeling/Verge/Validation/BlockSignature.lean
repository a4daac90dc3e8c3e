import Mathlib.Data.List.TakeWhile
import Verge.Pow
import Verge.Script.Standard

/-!
# The signature of a block

`SignBlock` and `CheckBlockSignature` walk over the outputs of the coinbase.  Both
look for outputs that pay to a public key, but an output that `Solver` does not know
is passed over by the one and makes the other give up.
-/

namespace Verge

open List Option

/-- `CKey` and `CPubKey` with a private key of type `K`; a public key is its bytes.
What a key signs verifies under its public key, and nothing verifies that is
empty. -/
structure KeyScheme (K : Type) where
  hash160 : valtype → valtype
  getPubKey : K → valtype
  sign : K → uint256 → Option (List UInt8)
  isFullyValid : valtype → Bool
  verify : valtype → uint256 → List UInt8 → Bool
  verify_sign : ∀ {key hash vchSig}, sign key hash = some vchSig →
    verify (getPubKey key) hash vchSig = true
  verify_nil : ∀ pubKey hash, verify pubKey hash [] = false

structure CKeyStore {K : Type} (scheme : KeyScheme K) where
  getKey : valtype → Option K
  isFullyValid_getKey : ∀ {address key}, getKey address = some key →
    scheme.isFullyValid (scheme.getPubKey key) = true

def CTxOut.paidPubKey (txout : CTxOut) : Option valtype :=
  match solver txout.scriptPubKey with
  | some (.TX_PUBKEY, vchPubKey :: _) => some vchPubKey
  | _ => none

def CTxOut.isSolved (txout : CTxOut) : Bool := (solver txout.scriptPubKey).isSome

theorem CTxOut.isSolved_of_paidPubKey {txout : CTxOut} {vchPubKey : valtype}
    (h : txout.paidPubKey = some vchPubKey) : txout.isSolved = true := by
  unfold paidPubKey at h
  unfold isSolved
  cases hsolver : solver txout.scriptPubKey with
  | none =>
    rw [hsolver] at h
    cases h
  | some solution => rfl

section Walks

variable {K : Type} (powHash : Algo → List UInt8 → uint256) (scheme : KeyScheme K)

def signOutput (keystore : CKeyStore scheme) (hash : uint256) (txout : CTxOut) :
    Option (List UInt8) := do
  let pubKey ← txout.paidPubKey
  let key ← keystore.getKey (scheme.hash160 pubKey)
  if scheme.getPubKey key ≠ pubKey then none
  else scheme.sign key hash

def signBlock (keystore : CKeyStore scheme) (block : CBlock) : Option CBlock := do
  let coinbase ← block.vtx.head?
  if !coinbase.isCoinBase then none
  else
    (coinbase.vout.findSome? (signOutput scheme keystore (block.getHash powHash))).map
      fun vchBlockSig => { block with vchBlockSig }

def checkOutput (hash : uint256) (vchBlockSig : List UInt8) (txout : CTxOut) : Option Bool :=
  if !txout.isSolved then some false
  else
    match txout.paidPubKey with
    | none => none
    | some key =>
      if !scheme.isFullyValid key || vchBlockSig.isEmpty || !scheme.verify key hash vchBlockSig
      then none
      else some true

def checkBlockSignature (hashGenesisBlock : uint256) (block : CBlock) : Bool :=
  if block.getHash powHash = hashGenesisBlock then block.vchBlockSig.isEmpty
  else
    (((block.vtx.head?.map CTransaction.vout).getD []).findSome?
      (checkOutput scheme (block.getHash powHash) block.vchBlockSig)).getD false

variable {powHash scheme} {keystore : CKeyStore scheme} {hash : uint256}

def VerifiesUnder (scheme : KeyScheme K) (hash : uint256) (vchBlockSig : List UInt8)
    (txout : CTxOut) : Prop :=
  ∃ key, txout.paidPubKey = some key ∧ scheme.isFullyValid key = true ∧
    scheme.verify key hash vchBlockSig = true

variable {vchBlockSig : List UInt8}

theorem checkOutput_eq_true_iff {txout : CTxOut} :
    checkOutput scheme hash vchBlockSig txout = some true ↔
      VerifiesUnder scheme hash vchBlockSig txout := by
  unfold checkOutput VerifiesUnder
  cases hkey : txout.paidPubKey with
  | none => cases txout.isSolved <;> simp
  | some key =>
    rw [CTxOut.isSolved_of_paidPubKey hkey]
    cases vchBlockSig with
    | nil => simp [scheme.verify_nil]
    | cons byte rest => simp

theorem checkOutput_eq_false_iff {txout : CTxOut} :
    checkOutput scheme hash vchBlockSig txout = some false ↔ txout.isSolved = false := by
  unfold checkOutput
  cases txout.isSolved with
  | false => simp
  | true =>
    cases txout.paidPubKey with
    | none => simp
    | some key => simp

theorem findSome_checkOutput_iff {vout : List CTxOut} :
    (vout.findSome? (checkOutput scheme hash vchBlockSig)).getD false = true ↔
      ∃ txout ∈ vout.takeWhile CTxOut.isSolved, VerifiesUnder scheme hash vchBlockSig txout := by
  induction vout with
  | nil => simp
  | cons txout vout ih =>
    rw [List.findSome?_cons, takeWhile_cons]
    cases hcheck : checkOutput scheme hash vchBlockSig txout with
    | some verdict =>
      cases verdict with
      | false =>
        rw [checkOutput_eq_false_iff] at hcheck
        simp [hcheck]
      | true =>
        rw [checkOutput_eq_true_iff] at hcheck
        obtain ⟨key, hkey, -⟩ := id hcheck
        rw [CTxOut.isSolved_of_paidPubKey hkey, if_pos rfl]
        exact iff_of_true rfl ⟨txout, mem_cons_self, hcheck⟩
    | none =>
      have hsolved : txout.isSolved = true := by
        by_contra hsolved
        rw [checkOutput_eq_false_iff.mpr (by simpa using hsolved)] at hcheck
        cases hcheck
      have hnot : ¬VerifiesUnder scheme hash vchBlockSig txout := by
        intro hverifies
        rw [checkOutput_eq_true_iff.mpr hverifies] at hcheck
        cases hcheck
      rw [hsolved, if_pos rfl]
      simp only [mem_cons, exists_eq_or_imp, hnot, false_or]
      exact ih

theorem verifiesUnder_of_signOutput {txout : CTxOut}
    (h : signOutput scheme keystore hash txout = some vchBlockSig) :
    VerifiesUnder scheme hash vchBlockSig txout := by
  obtain ⟨pubKey, hpaid, hfind⟩ := bind_eq_some_iff.mp h
  obtain ⟨key, hkey, hsign⟩ := bind_eq_some_iff.mp hfind
  split at hsign
  case isTrue => cases hsign
  case isFalse heq =>
    rw [not_not] at heq
    rw [← heq] at hpaid
    exact ⟨_, hpaid, keystore.isFullyValid_getKey hkey, scheme.verify_sign hsign⟩

/-- A signed block passes exactly if it is not the genesis block and every output before the
signing one is known to `Solver`, or the signature verifies under an earlier output. -/
theorem checkBlockSignature_signBlock_iff (hashGenesisBlock : uint256) {block block' : CBlock}
    (h : signBlock powHash scheme keystore block = some block') :
    ∃ coinbase before txout after, block.vtx.head? = some coinbase ∧
      coinbase.vout = before ++ txout :: after ∧
      signOutput scheme keystore (block.getHash powHash) txout = some block'.vchBlockSig ∧
      (∀ other ∈ before, signOutput scheme keystore (block.getHash powHash) other = none) ∧
      (checkBlockSignature powHash scheme hashGenesisBlock block' = true ↔
        block.getHash powHash ≠ hashGenesisBlock ∧
        ((∀ other ∈ before, other.isSolved = true) ∨
          ∃ other ∈ before.takeWhile CTxOut.isSolved,
            VerifiesUnder scheme (block.getHash powHash) block'.vchBlockSig other)) := by
  obtain ⟨coinbase, hcoinbase, h⟩ := bind_eq_some_iff.mp h
  split at h
  case isTrue => cases h
  case isFalse =>
    obtain ⟨vchBlockSig, hsig, rfl⟩ := map_eq_some_iff.mp h
    obtain ⟨before, txout, after, hvout, hsign, hbefore⟩ := List.findSome?_eq_some_iff.mp hsig
    refine ⟨coinbase, before, txout, after, hcoinbase, hvout, hsign, hbefore, ?_⟩
    have hverifies := verifiesUnder_of_signOutput hsign
    have hsigned : vchBlockSig ≠ [] := by
      rintro rfl
      obtain ⟨key, -, -, hverify⟩ := hverifies
      rw [scheme.verify_nil] at hverify
      cases hverify
    have hhash : ({ block with vchBlockSig } : CBlock).getHash powHash = block.getHash powHash := rfl
    unfold checkBlockSignature
    rw [hhash, hcoinbase]
    by_cases hgenesis : block.getHash powHash = hashGenesisBlock
    · rw [if_pos hgenesis]
      simp [hgenesis, hsigned]
    · rw [if_neg hgenesis, map_some, getD_some, findSome_checkOutput_iff, hvout]
      simp only [ne_eq, hgenesis, not_false_eq_true, true_and]
      by_cases hall : ∀ other ∈ before, other.isSolved = true
      · obtain ⟨key, hkey, -⟩ := id hverifies
        rw [takeWhile_append_of_pos hall, takeWhile_cons,
          CTxOut.isSolved_of_paidPubKey hkey, if_pos rfl]
        exact iff_of_true ⟨txout, by simp, hverifies⟩ (.inl hall)
      · have hshort : (before.takeWhile CTxOut.isSolved).length ≠ before.length := by
          intro hlength
          have hself := (List.takeWhile_prefix CTxOut.isSolved (l := before)).eq_of_length hlength
          exact hall fun other hother => mem_takeWhile_imp (hself.symm ▸ hother)
        rw [or_iff_right hall, takeWhile_append, if_neg hshort]

end Walks

namespace NonstandardFirst

def pubKey : valtype := 2 :: List.replicate 32 1

def scheme : KeyScheme Unit where
  hash160 pubKey := pubKey.take 20
  getPubKey _ := pubKey
  sign _ _ := some [1]
  isFullyValid key := key == pubKey
  verify key _ vchSig := key == pubKey && vchSig == [1]
  verify_sign h := by
    cases h
    decide
  verify_nil _ _ := Bool.and_false _

def keystore : CKeyStore scheme where
  getKey address := if address = pubKey.take 20 then some () else none
  isFullyValid_getKey _ := beq_self_eq_true pubKey

def payToPubKey : CTxOut := ⟨5, 33 :: pubKey ++ [0xac]⟩

def payToPubKeyHash : CTxOut := ⟨5, [0x76, 0xa9, 20] ++ List.replicate 20 9 ++ [0x88, 0xac]⟩

def nonstandard : CTxOut := ⟨5, [0x61]⟩

def coinbase (vout : List CTxOut) : CTransaction where
  nVersion := 1
  nTime := 7
  vin := [⟨⟨0, 0xffffffff⟩, [1, 1], 0xffffffff, []⟩]
  vout := vout
  nLockTime := 0
  hash := 3

def block (vout : List CTxOut) : CBlock :=
  { CBlockHeader.null with hash := 5, vtx := [coinbase vout], vchBlockSig := [], fChecked := false }

/-- The first output makes the check fail although the second one signed the block. -/
theorem signed_block_rejected :
    signBlock (fun _ _ => 0) scheme keystore (block [nonstandard, payToPubKey]) =
      some { block [nonstandard, payToPubKey] with vchBlockSig := [1] } ∧
    checkBlockSignature (fun _ _ => 0) scheme 9
      { block [nonstandard, payToPubKey] with vchBlockSig := [1] } = false := by
  decide +kernel

/-- A payment to a key hash in front of the signing output does no harm, and what follows it is
not looked at. -/
theorem checkBlockSignature_signBlock_iff_payToPubKey :
    ∃ block', signBlock (fun _ _ => 0) scheme keystore
        (block [payToPubKeyHash, payToPubKey, nonstandard]) = some block' ∧
      checkBlockSignature (fun _ _ => 0) scheme 9 block' = true := by
  have hsigned : signBlock (fun _ _ => 0) scheme keystore
      (block [payToPubKeyHash, payToPubKey, nonstandard]) =
        some { block [payToPubKeyHash, payToPubKey, nonstandard] with vchBlockSig := [1] } := by
    decide +kernel
  obtain ⟨_, before, txout, after, hcoinbase, hvout, hsign, hbefore, hiff⟩ :=
    checkBlockSignature_signBlock_iff 9 hsigned
  cases hcoinbase
  refine ⟨_, hsigned, hiff.mpr ⟨by decide, .inl ?_⟩⟩
  match before with
  | [] => simp
  | [first] =>
    obtain ⟨rfl, -⟩ := cons.inj hvout
    decide +kernel
  | _ :: second :: _ =>
    obtain ⟨-, hrest⟩ := cons.inj hvout
    obtain ⟨rfl, -⟩ := cons.inj hrest
    have hnone := hbefore payToPubKey (by simp)
    exact absurd hnone (by decide +kernel)

end NonstandardFirst

end Verge
