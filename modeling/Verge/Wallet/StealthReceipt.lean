import Verge.StealthAgreement
import Verge.Wallet.StealthPayment

/-!
# What the recipient of a stealth payment finds

Only the change of a stealth payment goes to a key.  `FindStealthTransactions`
therefore tests the key id of the change against the two published points, and the
amount itself is matched only by an accident of that test.  All points of a payment
are multiples of the generator by numbers that follow from the draws and from the
secrets of the recipient.
-/

namespace Verge

open List Option SampleCurve

variable {G : Type} [AddCommGroup G] [DecidableEq G]

/-! ## Scripts of a payment -/

/-- The script that publishes `q` times the generator, or the empty one. -/
def publishScript (c : StealthCurve G) : Option Nat → CScript
  | none => []
  | some q => OP_RETURN :: pushData (c.encode (q • c.g))

variable {c : StealthCurve G} {nValue : Int} {sx : CStealthAddress}

omit [DecidableEq G] in
theorem extractDestination_publishScript {q : Option Nat} (hq : ∀ k, q = some k → k • c.g ≠ 0) :
    extractDestination c.hash160 (publishScript c q) = none := by
  cases q with
  | none => rfl
  | some k =>
    refine extractDestination_of_return (isPushOnly_pushData ?_)
    rw [c.length_encode _ (hq k rfl)]
    decide

omit [DecidableEq G] in
theorem stealthCode_publishScript {q : Option Nat} (hq : ∀ k, q = some k → k • c.g ≠ 0)
    (copy : ForeignEnd) :
    stealthCode copy (publishScript c q) =
      if copy.distance < 1 then none else q.map fun k => c.encode (k • c.g) := by
  unfold stealthCode
  split
  case isTrue => rfl
  case isFalse =>
    cases q with
    | none =>
      split
      · rfl
      · rfl
    | some k =>
      have hlength := c.length_encode _ (hq k rfl)
      have hread := getScriptOp_pushData (b := c.encode (k • c.g)) (by rw [hlength]; decide) []
      rw [append_nil] at hread
      simp [publishScript, hread, hlength]

section

variable (c : StealthCurve G) (key : valtype)

private theorem legacy_eq :
    ChangeDestination.script c (.legacy key) =
      [0x76, 0xa9, 20] ++ c.hash160 key ++ [0x88, 0xac] := by
  have hpush : pushData (c.hash160 key) = 20 :: c.hash160 key := by
    unfold pushData
    rw [c.length_hash160, if_pos (by decide)]
    rfl
  simp [ChangeDestination.script, getScriptForDestination, hpush]

theorem extractDestination_payToPubkeyHash {hash160 : valtype → valtype} {id : valtype}
    (h : id.length = 20) :
    extractDestination hash160 ([0x76, 0xa9, 20] ++ id ++ [0x88, 0xac]) = some (.keyID id) := by
  have hmatch : matchPayToPubkeyHash ([0x76, 0xa9, 20] ++ id ++ [0x88, 0xac]) = some id := by
    unfold matchPayToPubkeyHash
    rw [if_pos ⟨by simp [h], by simp, by simp [h]⟩]
    simp [h]
  have hsolver : solver ([0x76, 0xa9, 20] ++ id ++ [0x88, 0xac]) = some (.TX_PUBKEYHASH, [id]) := by
    unfold solver
    rw [if_neg (by simp [isPayToScriptHash])]
    have hwitness : isWitnessProgram ([0x76, 0xa9, 20] ++ id ++ [0x88, 0xac]) = none := by
      simp [isWitnessProgram]
    have hpubkey : matchPayToPubkey ([0x76, 0xa9, 20] ++ id ++ [0x88, 0xac]) = none := by
      simp [matchPayToPubkey, matchPayToPubkeyOf, h, CPubKey.PUBLIC_KEY_SIZE,
        CPubKey.COMPRESSED_PUBLIC_KEY_SIZE]
    rw [hwitness, hpubkey, hmatch]
    simp [OP_RETURN]
  unfold extractDestination
  rw [hsolver]

theorem extractDestination_legacy :
    extractDestination c.hash160 (ChangeDestination.script c (.legacy key)) =
      some (.keyID (c.hash160 key)) := by
  rw [legacy_eq]
  exact extractDestination_payToPubkeyHash (c.length_hash160 key)

/-- The script of a stealth address pays no key, whether or not its secrets are known. -/
theorem extractDestination_stealth (draws : List valtype) (sx : CStealthAddress) :
    extractDestination c.hash160 (ChangeDestination.script c (.stealth draws sx)) = none := by
  rw [ChangeDestination.script]
  unfold getScriptForStealthAddress
  split
  case h_1 => rfl
  case h_2 ephem_secret _ =>
    split
    case h_1 => rfl
    case h_2 sShared pk hsecret =>
      split
      case isFalse => rfl
      case isTrue =>
        simp only [StealthCurve.stealthSecret, bind_eq_bind, bind_eq_some_iff,
          Option.pure_def, Option.some.injEq, Prod.mk.injEq] at hsecret
        obtain ⟨Q, -, vchOutQ, -, R, -, pkOut, hpk, -, rfl⟩ := hsecret
        obtain ⟨hne, rfl⟩ := StealthCurve.point2bn_eq_some.mp hpk
        refine extractDestination_of_return (isPushOnly_pushData ?_)
        rw [c.length_encode _ hne]
        decide

theorem stealthCode_legacy (copy : ForeignEnd) :
    stealthCode copy (ChangeDestination.script c (.legacy key)) = none := by
  rw [legacy_eq]
  simp [stealthCode, OP_RETURN]

end

/-! ## The points that a payment publishes -/

/-- The wallet has both secrets of the address; that of the spend key fits by `spend_pubkey`. -/
structure StealthWallet.Holds (w : StealthWallet c) (sx : CStealthAddress) : Prop where
  mem : sx ∈ w.stealthAddresses
  unlocked : w.fLocked = false
  scan_length : sx.scan_secret.length = ec_secret_size
  spend_length : sx.spend_secret.length = ec_secret_size
  scan_pubkey : c.secretToPublicKey (bin2bn sx.scan_secret) = some sx.scan_pubkey

theorem smul_of_secretToPublicKey {k : Nat} {key : valtype}
    (h : c.secretToPublicKey k = some key) : k • c.g ≠ 0 ∧ key = c.encode (k • c.g) :=
  (StealthCurve.point2bn_eq_some.mp h).imp_right Eq.symm

/-- The number whose multiple of the generator `CScriptVisitor` publishes for an address with
the given secrets. -/
def scriptScalar (c : StealthCurve G) (draws : List valtype) (sx : CStealthAddress) : Option Nat :=
  (c.generateRandomSecret draws).bind fun e =>
    let q := bin2bn sx.spend_secret + c.sharedSecret e (bin2bn sx.scan_secret)
    if e * bin2bn sx.scan_secret % c.n = 0 ∨ q % c.n = 0 then none else some q

omit [DecidableEq G] in
theorem smul_scriptScalar {draws : List valtype} {q : Nat} (h : scriptScalar c draws sx = some q) :
    q • c.g ≠ 0 := by
  obtain ⟨e, -, he⟩ := bind_eq_some_iff.mp h
  dsimp only at he
  split at he
  · cases he
  case isFalse hne =>
    cases he
    exact fun hzero => hne (.inr ((StealthCurve.smul_eq_zero_iff _).mp hzero))

theorem getScriptForStealthAddress_eq {w : StealthWallet c} (h : w.Holds sx)
    (draws : List valtype) :
    getScriptForStealthAddress c draws sx = publishScript c (scriptScalar c draws sx) := by
  obtain ⟨hscan, hscanKey⟩ := smul_of_secretToPublicKey h.scan_pubkey
  obtain ⟨hspend, hspendKey⟩ :=
    smul_of_secretToPublicKey (w.spend_pubkey sx h.mem h.spend_length)
  unfold getScriptForStealthAddress scriptScalar
  cases c.generateRandomSecret draws with
  | none => rfl
  | some e =>
    simp only [bind_some]
    rw [hscanKey, hspendKey, StealthCurve.stealthSecret_smul hscan hspend]
    generalize bin2bn sx.spend_secret + c.sharedSecret e (bin2bn sx.scan_secret) = q
    by_cases he : e * bin2bn sx.scan_secret % c.n = 0
    · simp [he, publishScript]
    · by_cases hq : q % c.n = 0
      · simp [he, hq, StealthCurve.point2bn, StealthCurve.smul_eq_zero_iff, publishScript]
      · have hne : q • c.g ≠ 0 := fun hzero => hq ((StealthCurve.smul_eq_zero_iff _).mp hzero)
        simp [he, hq, StealthCurve.point2bn, hne, c.validSize_encode _ hne, publishScript]

/-- What the two recipients of a payment publish, in their order. -/
def SendRun.scalars (c : StealthCurve G) (run : SendRun) (sx : CStealthAddress) :
    List (Option Nat) :=
  let first := scriptScalar c run.scriptDraws sx
  let second := c.generateRandomSecret run.draws
  if run.fSwap then [second, first] else [first, second]

/-- An output whose script publishes `q` times the generator, or nothing. -/
structure Publishes (c : StealthCurve G) (txout : CTxOut) (q : Option Nat) : Prop where
  script : txout.scriptPubKey = publishScript c q
  smul : ∀ k, q = some k → k • c.g ≠ 0

/-- The outputs of the two recipients. -/
def PublishesPair (c : StealthCurve G) (run : SendRun) (sx : CStealthAddress)
    (vout : List CTxOut) : Prop :=
  ∃ first second a b, run.scalars c sx = [a, b] ∧ Publishes c first a ∧ Publishes c second b ∧
    vout = match run.change with
      | none => [first, second]
      | some (nChangePos, nChange, dest) =>
        [first, second].insertIdx nChangePos.val ⟨nChange, dest.script c⟩

variable {vout : List CTxOut}

theorem outputs_of_create {run : SendRun} {P : valtype} {e : Nat} {w : StealthWallet c}
    (hholds : w.Holds sx)
    (h : createStealthTransaction c run (getScriptForStealthAddress c run.scriptDraws sx) nValue P =
      some vout)
    (he : c.generateRandomSecret run.draws = some e) (hP : c.secretToPublicKey e = some P) :
    PublishesPair c run sx vout := by
  obtain ⟨hne, rfl⟩ := smul_of_secretToPublicKey hP
  have hpay : Publishes c
      ⟨nValue, getScriptForStealthAddress c run.scriptDraws sx⟩
      (scriptScalar c run.scriptDraws sx) :=
    ⟨getScriptForStealthAddress_eq hholds _, fun _ => smul_scriptScalar⟩
  have hdata : Publishes c ⟨MIN_COIN_FEE, OP_RETURN :: pushData (c.encode (e • c.g))⟩ (some e) :=
    ⟨rfl, fun k hk => by cases hk; exact hne⟩
  simp only [createStealthTransaction] at h
  split at h
  case isFalse => cases h
  case isTrue =>
    obtain rfl := Option.some.inj h
    rw [PublishesPair, SendRun.scalars, he]
    cases run.fSwap with
    | false => exact ⟨_, _, _, _, rfl, hpay, hdata, by cases run.change <;> rfl⟩
    | true => exact ⟨_, _, _, _, rfl, hdata, hpay, by cases run.change <;> rfl⟩

theorem exists_sendStealthMoneyToDestination {run : SendRun} {ephem_secret shared : Nat}
    {pkSendTo ephem_pubkey : valtype} (hvalue : 0 < nValue)
    (hbalance : nValue + MIN_COIN_FEE ≤ run.nBalance)
    (hdraw : c.generateRandomSecret run.draws = some ephem_secret)
    (hsecret : c.stealthSecret ephem_secret sx.scan_pubkey sx.spend_pubkey =
      some (shared, pkSendTo))
    (hvalid : CPubKey.validSize pkSendTo = true)
    (hephem : c.secretToPublicKey ephem_secret = some ephem_pubkey) (hlocked : run.fLocked = false)
    (hcreated : run.fCreated = true) :
    ∃ vout, sendStealthMoneyToDestination c run sx nValue = .ok vout := by
  unfold sendStealthMoneyToDestination
  rw [if_neg (not_le.mpr hvalue), if_neg (not_lt.mpr hbalance)]
  simp [hdraw, hsecret, hvalid, hephem, sendStealthMoney, createStealthTransaction, hlocked,
    hcreated]

theorem outputs_of_send {run : SendRun} {w : StealthWallet c} (hholds : w.Holds sx)
    (h : sendStealthMoneyToDestination c run sx nValue = .ok vout) :
    PublishesPair c run sx vout := by
  unfold sendStealthMoneyToDestination at h
  split at h
  · cases h
  split at h
  · cases h
  split at h
  · cases h
  case h_2 e he =>
  split at h
  · cases h
  split at h
  · cases h
  split at h
  · cases h
  case h_2 P hP =>
    unfold sendStealthMoney at h
    split at h
    · cases h
    split at h
    · split at h <;> cases h
    case h_2 vout' hcreate =>
      obtain rfl := Except.ok.inj h
      exact outputs_of_create hholds hcreate he hP

/-! ## The test of one point -/

def KeylessOutputs (c : StealthCurve G) (vout : List CTxOut) : Prop :=
  ∀ out ∈ vout, extractDestination c.hash160 out.scriptPubKey = none

omit [DecidableEq G] in
theorem Publishes.keyless {first second : CTxOut} {a b : Option Nat} (hfirst : Publishes c first a)
    (hsecond : Publishes c second b) : KeylessOutputs c [first, second] := by
  intro out hout
  rcases mem_pair.mp hout with rfl | rfl
  · rw [hfirst.script, extractDestination_publishScript hfirst.smul]
  · rw [hsecond.script, extractDestination_publishScript hsecond.smul]

namespace CStealthAddress

/-- The private key that the secrets of an address give for `q` times the generator. -/
def oneTimeSecret (c : StealthCurve G) (it : CStealthAddress) (q : Nat) : Nat :=
  (bin2bn it.spend_secret + c.sharedSecret (bin2bn it.scan_secret) q) % c.n

/-- The secrets of an address give the key with the id `ckid` for `q` times the generator, and
it has 32 bytes. -/
def DerivesKey (c : StealthCurve G) (q : Nat) (ckid : valtype) (it : CStealthAddress) : Prop :=
  it.scan_secret.length = ec_secret_size ∧ it.spend_secret.length = ec_secret_size ∧
    bin2bn it.scan_secret * q % c.n ≠ 0 ∧
    (bn2bin (it.oneTimeSecret c q)).length = ec_secret_size ∧
    c.hash160 (c.encode (it.oneTimeSecret c q • c.g)) = ckid

instance (c : StealthCurve G) (q : Nat) (ckid : valtype) :
    DecidablePred (DerivesKey c q ckid) := fun _ => inferInstanceAs (Decidable (_ ∧ _))

end CStealthAddress

namespace StealthWallet

open CStealthAddress

def CanSpend (w : StealthWallet c) (ckid : valtype) : Prop :=
  ∃ secret, (ckid, some secret) ∈ w.keys ∧ (c.secretToPublicKey secret).map c.hash160 = some ckid

variable {w : StealthWallet c} {ckid : valtype} {q : Nat}

omit [DecidableEq G] in
theorem smul_oneTimeSecret {it : CStealthAddress}
    (h : (bn2bin (it.oneTimeSecret c q)).length = ec_secret_size) :
    it.oneTimeSecret c q • c.g ≠ 0 := by
  have hrange := (length_bn2bin_eq_iff _ 31).mp h
  have hpos : 0 < it.oneTimeSecret c q := lt_of_lt_of_le (by decide) hrange.1
  exact StealthCurve.smul_ne_zero_of_secret hpos (Nat.mod_lt _ c.prime.pos)

theorem matchAddress_smul (hunlocked : w.fLocked = false) (hq : q • c.g ≠ 0)
    {it : CStealthAddress} (hit : it ∈ w.stealthAddresses) :
    w.matchAddress (c.encode (q • c.g)) ckid it =
      if it.DerivesKey c q ckid then some (ckid, some (it.oneTimeSecret c q)) else none := by
  unfold matchAddress
  by_cases hscan : it.scan_secret.length = ec_secret_size
  swap
  · rw [if_pos hscan, if_neg fun h => hscan h.1]
  by_cases hspend : it.spend_secret.length = ec_secret_size
  swap
  · -- the extracted key may be any, but there is no secret to spend it
    rw [if_neg (not_not.mpr hscan), if_neg fun h => hspend h.2.1, hunlocked]
    split
    · rfl
    · split_ifs <;> first | rfl | contradiction
  obtain ⟨hne, hkey⟩ := smul_of_secretToPublicKey (w.spend_pubkey it hit hspend)
  rw [if_neg (not_not.mpr hscan), hkey, StealthCurve.stealthSecret_smul hq hne]
  by_cases hzero : bin2bn it.scan_secret * q % c.n = 0
  · rw [if_pos hzero, if_neg fun h => h.2.2.1 hzero]
  rw [if_neg hzero]
  have hpoint : (bin2bn it.spend_secret + c.sharedSecret (bin2bn it.scan_secret) q) • c.g =
      it.oneTimeSecret c q • c.g := (StealthCurve.smul_mod _).symm
  rw [hpoint]
  by_cases hsum : it.oneTimeSecret c q • c.g = 0
  · rw [StealthCurve.point2bn, if_pos hsum,
      if_neg fun h : it.DerivesKey c q ckid => smul_oneTimeSecret h.2.2.2.1 hsum]
    rfl
  have hpublic : c.point2bn (it.oneTimeSecret c q • c.g) =
      some (c.encode (it.oneTimeSecret c q • c.g)) := StealthCurve.point2bn_eq_some.mpr ⟨hsum, rfl⟩
  rw [hpublic]
  simp only [map_some, c.validSize_encode _ hsum, hunlocked]
  by_cases hid : ckid = c.hash160 (c.encode (it.oneTimeSecret c q • c.g))
  swap
  · rw [if_neg (by decide), if_pos hid, if_neg fun h => hid h.2.2.2.2.symm]
  rw [if_neg (by decide), if_neg (not_not.mpr hid), if_neg (by decide),
    if_neg (not_not.mpr hspend)]
  by_cases hlength : (bn2bin (it.oneTimeSecret c q)).length = ec_secret_size
  · rw [StealthCurve.stealthSharedToSecretSpend_eq_some.mpr ⟨rfl, hlength⟩,
      if_pos ⟨hscan, hspend, hzero, hlength, hid.symm⟩]
    show (c.point2bn (it.oneTimeSecret c q • c.g)).map _ = _
    rw [hpublic, map_some, ← hid]
    rfl
  · have hrefused : c.stealthSharedToSecretSpend (c.sharedSecret (bin2bn it.scan_secret) q)
        (bin2bn it.spend_secret) = none := by
      refine eq_none_iff_forall_ne_some.mpr fun bnSpend h => hlength ?_
      obtain ⟨rfl, hlength⟩ := StealthCurve.stealthSharedToSecretSpend_eq_some.mp h
      exact hlength
    rw [hrefused, if_neg fun h : it.DerivesKey c q ckid => hlength h.2.2.2.1]

theorem firstAddress_smul (hunlocked : w.fLocked = false) (hq : q • c.g ≠ 0) (ckid : valtype) :
    w.firstAddress (c.encode (q • c.g)) ckid =
      (w.stealthAddresses.find? fun it => it.DerivesKey c q ckid).map fun it =>
        (it, ckid, some (it.oneTimeSecret c q)) := by
  have hlist : ∀ its ⊆ w.stealthAddresses,
      (its.findSome? fun it => (w.matchAddress (c.encode (q • c.g)) ckid it).map (it, ·)) =
        (its.find? fun it => it.DerivesKey c q ckid).map fun it =>
          (it, ckid, some (it.oneTimeSecret c q)) := by
    intro its hits
    induction its with
    | nil => rfl
    | cons it its ih =>
      obtain ⟨hit, hits⟩ := cons_subset.mp hits
      rw [findSome?_cons, find?_cons, ih hits, matchAddress_smul hunlocked hq hit]
      by_cases hderives : it.DerivesKey c q ckid
      · simp [hderives]
      · simp [hderives]
  exact hlist _ (Subset.refl _)

/-- The test of one published point against the only key id of a transaction. -/
def testPoint (nOutputId : Nat) (ckid : valtype) (found : StealthWallet c × List StealthMatch)
    (point : valtype) : StealthWallet c × List StealthMatch :=
  if found.1.haveKey ckid then found
  else
    match found.1.firstAddress point ckid with
    | none => found
    | some (it, key) => (found.1.addKey key, found.2 ++ [⟨nOutputId, it⟩])

theorem foldl_testPoint_of_haveKey {nOutputId : Nat}
    {found : StealthWallet c × List StealthMatch} (h : found.1.haveKey ckid = true)
    (points : List valtype) : points.foldl (testPoint nOutputId ckid) found = found := by
  induction points with
  | nil => rfl
  | cons point points ih =>
    have hstep : testPoint nOutputId ckid found point = found := if_pos h
    rw [foldl_cons, hstep, ih]

/-- The address that is credited, and the number of the point that it is credited for. -/
def credited (w : StealthWallet c) (ckid : valtype) (qs : List Nat) :
    Option (CStealthAddress × Nat) :=
  qs.findSome? fun q => (w.stealthAddresses.find? fun it => it.DerivesKey c q ckid).map (·, q)

theorem credited_cons {it : CStealthAddress} {its : List CStealthAddress}
    (hits : w.stealthAddresses = it :: its) (h : it.DerivesKey c q ckid) (qs : List Nat) :
    w.credited ckid (q :: qs) = some (it, q) := by
  simp [credited, hits, h]

-- The first point that gives the key is the last one that is tested.
theorem foldl_testPoint (hunlocked : w.fLocked = false) (hhave : w.haveKey ckid = false)
    (nOutputId : Nat) {qs : List Nat} (hqs : ∀ q ∈ qs, q • c.g ≠ 0) :
    (qs.map fun q => c.encode (q • c.g)).foldl (testPoint nOutputId ckid) (w, []) =
      match w.credited ckid qs with
      | none => (w, [])
      | some (it, q) => (w.addKey (ckid, some (it.oneTimeSecret c q)), [⟨nOutputId, it⟩]) := by
  induction qs with
  | nil => rfl
  | cons q qs ih =>
    obtain ⟨hq, hqs⟩ := forall_mem_cons.mp hqs
    have hfirst := firstAddress_smul hunlocked hq ckid
    rw [map_cons, foldl_cons, credited, findSome?_cons]
    cases hfind : w.stealthAddresses.find? fun it => it.DerivesKey c q ckid with
    | none =>
      rw [hfind] at hfirst
      have hstep : testPoint nOutputId ckid (w, []) (c.encode (q • c.g)) = (w, []) := by
        simp [testPoint, hhave, hfirst]
      rw [hstep]
      exact ih hqs
    | some it =>
      rw [hfind] at hfirst
      have hstep : testPoint nOutputId ckid (w, []) (c.encode (q • c.g)) =
          (w.addKey (ckid, some (it.oneTimeSecret c q)), [⟨nOutputId, it⟩]) := by
        simp [testPoint, hhave, hfirst]
      rw [hstep, foldl_testPoint_of_haveKey]
      · rfl
      · simp [haveKey, addKey]

theorem derivesKey_of_credited {qs : List Nat} {it : CStealthAddress}
    (h : w.credited ckid qs = some (it, q)) : it.DerivesKey c q ckid := by
  obtain ⟨q', -, hq'⟩ := exists_of_findSome?_eq_some h
  obtain ⟨it', hfind, heq⟩ := map_eq_some_iff.mp hq'
  obtain ⟨rfl, rfl⟩ := Prod.mk.inj heq
  have hderives := find?_some hfind
  exact of_decide_eq_true hderives

/-! ## From outputs to points -/

variable (copies : Nat → ForeignEnd)

def publishedPoints (vout : List (CTxOut × Nat)) : List valtype :=
  vout.filterMap fun (txout, i) => stealthCode (copies i) txout.scriptPubKey

theorem matchOutputs_eq_none {ephem : valtype} {nOuter : Nat} {outs : List (CTxOut × Nat)}
    (h : ∀ out ∈ outs, extractDestination c.hash160 out.1.scriptPubKey = none) :
    w.matchOutputs ephem nOuter outs = none := by
  refine List.findSome?_eq_none_iff.mpr fun out hout => ?_
  simp [h out hout]

theorem findStealthTransactions_of_keyless (h : KeylessOutputs c vout) (w : StealthWallet c) :
    w.findStealthTransactions copies vout = (w, []) := by
  have hzip : ∀ out ∈ vout.zipIdx, extractDestination c.hash160 out.1.scriptPubKey = none :=
    fun out hout => h out.1 (fst_mem_of_mem_zipIdx hout)
  have hstep : ∀ (outs : List (CTxOut × Nat)) (found : StealthWallet c × List StealthMatch),
      outs.foldl (scanOutput copies vout) found = found := by
    intro outs
    induction outs with
    | nil => exact fun _ => rfl
    | cons out outs ih =>
      intro found
      have hsame : scanOutput copies vout found out = found := by
        unfold scanOutput
        split
        · rfl
        · rw [matchOutputs_eq_none hzip]
      rw [foldl_cons, hsame, ih]
  exact hstep _ _

end StealthWallet

/-- The numbers of the published points that the scan sees: those of outputs whose copied
script ends behind the iterator. -/
def scanned (copies : Nat → ForeignEnd) (scalars : List (Option Nat × Nat)) : List Nat :=
  scalars.filterMap fun (q, i) => if (copies i).distance < 1 then none else q

/-! ## Payments that arrive -/

/-- An output carries the amount, the scan matches it to the address, and afterwards the
wallet can spend it. -/
def PaymentReceived (copies : Nat → ForeignEnd) (w : StealthWallet c) (sx : CStealthAddress)
    (nValue : Int) (vout : List CTxOut) : Prop :=
  ∃ nOutputId txout ckid, vout[nOutputId]? = some txout ∧ txout.nValue = nValue ∧
    extractDestination c.hash160 txout.scriptPubKey = some (.keyID ckid) ∧
    ⟨nOutputId, sx⟩ ∈ (w.findStealthTransactions copies vout).2 ∧
    (w.findStealthTransactions copies vout).1.CanSpend ckid

theorem not_paymentReceived_of_keyless (h : KeylessOutputs c vout) (copies : Nat → ForeignEnd)
    (w : StealthWallet c) (sx : CStealthAddress) (nValue : Int) :
    ¬ PaymentReceived copies w sx nValue vout := by
  rintro ⟨nOutputId, txout, ckid, -, -, -, hmatch, -⟩
  rw [StealthWallet.findStealthTransactions_of_keyless copies h] at hmatch
  cases hmatch

open StealthWallet

section OneKey

variable {before after : List CTxOut} {txout : CTxOut} {ckid : valtype}
  (hbefore : KeylessOutputs c before)
  (hafter : KeylessOutputs c after)
  (hout : extractDestination c.hash160 txout.scriptPubKey = some (.keyID ckid))

include hbefore hafter hout

theorem matchOutputs_oneKey (w : StealthWallet c) (ephem : valtype) {nOuter : Nat}
    (hne : nOuter ≠ before.length) :
    w.matchOutputs ephem nOuter (before ++ txout :: after).zipIdx =
      if w.haveKey ckid then none
      else (w.firstAddress ephem ckid).map fun found => (⟨before.length, found.1⟩, found.2) := by
  have hpre : w.matchOutputs ephem nOuter before.zipIdx = none :=
    matchOutputs_eq_none fun out h => hbefore out.1 (fst_mem_of_mem_zipIdx h)
  have hpost : w.matchOutputs ephem nOuter (after.zipIdx (before.length + 1)) = none :=
    matchOutputs_eq_none fun out h => hafter out.1 (fst_mem_of_mem_zipIdx h)
  unfold matchOutputs at hpre hpost ⊢
  rw [zipIdx_append, List.findSome?_append, hpre, none_or, zipIdx_cons,
    List.findSome?_cons, Nat.zero_add, hpost]
  simp only [hne.symm, if_false, hout]
  split
  · rename_i h; exact h.symm
  · rename_i h; exact h.symm

variable (copies : Nat → ForeignEnd)
  (hcode : ∀ copy : ForeignEnd, stealthCode copy txout.scriptPubKey = none)

include hcode

theorem findStealthTransactions_oneKey (w : StealthWallet c) :
    w.findStealthTransactions copies (before ++ txout :: after) =
      (publishedPoints copies (before ++ txout :: after).zipIdx).foldl
        (testPoint before.length ckid) (w, []) := by
  have hfold : ∀ (outs : List (CTxOut × Nat)) (found : StealthWallet c × List StealthMatch),
      (∀ out ∈ outs, out.2 = before.length → out.1 = txout) →
      outs.foldl (scanOutput copies (before ++ txout :: after)) found =
        (publishedPoints copies outs).foldl (testPoint before.length ckid) found := by
    intro outs
    induction outs with
    | nil => exact fun _ _ => rfl
    | cons out outs ih =>
      intro found hkey
      have ih' := ih (scanOutput copies (before ++ txout :: after) found out)
        fun out' h => hkey out' (mem_cons_of_mem _ h)
      rw [foldl_cons, ih']
      cases hpoint : stealthCode (copies out.2) out.1.scriptPubKey with
      | none => simp [publishedPoints, scanOutput, hpoint]
      | some point =>
        have hne : out.2 ≠ before.length := fun h => by
          rw [hkey out mem_cons_self h, hcode] at hpoint
          cases hpoint
        have hstep : scanOutput copies (before ++ txout :: after) found out =
            testPoint before.length ckid found point := by
          unfold scanOutput testPoint
          simp only [hpoint, matchOutputs_oneKey hbefore hafter hout found.1 point hne]
          cases found.1.haveKey ckid with
          | true => rfl
          | false => cases found.1.firstAddress point ckid <;> rfl
        simp [publishedPoints, hpoint, hstep]
  unfold findStealthTransactions
  rw [hfold]
  intro out hmem hidx
  have hget := mem_zipIdx' hmem
  simp only [hidx] at hget
  rw [hget.2]
  simp

theorem paymentReceived_oneKey_iff {w : StealthWallet c} (hunlocked : w.fLocked = false)
    (hhave : w.haveKey ckid = false) {qs : List Nat} (hqs : ∀ q ∈ qs, q • c.g ≠ 0)
    (hpoints : publishedPoints copies (before ++ txout :: after).zipIdx =
      qs.map fun q => c.encode (q • c.g)) :
    PaymentReceived copies w sx nValue (before ++ txout :: after) ↔
      txout.nValue = nValue ∧ ∃ q, w.credited ckid qs = some (sx, q) := by
  have hscan := findStealthTransactions_oneKey hbefore hafter hout copies hcode w
  rw [hpoints, foldl_testPoint hunlocked hhave before.length hqs] at hscan
  have hget : (before ++ txout :: after)[before.length]? = some txout := by simp
  rw [PaymentReceived, hscan]
  constructor
  · rintro ⟨nOutputId, txout', ckid', hget', hvalue, -, hmatch, -⟩
    cases hcredited : w.credited ckid qs with
    | none =>
      rw [hcredited] at hmatch
      cases hmatch
    | some found =>
      rw [hcredited] at hmatch
      obtain ⟨rfl, rfl⟩ := StealthMatch.mk.inj (mem_singleton.mp hmatch)
      obtain rfl : txout = txout' := Option.some.inj (hget.symm.trans hget')
      exact ⟨hvalue, found.2, rfl⟩
  · rintro ⟨hvalue, q, hcredited⟩
    obtain ⟨-, -, -, hlength, hid⟩ := derivesKey_of_credited hcredited
    rw [hcredited]
    refine ⟨before.length, txout, ckid, hget, hvalue, hout, mem_singleton.mpr rfl,
      sx.oneTimeSecret c q, mem_cons_self, ?_⟩
    have hpublic : c.secretToPublicKey (sx.oneTimeSecret c q) = some _ :=
      StealthCurve.point2bn_eq_some.mpr ⟨smul_oneTimeSecret hlength, rfl⟩
    rw [hpublic, map_some, hid]

end OneKey

section Published

variable (copies : Nat → ForeignEnd) {scalars : List (Option Nat)}

/-- An output that publishes a point, or one from which the scan reads none. -/
def Shows (c : StealthCurve G) (txout : CTxOut) (q : Option Nat) : Prop :=
  (∀ k, q = some k → k • c.g ≠ 0) ∧ ∀ copy : ForeignEnd, stealthCode copy txout.scriptPubKey =
    if copy.distance < 1 then none else q.map fun k => c.encode (k • c.g)

omit [DecidableEq G] in
theorem Publishes.shows {txout : CTxOut} {q : Option Nat} (h : Publishes c txout q) :
    Shows c txout q :=
  ⟨h.smul, fun copy => h.script ▸ stealthCode_publishScript h.smul copy⟩

omit [DecidableEq G] in
theorem publishedPoints_eq (h : Forall₂ (Shows c) vout scalars) (start : Nat) :
    publishedPoints copies (vout.zipIdx start) =
        (scanned copies (scalars.zipIdx start)).map (fun q => c.encode (q • c.g)) ∧
      ∀ q ∈ scanned copies (scalars.zipIdx start), q • c.g ≠ 0 := by
  induction h generalizing start with
  | nil => exact ⟨rfl, by simp [scanned]⟩
  | @cons txout q vout scalars hshow _ ih =>
    obtain ⟨hpoints, hne⟩ := ih (start + 1)
    obtain ⟨hsmul, hcode⟩ := hshow
    simp only [publishedPoints, scanned] at hpoints hne ⊢
    simp only [zipIdx_cons, filterMap_cons, hcode]
    by_cases hdistance : (copies start).distance < 1
    · simp only [if_pos hdistance]
      exact ⟨hpoints, hne⟩
    · simp only [if_neg hdistance]
      cases q with
      | none => exact ⟨hpoints, hne⟩
      | some k =>
        simp only [map_some, map_cons, hpoints, true_and]
        exact forall_mem_cons.mpr ⟨hsmul k rfl, hne⟩

end Published

private theorem insertIdx_split (first second txout : CTxOut) (nChangePos : Fin 3) :
    ∃ before after, [first, second].insertIdx nChangePos.val txout = before ++ txout :: after ∧
      before ++ after = [first, second] := by
  match nChangePos with
  | 0 => exact ⟨[], [first, second], rfl, rfl⟩
  | 1 => exact ⟨[first], [second], rfl, rfl⟩
  | 2 => exact ⟨[first, second], [], rfl, rfl⟩

omit [DecidableEq G] in
private theorem shows_insertIdx {first second txout : CTxOut} {a b : Option Nat}
    (hfirst : Shows c first a) (hsecond : Shows c second b) (hchange : Shows c txout none)
    (nChangePos : Fin 3) :
    Forall₂ (Shows c) ([first, second].insertIdx nChangePos.val txout)
      ([a, b].insertIdx nChangePos.val none) := by
  match nChangePos with
  | 0 => exact .cons hchange (.cons hfirst (.cons hsecond .nil))
  | 1 => exact .cons hfirst (.cons hchange (.cons hsecond .nil))
  | 2 => exact .cons hfirst (.cons hsecond (.cons hchange .nil))

/-- The amount reaches the recipient exactly where the change has the same value and its key
is the one that the secrets of the address give for a point that was drawn and is seen. -/
theorem stealth_payment_received_iff {c : StealthCurve G} {run : SendRun} {w : StealthWallet c}
    {sx : CStealthAddress} {nValue : Int} {vout : List CTxOut} (copies : Nat → ForeignEnd)
    (hrun : sendStealthMoneyToDestination c run sx nValue = .ok vout) (hholds : w.Holds sx)
    (hfresh : ∀ nChangePos nChange key, run.change = some (nChangePos, nChange, .legacy key) →
      w.haveKey (c.hash160 key) = false) :
    PaymentReceived copies w sx nValue vout ↔
      ∃ nChangePos key q, run.change = some (nChangePos, nValue, .legacy key) ∧
        w.credited (c.hash160 key)
          (scanned copies ((run.scalars c sx).insertIdx nChangePos.val none).zipIdx) =
            some (sx, q) := by
  obtain ⟨first, second, a, b, hscalars, hfirst, hsecond, hvout⟩ := outputs_of_send hholds hrun
  have hkeyless := hfirst.keyless hsecond
  match hchange : run.change with
  | none =>
    rw [hchange] at hvout
    subst hvout
    refine iff_of_false (not_paymentReceived_of_keyless hkeyless copies w sx nValue) ?_
    rintro ⟨_, _, _, h, -⟩
    cases h
  | some (nChangePos, nChange, .stealth draws sxAddr) =>
    rw [hchange] at hvout
    subst hvout
    refine iff_of_false (not_paymentReceived_of_keyless ?_ copies w sx nValue) ?_
    · intro out hout
      rcases eq_or_mem_of_mem_insertIdx hout with rfl | hout
      · exact extractDestination_stealth c draws sxAddr
      · exact hkeyless out hout
    · rintro ⟨_, _, _, h, -⟩
      cases h
  | some (nChangePos, nChange, .legacy key) =>
    rw [hchange] at hvout
    have hshows : Forall₂ (Shows c) vout ((run.scalars c sx).insertIdx nChangePos.val none) := by
      rw [hvout, hscalars]
      exact shows_insertIdx hfirst.shows hsecond.shows
        ⟨by simp, fun copy => by simp [stealthCode_legacy]⟩ nChangePos
    obtain ⟨hpoints, hqs⟩ := publishedPoints_eq copies hshows 0
    obtain ⟨before, after, hinsert, hsplit⟩ := insertIdx_split first second
      ⟨nChange, ChangeDestination.script c (.legacy key)⟩ nChangePos
    simp only [hinsert] at hvout
    subst hvout
    have hbefore : KeylessOutputs c before :=
      fun out h => hkeyless out (hsplit ▸ mem_append_left _ h)
    have hafter : KeylessOutputs c after :=
      fun out h => hkeyless out (hsplit ▸ mem_append_right _ h)
    rw [paymentReceived_oneKey_iff hbefore hafter (extractDestination_legacy c key) copies
      (stealthCode_legacy c key) hholds.unlocked (hfresh nChangePos nChange key hchange) hqs
      hpoints]
    constructor
    · rintro ⟨rfl, q, hcredited⟩
      exact ⟨nChangePos, key, q, rfl, hcredited⟩
    · rintro ⟨nChangePos', key', q, heq, hcredited⟩
      simp only [Option.some.injEq, Prod.mk.injEq, ChangeDestination.legacy.injEq] at heq
      obtain ⟨rfl, rfl, rfl⟩ := heq
      exact ⟨rfl, q, hcredited⟩

/-! ## A lost payment -/

namespace SampleCurve

def address : CStealthAddress where
  scan_pubkey := curve.encode (1 • curve.g)
  spend_pubkey := curve.encode (256 ^ 31 • curve.g)
  scan_secret := List.replicate 31 0 ++ [1]
  spend_secret := 1 :: List.replicate 31 0

theorem spend_pubkey_address :
    curve.secretToPublicKey (bin2bn address.spend_secret) = some address.spend_pubkey := by
  have hspend : bin2bn address.spend_secret = 256 ^ 31 := by decide +kernel
  rw [hspend]
  exact secretToPublicKey_eq (by decide) (by decide)

def wallet : StealthWallet curve where
  stealthAddresses := [address]
  keys := []
  fLocked := false
  spend_pubkey := by
    intro it hit _
    rw [mem_singleton.mp hit]
    exact spend_pubkey_address

/-- The draws are `256 ^ 2` and `256 ^ 3` as keys, `256 ^ 29` and `256 ^ 28` where they are
compared. -/
def run (change : Option (Fin 3 × Int × ChangeDestination)) : SendRun where
  nBalance := 100000000
  fLocked := false
  draws := [List.replicate 29 0 ++ [1, 0, 0]]
  scriptDraws := [List.replicate 28 0 ++ [1, 0, 0, 0]]
  fSwap := true
  fCreated := true
  nFeeRequired := 100000
  change := change

theorem wallet_holds : wallet.Holds address where
  mem := mem_singleton.mpr rfl
  unlocked := rfl
  scan_length := by decide
  spend_length := by decide
  scan_pubkey := by
    have hscan : bin2bn address.scan_secret = 1 := by decide +kernel
    rw [hscan]
    exact secretToPublicKey_eq (by decide) (by decide)

theorem exists_stealthSecret {k spend : Nat} (hk : 0 < k ∧ k < order)
    (hspend : 0 < spend ∧ spend < order)
    (hsum : 0 < (spend + (curve.sha256 (2 :: writeLE 32 k)).toNat) % order) :
    ∃ shared pk, curve.stealthSecret k (curve.encode (1 • curve.g))
        (curve.encode (spend • curve.g)) = some (shared, pk) ∧ CPubKey.validSize pk = true := by
  have hne : spend • curve.g + (curve.sha256 (curve.encode (k • 1 • curve.g))).toNat • curve.g ≠
      0 := by
    rw [one_nsmul, encode_smul hk.2, ← add_nsmul, ← StealthCurve.smul_mod]
    exact smul_ne_zero hsum (Nat.mod_lt _ (by decide))
  refine ⟨_, _, StealthCurve.stealthSecret_encode (smul_ne_zero (by decide) (by decide))
    (smul_ne_zero hspend.1 hspend.2) ?_ hne, curve.validSize_encode _ hne⟩
  rw [one_nsmul]
  exact smul_ne_zero hk.1 hk.2

theorem draws_run (change : Option (Fin 3 × Int × ChangeDestination)) :
    curve.generateRandomSecret (run change).draws = some (256 ^ 2) := by
  show curve.generateRandomSecret (run none).draws = _
  decide +kernel

theorem exists_send (change : Option (Fin 3 × Int × ChangeDestination)) :
    ∃ vout, sendStealthMoneyToDestination curve (run change) address 5000000 = .ok vout := by
  obtain ⟨shared, pk, hsecret, hvalid⟩ : ∃ shared pk, curve.stealthSecret (256 ^ 2)
      address.scan_pubkey address.spend_pubkey = some (shared, pk) ∧
        CPubKey.validSize pk = true :=
    exists_stealthSecret (by decide) (by decide) (by decide +kernel)
  have hephem := secretToPublicKey_eq (k := 256 ^ 2) (by decide) (by decide)
  have hbalance : (5000000 : Int) + MIN_COIN_FEE ≤ 100000000 := by decide
  exact exists_sendStealthMoneyToDestination (by decide) hbalance (draws_run change) hsecret hvalid
    hephem rfl rfl

/-- The key of the address for the first draw. -/
def oneTimeKey : valtype := 2 :: writeLE 32 (256 ^ 31 + 256 ^ 29)

theorem derivesKey_oneTimeKey : address.DerivesKey curve (256 ^ 2) (curve.hash160 oneTimeKey) := by
  have hscan : bin2bn address.scan_secret = 1 := by decide +kernel
  have hspend : bin2bn address.spend_secret = 256 ^ 31 := by decide +kernel
  have hshared : curve.sharedSecret 1 (256 ^ 2) = 256 ^ 29 := by
    rw [StealthCurve.sharedSecret, encode_smul (by decide +kernel)]
    decide +kernel
  have hsecret : address.oneTimeSecret curve (256 ^ 2) = 256 ^ 31 + 256 ^ 29 := by
    rw [CStealthAddress.oneTimeSecret, hscan, hspend, hshared]
    exact Nat.mod_eq_of_lt (by decide +kernel : 256 ^ 31 + 256 ^ 29 < order)
  refine ⟨by decide, by decide, by rw [hscan]; decide +kernel, ?_, ?_⟩
  · rw [hsecret]
    exact (length_bn2bin_eq_iff _ 31).mpr (by decide +kernel)
  · rw [hsecret, encode_smul (by decide +kernel), oneTimeKey]

def copies : Nat → ForeignEnd := fun _ => ⟨64, 0⟩

end SampleCurve

/-- An amount sent to a stealth address of an unlocked wallet is not found by it, however the
copies lie in memory. -/
theorem stealth_payment_lost :
    ∃ vout, sendStealthMoneyToDestination SampleCurve.curve (SampleCurve.run none)
        SampleCurve.address 5000000 = .ok vout ∧
      SampleCurve.wallet.Holds SampleCurve.address ∧
      (∀ ckid, SampleCurve.wallet.haveKey ckid = false) ∧
      ∀ copies, ¬ PaymentReceived copies SampleCurve.wallet SampleCurve.address 5000000 vout := by
  obtain ⟨vout, hsend⟩ := exists_send none
  obtain ⟨first, second, a, b, -, hfirst, hsecond, rfl⟩ := outputs_of_send wallet_holds hsend
  refine ⟨_, hsend, wallet_holds, fun _ => rfl, fun copies => ?_⟩
  exact not_paymentReceived_of_keyless (hfirst.keyless hsecond) copies _ _ _

theorem stealth_payment_received_iff_change :
    ∃ vout, sendStealthMoneyToDestination SampleCurve.curve
        (SampleCurve.run (some (1, 5000000, .legacy oneTimeKey))) SampleCurve.address 5000000 =
          .ok vout ∧
      PaymentReceived SampleCurve.copies SampleCurve.wallet SampleCurve.address 5000000 vout := by
  obtain ⟨vout, hsend⟩ := exists_send (some (1, 5000000, .legacy oneTimeKey))
  refine ⟨vout, hsend, ?_⟩
  rw [stealth_payment_received_iff SampleCurve.copies hsend wallet_holds fun _ _ _ _ => rfl]
  refine ⟨1, oneTimeKey, 256 ^ 2, rfl, ?_⟩
  have hscanned : ∀ x k, scanned SampleCurve.copies
      (([some k, x] : List (Option Nat)).insertIdx 1 none).zipIdx =
        k :: scanned SampleCurve.copies [(none, 1), (x, 2)] := fun _ _ => rfl
  rw [SendRun.scalars, draws_run]
  refine (congrArg _ (hscanned _ _)).trans ?_
  exact credited_cons (w := wallet) rfl derivesKey_oneTimeKey _

end Verge
