import Verge.Smsg.PaidMessage

/-!
# Whose messages a recipient reads

The signature in a message is over the plain text alone.  The MAC binds the sealed
payload to its recipient, but whoever can open a payload can seal it again for
somebody else.  So a message that decrypts as coming from `F` was signed by `F`, and
`F` need not have sent it to the one who reads it.
-/

namespace Verge

open Foundation SecureMessageCodes List

structure EncryptCall where
  addressFrom : List UInt8
  addressTo : List UInt8
  message : List UInt8
  signs : keyIDIsNull addressFrom = false
  deriving DecidableEq, Repr

namespace SmsgCrypto

variable {κ : Type} (c : SmsgCrypto κ)

def carriedSignature (vchPayload : List UInt8) : List UInt8 := (vchPayload.drop 21).take 65

/-- Signatures that are recovered to the address `F` come from the calls of `Encrypt`
that were made with its key. -/
def Issued (calls : List EncryptCall) (F : List UInt8) (keyFrom : κ) (signature : List UInt8) :
    Prop :=
  ∀ hash pubkey, c.recoverCompact hash signature = some pubkey → c.getID pubkey = F →
    ∃ call ∈ calls, call.addressFrom = F ∧
      signature = c.signCompact keyFrom (c.hash256 call.message)

/-- The ideal functions: a signature is recovered to its key for the hash it was made
for and no other, and no text collides with one that was signed. -/
structure Ideal (calls : List EncryptCall) : Prop where
  recovery : ∀ key hash hash' pubkey, c.recoverCompact hash (c.signCompact key hash') = some pubkey →
    c.getID pubkey = c.getID (c.getPubKey key) → hash = hash'
  collisionFree : ∀ call ∈ calls, ∀ message,
    c.hash256 message = c.hash256 call.message → message = call.message

/-- Every message that `D` reads as coming from `F` was encrypted by `F` for `D`, whoever
sent the bytes. -/
def Authentic (calls : List EncryptCall) (F D : List UInt8) (keyFrom keyDest : κ) : Prop :=
  ∀ smsg payload vchPayload, c.openPayload keyDest D smsg payload = .ok vchPayload →
    c.Issued calls F keyFrom (carriedSignature vchPayload) →
    ∀ timestamp message,
      c.decrypt false keyDest D smsg payload =
        .ok (some ⟨timestamp, .address F, message ++ [0]⟩) →
      ∃ call ∈ calls, call.addressFrom = F ∧ call.addressTo = D ∧ call.message = message

variable {c}

theorem decrypt_eq_ok {keyDest : κ} {address payload vchPayload : List UInt8}
    {smsg : SecureMessage} {data : MessageData}
    (hopen : c.openPayload keyDest address smsg payload = .ok vchPayload)
    (h : c.decrypt false keyDest address smsg payload = .ok (some data)) :
    ∃ plain, c.readPayload (if smsg.isPaidVersion then SMSG_MAX_MSG_BYTES_PAID else 0) vchPayload =
        .ok (data.sFromAddress, plain) ∧ data.vchMessage = plain ++ [0] := by
  obtain ⟨_, hopen', h⟩ := bind_eq_ok.mp h
  cases Except.ok.inj (hopen.symm.trans hopen')
  obtain ⟨⟨sender, plain⟩, hread, h⟩ := bind_eq_ok.mp h
  cases Option.some.inj (Except.ok.inj h)
  exact ⟨plain, hread, rfl⟩

theorem length_readPlain_le {msgData plain : List UInt8} {lenPlain : Nat}
    (h : c.readPlain msgData lenPlain = .ok plain) : plain.length ≤ lenPlain := by
  unfold readPlain at h
  split at h
  case isTrue =>
    split at h
    case h_1 => cases h
    case h_2 plain' _ =>
      split at h
      case isTrue => cases h
      case isFalse heq =>
        cases h
        exact (not_not.mp heq).le
  case isFalse =>
    cases h
    exact length_take_le _ _

theorem validateDecryptedPayloadShape_eq_ok {vchPayload : List UInt8} {maxPlainBytes : Nat}
    {fFromAnonymous : Bool} {lenData lenPlain : Nat}
    (h : validateDecryptedPayloadShape vchPayload maxPlainBytes =
      .ok (fFromAnonymous, lenData, lenPlain)) :
    lenPlain ≤ max maxPlainBytes 512 := by
  unfold validateDecryptedPayloadShape at h
  split at h
  case h_1 => cases h
  case h_2 version rest =>
    simp only [SMSG_MAX_AMSG_BYTES, SMSG_MAX_MSG_BYTES, ite_self] at h
    split_ifs at h
    all_goals cases h
    all_goals omega

theorem readPayload_eq_address {maxPlainBytes : Nat} {vchPayload F plain : List UInt8}
    (h : c.readPayload maxPlainBytes vchPayload = .ok (.address F, plain)) :
    plain.length ≤ max maxPlainBytes 512 ∧
      ∃ pubkey, c.recoverCompact (c.hash256 plain) (carriedSignature vchPayload) = some pubkey ∧
        c.getID pubkey = F := by
  obtain ⟨⟨fFromAnonymous, lenData, lenPlain⟩, hshape, h⟩ := bind_eq_ok.mp h
  have hmax := validateDecryptedPayloadShape_eq_ok hshape
  cases fFromAnonymous with
  | true =>
    obtain ⟨plain', -, h⟩ := bind_eq_ok.mp h
    cases h
  | false =>
    obtain ⟨plain', hplain, h⟩ := bind_eq_ok.mp h
    obtain ⟨sender, hsender, h⟩ := bind_eq_ok.mp h
    cases h
    refine ⟨(length_readPlain_le hplain).trans hmax, ?_⟩
    unfold checkSender at hsender
    simp only at hsender
    split at hsender
    case h_1 => cases hsender
    case h_2 pubkey hrecover =>
      split_ifs at hsender with hvalid hid
      cases hsender
      exact ⟨pubkey, hrecover, (not_not.mp hid).symm⟩

theorem carriedSignature_signedPayload (version : UInt8) {keyID signature : List UInt8}
    (hkeyID : keyID.length = 20) (hsignature : signature.length = 65)
    (message msgData : List UInt8) :
    carriedSignature (signedPayload version keyID signature message msgData) = signature := by
  simp only [carriedSignature, signedPayload, append_assoc, cons_append,
    nil_append, drop_succ_cons]
  rw [drop_left' hkeyID, take_left' hsignature]

def anyEnv (keyR : κ) : EncryptEnv κ where
  network := .main
  time := 0
  time_ge := (SecureMessage.newPaid 0).timestamp_ge
  time_lt := (SecureMessage.newPaid 0).timestamp_lt
  publicKey := fun _ => none
  privateKey := fun _ => none
  iv := List.replicate 16 0
  length_iv := (SecureMessage.newPaid 0).length_iv
  keyR := keyR
  heap := List.replicate 32 0
  length_heap := (SecureMessage.newPaid 0).length_mac

theorem exists_resealed {keyFrom keyDest keyR : κ} (hR : (c.getPubKey keyR).length = 33)
    {F message : List UInt8} (hF : c.getID (c.getPubKey keyFrom) = F) (D : List UInt8)
    (hmax : message.length ≤ SMSG_MAX_MSG_BYTES_PAID) :
    ∃ smsg payload vchPayload timestamp,
      c.openPayload keyDest D smsg payload = .ok vchPayload ∧
      carriedSignature vchPayload = c.signCompact keyFrom (c.hash256 message) ∧
      c.decrypt false keyDest D smsg payload =
        .ok (some ⟨timestamp, .address F, message ++ [0]⟩) := by
  obtain ⟨msgData, hmsgData, -, hshort, hlong⟩ := exists_compressMessage c hmax
  have hkeyID : F.length = 20 := hF ▸ c.length_getID _
  have hsignature := c.length_signCompact keyFrom (c.hash256 message)
  have hread := readPayload_signedPayload hmax hmsgData (SmsgNetwork.pubkeyAddress_ne .main) hkeyID
    hsignature (c.recoverCompact_signCompact _ _) (c.validSize_getPubKey _) hF
  have hsize : (signedPayload SmsgNetwork.main.pubkeyAddress F
      (c.signCompact keyFrom (c.hash256 message)) message msgData).length + 48 < 2 ^ 32 := by
    have hbound : lz4CompressBound message.length ≤ message.length + message.length / 255 + 16 := by
      unfold lz4CompressBound
      split <;> omega
    simp only [SMSG_MAX_MSG_BYTES_PAID] at hmax
    simp only [signedPayload, length_append, length_writeLE, length_cons,
      length_nil, hkeyID, hsignature]
    omega
  obtain ⟨sealed, ciphertext, -, -, -, hversion, htime, -, -, hopen⟩ :=
    exists_sealPayload (anyEnv keyR) hR keyDest D
      (rfl : (SecureMessage.newPaid 31).version = (3, 0)) (by simp [signedPayload]) hsize
  have hpaid := SecureMessage.isPaidVersion_of_version hversion
  refine ⟨sealed, ciphertext ++ [], _, sealed.timestamp, hopen [],
    carriedSignature_signedPayload _ hkeyID hsignature _ _, ?_⟩
  exact decrypt_of_readPayload (hopen []) (by rw [if_pos hpaid]; exact hread)

/-- Messages from `F` are authentic for `D` exactly if `F` sends to `D` whatever readable
text it sends to anybody. -/
theorem authentic_iff {calls : List EncryptCall} (hideal : c.Ideal calls)
    {keyFrom keyDest keyR : κ} (hR : (c.getPubKey keyR).length = 33) {F : List UInt8}
    (hF : c.getID (c.getPubKey keyFrom) = F) (D : List UInt8) :
    c.Authentic calls F D keyFrom keyDest ↔
      ∀ call ∈ calls, call.addressFrom = F → call.message.length ≤ SMSG_MAX_MSG_BYTES_PAID →
        ∃ call' ∈ calls, call'.addressFrom = F ∧ call'.addressTo = D ∧
          call'.message = call.message := by
  constructor
  · intro h call hcall hfrom hmax
    obtain ⟨smsg, payload, vchPayload, timestamp, hopen, hsignature, hdecrypt⟩ :=
      exists_resealed hR hF D hmax
    refine h smsg payload vchPayload hopen (fun _ _ _ _ => ⟨call, hcall, hfrom, hsignature⟩)
      timestamp call.message hdecrypt
  · intro h smsg payload vchPayload hopen hissued timestamp message hdecrypt
    obtain ⟨plain, hread, hplain⟩ := decrypt_eq_ok hopen hdecrypt
    obtain rfl : message = plain := append_cancel_right hplain
    obtain ⟨hlength, pubkey, hrecover, hid⟩ := readPayload_eq_address hread
    obtain ⟨call, hcall, hfrom, hsignature⟩ := hissued _ pubkey hrecover hid
    rw [hsignature] at hrecover
    have hmessage := hideal.collisionFree call hcall message
      (hideal.recovery keyFrom _ _ pubkey hrecover (hid.trans hF.symm))
    rw [hmessage] at hlength ⊢
    refine h call hcall hfrom (hlength.trans ?_)
    split <;> decide

end SmsgCrypto

namespace SampleCrypto

theorem ofLittleEndian_concat_pos (bytes : List UInt8) :
    0 < ofLittleEndian (bytes ++ [1]) := by
  induction bytes with
  | nil => decide
  | cons b bytes ih =>
    simp only [cons_append, ofLittleEndian]
    omega

theorem ofLittleEndian_concat_inj {bytes bytes' : List UInt8}
    (h : ofLittleEndian (bytes ++ [1]) = ofLittleEndian (bytes' ++ [1])) : bytes = bytes' := by
  have hone : ofLittleEndian [1] = 1 := rfl
  induction bytes generalizing bytes' with
  | nil =>
    cases bytes' with
    | nil => rfl
    | cons b' bytes' =>
      have hpos := ofLittleEndian_concat_pos bytes'
      rw [nil_append, hone, cons_append, ofLittleEndian] at h
      omega
  | cons b bytes ih =>
    have hb := b.toNat_lt
    cases bytes' with
    | nil =>
      have hpos := ofLittleEndian_concat_pos bytes
      rw [nil_append, hone, cons_append, ofLittleEndian] at h
      omega
    | cons b' bytes' =>
      have hb' := b'.toNat_lt
      rw [cons_append, cons_append, ofLittleEndian, ofLittleEndian] at h
      obtain rfl : b = b' := UInt8.toNat_inj.mp (by omega)
      rw [ih (by omega : ofLittleEndian (bytes ++ [1]) = ofLittleEndian (bytes' ++ [1]))]

theorem hash256_inj {message message' : List UInt8} (hshort : message'.length ≤ 30)
    (h : hash256 message = hash256 message') : message = message' := by
  have hvalue : ∀ bytes : List UInt8, bytes.length ≤ 30 →
      (hash256 bytes).toNat = ofLittleEndian (bytes ++ [1]) := by
    intro bytes hbytes
    rw [hash256, if_pos hbytes, BitVec.toNat_ofNat]
    refine Nat.mod_eq_of_lt (lt_of_lt_of_le (ofLittleEndian_lt _) ?_)
    have hlength : (bytes ++ [1]).length ≤ 32 := by
      rw [length_append, length_singleton]
      omega
    exact Nat.pow_le_pow_right (by decide : 0 < 256) hlength
  by_cases hlong : message.length ≤ 30
  · refine ofLittleEndian_concat_inj ?_
    rw [← hvalue message hlong, ← hvalue message' hshort, h]
  · have hzero := hvalue message' hshort
    rw [← h, hash256, if_neg hlong] at hzero
    exact absurd hzero (ofLittleEndian_concat_pos message').ne

def callToSix : EncryptCall := ⟨address 5, address 6, [104, 105], by decide⟩

theorem ideal (calls : List EncryptCall) (hcalls : ∀ call ∈ calls, call.message.length ≤ 30) :
    crypto.Ideal calls where
  recovery := by
    intro key hash hash' pubkey hrecover _
    have hsig : ((crypto.signCompact key hash').drop 1).take 32 = hashBytes hash' := by
      show ((key :: (hashBytes hash' ++ List.replicate 32 0)).drop 1).take 32 = _
      rw [drop_succ_cons, drop_zero, take_left' (length_hashBytes hash')]
    change (if ((crypto.signCompact key hash').drop 1).take 32 = hashBytes hash then _ else none) =
      _ at hrecover
    rw [hsig] at hrecover
    split at hrecover
    case isTrue h => exact (hashBytes_injective h).symm
    case isFalse => cases hrecover
  collisionFree call hcall message h := hash256_inj (hcalls call hcall) h

theorem authentic_six : crypto.Authentic [callToSix] (address 5) (address 6) 5 6 := by
  refine (SmsgCrypto.authentic_iff (ideal _ (by decide)) (by decide : (crypto.getPubKey 9).length = 33)
    rfl (address 6)).mpr fun call hcall _ _ => ⟨callToSix, by simp, rfl, rfl, ?_⟩
  rw [mem_singleton.mp hcall]

def envToSix : EncryptEnv UInt8 :=
  { env with publicKey := fun keyID => if keyID = address 6 then some (pubKey 6) else none }

/-- The key 5 encrypts a message for the key 6.  The holder of the key 6 opens it and
seals what is in it for the key 7, who reads it as a message from the key 5. -/
theorem passed_on_reads_as_sent :
    ((do
      let (smsg, payload) ← crypto.encrypt envToSix (by decide) (.newPaid 31) (address 5)
        (address 6) [104, 105]
      let vchPayload ← crypto.openPayload 6 (address 6) smsg payload
      let (smsg', payload') ← crypto.sealPayload (SmsgCrypto.anyEnv 9) (by decide) (.newPaid 31)
        (address 7) (pubKey 7) vchPayload
      crypto.decrypt false 7 (address 7) smsg' payload') :
        Except SecureMessageCodes (Option MessageData)).toOption =
      some (some ⟨0, .address (address 5), [104, 105, 0]⟩) ∧
    ¬crypto.Authentic [callToSix] (address 5) (address 7) 5 7 := by
  refine ⟨by decide +kernel, fun h => ?_⟩
  obtain ⟨smsg, payload, vchPayload, timestamp, hopen, hsignature, hdecrypt⟩ :=
    SmsgCrypto.exists_resealed (by decide : (crypto.getPubKey 9).length = 33)
      (rfl : crypto.getID (crypto.getPubKey 5) = address 5) (address 7)
      (by decide : callToSix.message.length ≤ SMSG_MAX_MSG_BYTES_PAID)
  obtain ⟨call, hcall, -, hto, -⟩ := h smsg payload vchPayload hopen
    (fun _ _ _ _ => ⟨callToSix, mem_singleton_self _, rfl, hsignature⟩) timestamp _ hdecrypt
  rw [mem_singleton.mp hcall] at hto
  exact absurd hto (by decide)

end SampleCrypto

end Verge
