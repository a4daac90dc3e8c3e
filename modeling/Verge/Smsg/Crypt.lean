import Verge.Script.Standard
import Verge.Smsg.SecureMessage

/-!
# Encryption of secure messages

`Encrypt` and `Decrypt` of `smsg/smessage.cpp` over any cryptographic functions with
the laws that the code relies on.  The sender signs the plaintext and encrypts the
signed text to the recipient: the key comes from a Diffie-Hellman exchange with a
fresh key, and a MAC over time, initialisation vector and ciphertext tells the
recipient that the message is for them.
-/

namespace Verge

open Foundation List

/-- The functions that messages are protected with; `κ` is the type of private keys.
A key id is the byte vector of its hash. -/
structure SmsgCrypto (κ : Type) extends SmsgHashes where
  getPubKey : κ → valtype
  getID : valtype → valtype
  length_getID : ∀ pubkey, (getID pubkey).length = 20
  validSize_getPubKey : ∀ key, CPubKey.validSize (getPubKey key) = true
  ecPubkeyParse : valtype → Bool
  ecPubkeyParse_getPubKey : ∀ key, ecPubkeyParse (getPubKey key) = true
  ecdh : valtype → κ → List UInt8
  ecdh_comm : ∀ a b, ecdh (getPubKey a) b = ecdh (getPubKey b) a
  hmacSha256 : List UInt8 → List UInt8 → List UInt8
  length_hmacSha256 : ∀ key bytes, (hmacSha256 key bytes).length = 32
  hash256 : List UInt8 → uint256
  aesEncrypt : List UInt8 → List UInt8 → List UInt8 → List UInt8
  aesDecrypt : List UInt8 → List UInt8 → List UInt8 → List UInt8
  aesDecrypt_aesEncrypt : ∀ key iv plain, aesDecrypt key iv (aesEncrypt key iv plain) = plain
  le_length_aesEncrypt : ∀ key iv plain, plain.length ≤ (aesEncrypt key iv plain).length
  length_aesEncrypt_le : ∀ key iv plain, (aesEncrypt key iv plain).length ≤ plain.length + 16
  lz4Compress : List UInt8 → List UInt8
  lz4DecompressSafe : List UInt8 → Nat → Option (List UInt8)
  lz4DecompressSafe_lz4Compress : ∀ plain, plain.length ≤ LZ4_MAX_INPUT_SIZE →
    lz4DecompressSafe (lz4Compress plain) plain.length = some plain
  lz4Compress_ne_nil : ∀ plain, plain.length ≤ LZ4_MAX_INPUT_SIZE → lz4Compress plain ≠ []
  length_lz4Compress_le : ∀ plain, plain.length ≤ LZ4_MAX_INPUT_SIZE →
    (lz4Compress plain).length ≤ lz4CompressBound plain.length
  signCompact : κ → uint256 → List UInt8
  length_signCompact : ∀ key hash, (signCompact key hash).length = 65
  recoverCompact : uint256 → List UInt8 → Option valtype
  recoverCompact_signCompact : ∀ key hash,
    recoverCompact hash (signCompact key hash) = some (getPubKey key)

inductive SmsgNetwork where
  | main
  | test
  | regtest
  deriving DecidableEq, Repr

namespace SmsgNetwork

def pubkeyAddress : SmsgNetwork → UInt8
  | main => 30
  | test => 115
  | regtest => 111

def getSecondsInDay : SmsgNetwork → Nat
  | regtest => 600
  | _ => SMSG_SECONDS_IN_DAY

theorem pubkeyAddress_ne (network : SmsgNetwork) : network.pubkeyAddress ≠ 250 := by
  cases network <;> decide

theorem getSecondsInDay_pos (network : SmsgNetwork) : 0 < network.getSecondsInDay := by
  cases network <;> decide

end SmsgNetwork

/-- What `Encrypt` takes from its surroundings; `heap` is the memory behind the ciphertext. -/
structure EncryptEnv (κ : Type) where
  network : SmsgNetwork
  time : Int
  time_ge : -2 ^ 63 ≤ time
  time_lt : time < 2 ^ 63
  publicKey : valtype → Option valtype
  privateKey : valtype → Option κ
  iv : List UInt8
  length_iv : iv.length = 16
  keyR : κ
  heap : List UInt8
  length_heap : heap.length = 32

inductive SmsgSender where
  | anon
  | address (keyID : valtype)
  deriving DecidableEq, Repr

structure MessageData where
  timestamp : Int
  sFromAddress : SmsgSender
  vchMessage : List UInt8
  deriving DecidableEq, Repr

def keyIDIsNull (keyID : valtype) : Bool := keyID.all (· == 0)

namespace SmsgCrypto

open SecureMessageCodes

variable {κ : Type} (c : SmsgCrypto κ)

/-! ## Keys -/

def SMSG_HKDF_INFO : List UInt8 :=
  [0x76, 0x65, 0x72, 0x67, 0x65, 0x2d, 0x73, 0x6d, 0x73, 0x67, 0x2d, 0x76, 0x32, 0x2e, 0x32]

def SMSG_DERIVED_KEY_LEN : Nat := 32

def SMSG_HKDF_OUTPUT_LEN : Nat := SMSG_DERIVED_KEY_LEN * 2

def expandKey (prk : List UInt8) : Nat → List UInt8 → UInt8 → List UInt8
  | 0, _, _ => []
  | blocks + 1, previous, counter =>
    let block := c.hmacSha256 prk (previous ++ SMSG_HKDF_INFO ++ [counter])
    block ++ expandKey prk blocks block (counter + 1)

def deriveSmsgKeys (ecdhSecret ephemeralPubkey destination iv : List UInt8) :
    List UInt8 × List UInt8 :=
  let salt := c.sha256 (ephemeralPubkey ++ destination ++ iv)
  let prk := c.hmacSha256 salt ecdhSecret
  let okm := (c.expandKey prk 2 [] 1).take SMSG_HKDF_OUTPUT_LEN
  (okm.take SMSG_DERIVED_KEY_LEN, okm.drop SMSG_DERIVED_KEY_LEN)

def messageMac (key_m : List UInt8) (smsg : SecureMessage) (ciphertext : List UInt8) :
    List UInt8 :=
  c.hmacSha256 key_m (writeInt64 smsg.timestamp ++ smsg.iv ++ ciphertext)

/-! ## `Encrypt` -/

def compressMessage (message : List UInt8) : Except SecureMessageCodes (List UInt8) :=
  if 128 < message.length % 2 ^ 32 then
    let compressed := c.lz4Compress message
    if compressed.length < 1 then .error SMSG_COMPRESS_FAILED else .ok compressed
  else .ok message

def anonymousPayload (message msgData : List UInt8) : List UInt8 :=
  [250, 0, 0, 0, 0] ++ writeLE 4 message.length ++ msgData

def signedPayload (version : UInt8) (keyID signature message msgData : List UInt8) :
    List UInt8 :=
  [version] ++ keyID ++ signature ++ writeLE 4 message.length ++ msgData

def plainPayload (env : EncryptEnv κ) (addressFrom message : List UInt8) :
    Except SecureMessageCodes (List UInt8) := do
  let msgData ← c.compressMessage message
  if keyIDIsNull addressFrom then .ok (anonymousPayload message msgData)
  else
    match env.privateKey addressFrom with
    | none => .error SMSG_UNKNOWN_KEY_FROM
    | some keyFrom =>
      let signature := c.signCompact keyFrom (c.hash256 message)
      .ok (signedPayload env.network.pubkeyAddress addressFrom signature message msgData)

def sealHeader (env : EncryptEnv κ) (hR : (c.getPubKey env.keyR).length = 33)
    (smsg : SecureMessage) (key_m ciphertext payload : List UInt8) : SecureMessage :=
  let smsg : SecureMessage :=
    { smsg with
      iv := env.iv
      length_iv := env.length_iv
      cpkR := c.getPubKey env.keyR
      length_cpkR := hR
      nPayload := payload.length % 2 ^ 32
      nPayload_lt := Nat.mod_lt _ (by decide) }
  { smsg with
    mac := c.messageMac key_m smsg ciphertext
    length_mac := c.length_hmacSha256 _ _ }

/-- The second half of `Encrypt`: the payload encrypted to a public key.  The space
for the funding transaction is left as it was. -/
def sealPayload (env : EncryptEnv κ) (hR : (c.getPubKey env.keyR).length = 33)
    (smsg : SecureMessage) (addressTo cpkDestK vchPayload : List UInt8) :
    Except SecureMessageCodes (SecureMessage × List UInt8) :=
  let (key_e, key_m) :=
    c.deriveSmsgKeys (c.ecdh cpkDestK env.keyR) (c.getPubKey env.keyR) addressTo env.iv
  let ciphertext := c.aesEncrypt key_e env.iv vchPayload
  if ciphertext.length < vchPayload.length then .error SMSG_ENCRYPT_FAILED
  else
    let payload := ciphertext ++ if smsg.isPaidVersion then env.heap else []
    .ok (c.sealHeader env hR smsg key_m ciphertext payload, payload)

def stamp (env : EncryptEnv κ) (smsg : SecureMessage) : SecureMessage :=
  if smsg.timestamp = 0 then
    { smsg with timestamp := env.time, timestamp_ge := env.time_ge, timestamp_lt := env.time_lt }
  else smsg

def encrypt (env : EncryptEnv κ) (hR : (c.getPubKey env.keyR).length = 33)
    (smsg : SecureMessage) (addressFrom addressTo message : List UInt8) :
    Except SecureMessageCodes (SecureMessage × List UInt8) :=
  match env.publicKey addressTo with
  | none => .error SMSG_PUBKEY_NOT_EXISTS
  | some cpkDestK =>
    if !c.ecPubkeyParse cpkDestK then .error SMSG_INVALID_ADDRESS_TO
    else
      match c.plainPayload env addressFrom message with
      | .error code => .error code
      | .ok vchPayload =>
        c.sealPayload env hR (stamp env smsg) addressTo cpkDestK vchPayload

/-! ## `Decrypt` -/

def readUint32 (bytes : List UInt8) (offset : Nat) : Nat :=
  ofLittleEndian ((bytes.drop offset).take 4)

/-- `ValidateDecryptedPayloadShape`: whether the sender is anonymous, and the length of
the plain text.  The text itself starts behind the header. -/
def validateDecryptedPayloadShape (vchPayload : List UInt8) (maxPlainBytes : Nat) :
    Except SecureMessageCodes (Bool × Nat × Nat) :=
  match vchPayload with
  | [] => .error SMSG_GENERAL_ERROR
  | version :: _ =>
    let fFromAnonymous := version == 250
    let headerLen := if fFromAnonymous then 9 else SMSG_PL_HDR_LEN
    let maxBytes := if 0 < maxPlainBytes then maxPlainBytes
      else if fFromAnonymous then SMSG_MAX_AMSG_BYTES else SMSG_MAX_MSG_BYTES
    let lenData := vchPayload.length - headerLen
    let lenPlain := readUint32 vchPayload (headerLen - 4)
    if vchPayload.length < headerLen then .error SMSG_GENERAL_ERROR
    else if maxBytes < lenPlain then .error SMSG_MESSAGE_TOO_LONG
    else if lenPlain ≤ 128 then
      if lenData ≠ lenPlain then .error SMSG_GENERAL_ERROR
      else .ok (fFromAnonymous, lenData, lenPlain)
    else if lenData = 0 then .error SMSG_GENERAL_ERROR
    else if lz4CompressBound lenPlain ≤ 0 ∨ lz4CompressBound lenPlain < lenData then
      .error SMSG_GENERAL_ERROR
    else .ok (fFromAnonymous, lenData, lenPlain)

def readPlain (msgData : List UInt8) (lenPlain : Nat) : Except SecureMessageCodes (List UInt8) :=
  if 128 < lenPlain then
    match c.lz4DecompressSafe msgData lenPlain with
    | none => .error SMSG_GENERAL_ERROR
    | some plain => if plain.length ≠ lenPlain then .error SMSG_GENERAL_ERROR else .ok plain
  else .ok (msgData.take lenPlain)

/-- The sender of a payload with an address: the key that is recovered from the
signature on the text has the key id that the payload names. -/
def checkSender (vchPayload plain : List UInt8) : Except SecureMessageCodes SmsgSender :=
  let ckidFrom := (vchPayload.drop 1).take 20
  let vchSig := (vchPayload.drop 21).take 65
  match c.recoverCompact (c.hash256 plain) vchSig with
  | none => .error SMSG_GENERAL_ERROR
  | some cpkFromSig =>
    if !CPubKey.validSize cpkFromSig then .error SMSG_GENERAL_ERROR
    else if ckidFrom ≠ c.getID cpkFromSig then .error SMSG_GENERAL_ERROR
    else .ok (.address ckidFrom)

/-- `Decrypt` after the payload is decrypted: its text and its sender. -/
def readPayload (maxPlainBytes : Nat) (vchPayload : List UInt8) :
    Except SecureMessageCodes (SmsgSender × List UInt8) := do
  let (fFromAnonymous, _, lenPlain) ← validateDecryptedPayloadShape vchPayload maxPlainBytes
  if fFromAnonymous then
    let plain ← c.readPlain (vchPayload.drop 9) lenPlain
    return (.anon, plain)
  else
    let plain ← c.readPlain (vchPayload.drop SMSG_PL_HDR_LEN) lenPlain
    let sender ← c.checkSender vchPayload plain
    return (sender, plain)

/-- `Decrypt` up to the comparison of the MACs: the key for the payload. -/
def checkMac (keyDest : κ) (address : List UInt8) (smsg : SecureMessage) (payload : List UInt8) :
    Except SecureMessageCodes (List UInt8) :=
  let nCiphertext := smsg.getSmsgCiphertextLength
  if !smsg.isCurrentUnpaidSmsgVersion && !smsg.isCurrentPaidSmsgVersion then
    .error SMSG_UNKNOWN_VERSION
  else if nCiphertext = 0 ∨ payload.length < nCiphertext then .error SMSG_PAYLOAD_OVER_SIZE
  else if !c.ecPubkeyParse smsg.cpkR then .error SMSG_GENERAL_ERROR
  else
    let (key_e, key_m) := c.deriveSmsgKeys (c.ecdh smsg.cpkR keyDest) smsg.cpkR address smsg.iv
    if c.messageMac key_m smsg (payload.take nCiphertext) ≠ smsg.mac then .error SMSG_MAC_MISMATCH
    else .ok key_e

def openPayload (keyDest : κ) (address : List UInt8) (smsg : SecureMessage)
    (payload : List UInt8) : Except SecureMessageCodes (List UInt8) := do
  let key_e ← c.checkMac keyDest address smsg payload
  return c.aesDecrypt key_e smsg.iv (payload.take smsg.getSmsgCiphertextLength)

/-- `Decrypt` with the private key of an address; it returns nothing if it only
tests whether the message is for that address. -/
def decrypt (fTestOnly : Bool) (keyDest : κ) (address : List UInt8) (smsg : SecureMessage)
    (payload : List UInt8) : Except SecureMessageCodes (Option MessageData) := do
  let vchPayload ← c.openPayload keyDest address smsg payload
  if fTestOnly then return none
  else
    let maxPlainBytes := if smsg.isPaidVersion then SMSG_MAX_MSG_BYTES_PAID else 0
    let (sender, plain) ← c.readPayload maxPlainBytes vchPayload
    return some ⟨smsg.timestamp, sender, plain ++ [0]⟩

/-! ## A payload is read as it was written -/

variable {c} {message msgData : List UInt8}

theorem exists_compressMessage (c : SmsgCrypto κ) (h : message.length ≤ SMSG_MAX_MSG_BYTES_PAID) :
    ∃ msgData, c.compressMessage message = .ok msgData ∧
      c.readPlain msgData message.length = .ok message ∧
      (message.length ≤ 128 → msgData.length = message.length) ∧
      (128 < message.length →
        0 < msgData.length ∧ msgData.length ≤ lz4CompressBound message.length) := by
  have hmax : message.length ≤ LZ4_MAX_INPUT_SIZE := h.trans (by decide)
  have hsmall : message.length % 2 ^ 32 = message.length :=
    Nat.mod_eq_of_lt (lt_of_le_of_lt h (by decide))
  rw [compressMessage, hsmall]
  by_cases hlong : 128 < message.length
  · have hpos : 0 < (c.lz4Compress message).length :=
      length_pos_iff.mpr (c.lz4Compress_ne_nil message hmax)
    refine ⟨c.lz4Compress message, ?_, ?_, fun hshort => absurd hlong hshort.not_gt, fun _ =>
      ⟨hpos, c.length_lz4Compress_le message hmax⟩⟩
    · rw [if_pos hlong]
      exact if_neg (by omega)
    · rw [readPlain, if_pos hlong, c.lz4DecompressSafe_lz4Compress message hmax]
      exact if_neg (not_not.mpr rfl)
  · refine ⟨message, if_neg hlong, ?_, fun _ => rfl, fun h => absurd h hlong⟩
    rw [readPlain, if_neg hlong, take_length]

section Shape

variable (hmax : message.length ≤ SMSG_MAX_MSG_BYTES_PAID)

include hmax

theorem validateDecryptedPayloadShape_append (version : UInt8) (header : List UInt8)
    (hheader : header.length + 5 = if version == 250 then 9 else SMSG_PL_HDR_LEN)
    (hshort : message.length ≤ 128 → msgData.length = message.length)
    (hlong : 128 < message.length →
      0 < msgData.length ∧ msgData.length ≤ lz4CompressBound message.length) :
    validateDecryptedPayloadShape (version :: (header ++ writeLE 4 message.length ++ msgData))
        SMSG_MAX_MSG_BYTES_PAID =
      .ok (version == 250, msgData.length, message.length) := by
  have hread : readUint32 (version :: (header ++ writeLE 4 message.length ++ msgData))
      (header.length + 5 - 4) = message.length := by
    rw [readUint32, show header.length + 5 - 4 = header.length + 1 by omega, drop_succ_cons,
      append_assoc, drop_left, take_left' (length_writeLE 4 _),
      ofLittleEndian_writeLE]
    exact Nat.mod_eq_of_lt (lt_of_le_of_lt hmax (by decide))
  have hlength : (version :: (header ++ writeLE 4 message.length ++ msgData)).length =
      header.length + 5 + msgData.length := by
    simp only [length_cons, length_append, length_writeLE]
    omega
  simp only [validateDecryptedPayloadShape, ← hheader, hread, hlength, Nat.add_sub_cancel_left]
  rw [if_pos (by decide : 0 < SMSG_MAX_MSG_BYTES_PAID), if_neg (by omega), if_neg (by omega)]
  by_cases h : message.length ≤ 128
  · rw [if_pos h, if_neg (not_not.mpr (hshort h))]
  · obtain ⟨hpos, hbound⟩ := hlong (by omega)
    rw [if_neg h, if_neg hpos.ne', if_neg (by omega)]

variable (hmsgData : c.compressMessage message = .ok msgData)

include hmsgData

theorem readPayload_anonymousPayload :
    c.readPayload SMSG_MAX_MSG_BYTES_PAID (anonymousPayload message msgData) =
      .ok (.anon, message) := by
  obtain ⟨_, hdata, hread, hshort, hlong⟩ := exists_compressMessage c hmax
  cases Except.ok.inj (hmsgData.symm.trans hdata)
  have hshape := validateDecryptedPayloadShape_append hmax 250 [0, 0, 0, 0] rfl hshort hlong
  have hdrop : (anonymousPayload message msgData).drop 9 = msgData := drop_left' (by simp)
  have hpayload : anonymousPayload message msgData =
      250 :: ([0, 0, 0, 0] ++ writeLE 4 message.length ++ msgData) := rfl
  rw [← hpayload] at hshape
  refine bind_eq_ok.mpr ⟨_, hshape, bind_eq_ok.mpr ⟨message, ?_, rfl⟩⟩
  rw [hdrop, hread]

theorem readPayload_signedPayload {version : UInt8} {keyID signature pubkey : List UInt8}
    (hversion : version ≠ 250) (hkeyID : keyID.length = 20) (hsignature : signature.length = 65)
    (hrecover : c.recoverCompact (c.hash256 message) signature = some pubkey)
    (hvalid : CPubKey.validSize pubkey = true) (hid : c.getID pubkey = keyID) :
    c.readPayload SMSG_MAX_MSG_BYTES_PAID
        (signedPayload version keyID signature message msgData) =
      .ok (.address keyID, message) := by
  obtain ⟨_, hdata, hread, hshort, hlong⟩ := exists_compressMessage c hmax
  cases Except.ok.inj (hmsgData.symm.trans hdata)
  have hnot : (version == 250) = false := by simpa using hversion
  have hpayload : signedPayload version keyID signature message msgData =
      version :: ((keyID ++ signature) ++ writeLE 4 message.length ++ msgData) := rfl
  have hshape := validateDecryptedPayloadShape_append hmax version (keyID ++ signature)
    (by simp [hnot, hkeyID, hsignature, SMSG_PL_HDR_LEN]) hshort hlong
  have hdrop : (signedPayload version keyID signature message msgData).drop SMSG_PL_HDR_LEN =
      msgData := drop_left' (by simp [hkeyID, hsignature, SMSG_PL_HDR_LEN])
  have hfrom : ((signedPayload version keyID signature message msgData).drop 1).take 20 =
      keyID := by
    rw [hpayload, drop_succ_cons, drop_zero, append_assoc, append_assoc,
      take_left' hkeyID]
  have hsig : ((signedPayload version keyID signature message msgData).drop 21).take 65 =
      signature := by
    rw [hpayload, drop_succ_cons, append_assoc, append_assoc,
      drop_left' hkeyID, take_left' hsignature]
  have hsender : c.checkSender (signedPayload version keyID signature message msgData) message =
      .ok (.address keyID) := by
    simp only [checkSender, hfrom, hsig, hrecover, hvalid, hid, Bool.not_true, Bool.false_eq_true,
      if_false, ne_eq, not_true_eq_false]
  rw [← hpayload, hnot] at hshape
  refine bind_eq_ok.mpr ⟨_, hshape, bind_eq_ok.mpr ⟨message, ?_, bind_eq_ok.mpr ⟨_, hsender, rfl⟩⟩⟩
  rw [hdrop, hread]

end Shape

theorem decrypt_of_readPayload {keyDest : κ} {address payload vchPayload plain : List UInt8}
    {smsg : SecureMessage} {sender : SmsgSender}
    (hopen : c.openPayload keyDest address smsg payload = .ok vchPayload)
    (hread : c.readPayload (if smsg.isPaidVersion then SMSG_MAX_MSG_BYTES_PAID else 0) vchPayload =
      .ok (sender, plain)) :
    c.decrypt false keyDest address smsg payload =
      .ok (some ⟨smsg.timestamp, sender, plain ++ [0]⟩) :=
  bind_eq_ok.mpr ⟨vchPayload, hopen, bind_eq_ok.mpr ⟨_, hread, rfl⟩⟩

/-! ## A sealed payload is opened by its recipient -/

section Sealed

variable (env : EncryptEnv κ) (hR : (c.getPubKey env.keyR).length = 33) {smsg : SecureMessage}
  (keyDest : κ) (addressTo : List UInt8) {ciphertext : List UInt8}
  (hversion : smsg.version = (3, 0))

include hversion

theorem getSmsgCiphertextLength_sealHeader (hpos : 0 < ciphertext.length)
    (hsize : ciphertext.length + 32 < 2 ^ 32) (key_m : List UInt8) :
    (c.sealHeader env hR smsg key_m ciphertext (ciphertext ++ env.heap)).getSmsgCiphertextLength =
      ciphertext.length := by
  have hpaid : (c.sealHeader env hR smsg key_m ciphertext
      (ciphertext ++ env.heap)).isPaidVersion = true :=
    SecureMessage.isPaidVersion_of_version hversion
  have hlength : (c.sealHeader env hR smsg key_m ciphertext (ciphertext ++ env.heap)).nPayload =
      ciphertext.length + 32 := by
    show (ciphertext ++ env.heap).length % 2 ^ 32 = _
    rw [length_append, env.length_heap, Nat.mod_eq_of_lt hsize]
  rw [SecureMessage.getSmsgCiphertextLength, if_pos hpaid, hlength, if_pos (by omega),
    Nat.add_sub_cancel]

theorem checkMac_sealHeader (hpos : 0 < ciphertext.length) (hsize : ciphertext.length + 32 < 2 ^ 32)
    (txid : List UInt8) {key_e key_m : List UInt8}
    (hkeys : c.deriveSmsgKeys (c.ecdh (c.getPubKey keyDest) env.keyR) (c.getPubKey env.keyR)
      addressTo env.iv = (key_e, key_m)) :
    c.checkMac keyDest addressTo
        (c.sealHeader env hR smsg key_m ciphertext (ciphertext ++ env.heap)) (ciphertext ++ txid) =
      .ok key_e := by
  have hlength := getSmsgCiphertextLength_sealHeader env hR hversion hpos hsize key_m
  have hcurrent : (c.sealHeader env hR smsg key_m ciphertext
      (ciphertext ++ env.heap)).isCurrentPaidSmsgVersion = true := by
    show (smsg.version == (3, 0)) = true
    rw [hversion]
    rfl
  have hparse : c.ecPubkeyParse (c.getPubKey env.keyR) = true := c.ecPubkeyParse_getPubKey _
  rw [c.ecdh_comm] at hkeys
  rw [checkMac, hlength, hcurrent, take_left, if_neg (by simp),
    if_neg (by rw [length_append]; omega)]
  have hfields : (c.sealHeader env hR smsg key_m ciphertext (ciphertext ++ env.heap)).cpkR =
        c.getPubKey env.keyR ∧
      (c.sealHeader env hR smsg key_m ciphertext (ciphertext ++ env.heap)).iv = env.iv := ⟨rfl, rfl⟩
  have hmac : c.messageMac key_m
      (c.sealHeader env hR smsg key_m ciphertext (ciphertext ++ env.heap)) ciphertext =
      (c.sealHeader env hR smsg key_m ciphertext (ciphertext ++ env.heap)).mac := rfl
  simp only [hfields, hparse, hkeys, hmac, Bool.not_true, Bool.false_eq_true, if_false, ne_eq,
    not_true_eq_false]

theorem exists_sealPayload {vchPayload : List UInt8} (hne : vchPayload ≠ [])
    (hsize : vchPayload.length + 48 < 2 ^ 32) :
    ∃ sealed ciphertext,
      c.sealPayload env hR smsg addressTo (c.getPubKey keyDest) vchPayload =
        .ok (sealed, ciphertext ++ env.heap) ∧
      0 < ciphertext.length ∧ ciphertext.length ≤ vchPayload.length + 16 ∧
      sealed.version = smsg.version ∧ sealed.timestamp = smsg.timestamp ∧
      sealed.nonce = smsg.nonce ∧ sealed.nPayload = ciphertext.length + 32 ∧
      ∀ txid : List UInt8,
        c.openPayload keyDest addressTo sealed (ciphertext ++ txid) = .ok vchPayload := by
  obtain ⟨key_e, key_m, hkeys⟩ : ∃ key_e key_m, c.deriveSmsgKeys
      (c.ecdh (c.getPubKey keyDest) env.keyR) (c.getPubKey env.keyR) addressTo env.iv =
      (key_e, key_m) := ⟨_, _, rfl⟩
  obtain ⟨ciphertext, hciphertext⟩ : ∃ ciphertext,
      c.aesEncrypt key_e env.iv vchPayload = ciphertext := ⟨_, rfl⟩
  have hge := c.le_length_aesEncrypt key_e env.iv vchPayload
  have hle := c.length_aesEncrypt_le key_e env.iv vchPayload
  have hvch : 0 < vchPayload.length := length_pos_iff.mpr hne
  rw [hciphertext] at hge hle
  have hpos : 0 < ciphertext.length := by omega
  have hshort : ciphertext.length + 32 < 2 ^ 32 := by omega
  have hpaid := SecureMessage.isPaidVersion_of_version hversion
  refine ⟨c.sealHeader env hR smsg key_m ciphertext (ciphertext ++ env.heap), ciphertext, ?_,
    hpos, hle, rfl, rfl, rfl, ?_, fun txid => ?_⟩
  · simp only [sealPayload, hkeys, hciphertext, hpaid, if_true, if_neg hge.not_gt]
  · show (ciphertext ++ env.heap).length % 2 ^ 32 = _
    rw [length_append, env.length_heap, Nat.mod_eq_of_lt hshort]
  · have hmac := checkMac_sealHeader env hR keyDest addressTo hversion hpos hshort txid hkeys
    have hlength := getSmsgCiphertextLength_sealHeader env hR hversion hpos hshort key_m
    refine bind_eq_ok.mpr ⟨key_e, hmac, congrArg Except.ok ?_⟩
    rw [hlength, take_left, ← hciphertext]
    exact c.aesDecrypt_aesEncrypt key_e env.iv vchPayload

end Sealed

end SmsgCrypto

/-! ## A toy suite -/

namespace SampleCrypto

def fit (length : Nat) (bytes : List UInt8) : List UInt8 :=
  (bytes ++ List.replicate length 0).take length

theorem length_fit (length : Nat) (bytes : List UInt8) : (fit length bytes).length = length := by
  simp [fit]

def pubKey (key : UInt8) : valtype := 2 :: fit 32 [key]

def pad (plain : List UInt8) : List UInt8 :=
  plain ++ List.replicate (16 - plain.length % 16) (UInt8.ofNat (16 - plain.length % 16))

def unpad (cipher : List UInt8) : List UInt8 :=
  cipher.take (cipher.length - (cipher.getLastD 0).toNat)

theorem unpad_pad (plain : List UInt8) : unpad (pad plain) = plain := by
  have hpos : 0 < 16 - plain.length % 16 := by omega
  obtain ⟨k, hk⟩ : ∃ k, 16 - plain.length % 16 = k + 1 := ⟨_, (Nat.succ_pred_eq_of_pos hpos).symm⟩
  have hbyte : (UInt8.ofNat (k + 1)).toNat = k + 1 := Nat.mod_eq_of_lt (by omega)
  have hlast : (pad plain).getLastD 0 = UInt8.ofNat (k + 1) := by
    rw [pad, hk, replicate_succ', ← append_assoc, getLastD_concat]
  rw [unpad, hlast, hbyte, pad, hk, length_append, length_replicate,
    Nat.add_sub_cancel, take_left]

def hash256 (bytes : List UInt8) : uint256 :=
  if bytes.length ≤ 30 then BitVec.ofNat 256 (ofLittleEndian (bytes ++ [1])) else 0

/-- Keys are single bytes, sums are shared secrets and signatures show the key. -/
def crypto : SmsgCrypto UInt8 where
  sha256 := fit 32
  length_sha256 := length_fit 32
  ripemd160 := fun bytes => fit 20 bytes.reverse
  length_ripemd160 := fun bytes => length_fit 20 bytes.reverse
  getPubKey := pubKey
  getID := fun pubkey => fit 20 (pubkey.drop 1)
  length_getID := fun pubkey => length_fit 20 _
  validSize_getPubKey := fun key => by
    rw [pubKey, CPubKey.validSize, length_fit]
    rfl
  ecPubkeyParse := fun _ => true
  ecPubkeyParse_getPubKey := fun _ => rfl
  ecdh := fun pubkey key => fit 32 [pubkey.getD 1 0 + key]
  ecdh_comm := fun a b => by
    show fit 32 [a + b] = fit 32 [b + a]
    rw [UInt8.add_comm]
  hmacSha256 := fun key bytes => fit 32 (key.take 16 ++ bytes.take 16)
  length_hmacSha256 := fun _ _ => length_fit 32 _
  hash256 := hash256
  aesEncrypt := fun _ _ plain => pad plain
  aesDecrypt := fun _ _ cipher => unpad cipher
  aesDecrypt_aesEncrypt := fun _ _ plain => unpad_pad plain
  le_length_aesEncrypt := fun _ _ plain => by simp [pad]
  length_aesEncrypt_le := fun _ _ plain => by simp [pad]
  lz4Compress := fun plain => 0 :: plain
  lz4DecompressSafe := fun data _ => some (data.drop 1)
  lz4DecompressSafe_lz4Compress := fun _ _ => rfl
  lz4Compress_ne_nil := fun _ _ => by simp
  length_lz4Compress_le := fun plain h => by
    rw [lz4CompressBound, if_neg (Nat.not_lt.mpr h), List.length_cons]
    omega
  signCompact := fun key hash => key :: (hashBytes hash ++ List.replicate 32 0)
  length_signCompact := fun _ _ => by simp
  recoverCompact := fun hash sig =>
    if (sig.drop 1).take 32 = hashBytes hash then some (pubKey (sig.headD 0)) else none
  recoverCompact_signCompact := fun key hash => by
    rw [List.drop_succ_cons, List.drop_zero, List.take_left' (length_hashBytes hash)]
    exact if_pos rfl

end SampleCrypto

end Verge
