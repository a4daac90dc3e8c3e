import Verge.Foundation.Packed
import Verge.Smsg.Bucket
import Verge.Smsg.PaidFunding
import Verge.Validation.BlockChecks

/-!
# Secure messages

The header of a secure message as `smsg/smessage.h` packs it, its checksum and its
id, and `Validate`.  A message is its header and its payload; the payload of a paid
message ends with the id of the transaction that pays for it, which neither the
checksum nor the message id covers.
-/

namespace Verge

open Foundation List

@[ext] structure SecureMessage where
  hash : List UInt8
  version : UInt8 × UInt8
  flags : UInt8
  timestamp : Int
  iv : List UInt8
  cpkR : List UInt8
  mac : List UInt8
  nonce : List UInt8
  nPayload : Nat
  length_hash : hash.length = 4
  timestamp_ge : -2 ^ 63 ≤ timestamp
  timestamp_lt : timestamp < 2 ^ 63
  length_iv : iv.length = 16
  length_cpkR : cpkR.length = 33
  length_mac : mac.length = 32
  length_nonce : nonce.length = 4
  nPayload_lt : nPayload < 2 ^ 32
  deriving DecidableEq, Repr

def SecureMessage.newPaid (nDaysRetention : Nat) : SecureMessage where
  hash := List.replicate 4 0
  version := (3, 0)
  flags := 0
  timestamp := 0
  iv := List.replicate 16 0
  cpkR := List.replicate 33 0
  mac := List.replicate 32 0
  nonce := [UInt8.ofNat nDaysRetention, 0, 0, 0]
  nPayload := 0
  length_hash := rfl
  timestamp_ge := by decide
  timestamp_lt := by decide
  length_iv := rfl
  length_cpkR := rfl
  length_mac := rfl
  length_nonce := rfl
  nPayload_lt := by decide

namespace SecureMessage

def widths : List Nat := [4, 2, 1, 8, 16, 33, 32, 4, 4]

def fields (smsg : SecureMessage) : List (List UInt8) :=
  [smsg.hash, [smsg.version.1, smsg.version.2], [smsg.flags], writeInt64 smsg.timestamp, smsg.iv,
    smsg.cpkR, smsg.mac, smsg.nonce, writeLE 4 smsg.nPayload]

variable (smsg : SecureMessage)

theorem map_length_fields : smsg.fields.map List.length = widths := by
  simp [fields, widths, writeInt64, smsg.length_hash, smsg.length_iv, smsg.length_cpkR,
    smsg.length_mac, smsg.length_nonce]

def data (smsg : SecureMessage) : List UInt8 := smsg.fields.flatten

@[simp] theorem length_data : smsg.data.length = SMSG_HDR_LEN := by
  rw [data, length_flatten, map_length_fields]
  rfl

def ofFields (fields : List (List UInt8)) (h : fields.map List.length = widths) :
    SecureMessage where
  hash := fields.getD 0 []
  version := ((fields.getD 1 []).getD 0 0, (fields.getD 1 []).getD 1 0)
  flags := (fields.getD 2 []).getD 0 0
  timestamp := readInt64 (fields.getD 3 [])
  iv := fields.getD 4 []
  cpkR := fields.getD 5 []
  mac := fields.getD 6 []
  nonce := fields.getD 7 []
  nPayload := ofLittleEndian (fields.getD 8 [])
  length_hash := length_field h 0
  timestamp_ge := BitVec.le_toInt _
  timestamp_lt := BitVec.toInt_lt
  length_iv := length_field h 4
  length_cpkR := length_field h 5
  length_mac := length_field h 6
  length_nonce := length_field h 7
  nPayload_lt := by
    have hlt := ofLittleEndian_lt (fields.getD 8 [])
    rwa [length_field h 8] at hlt

def ofData (bytes : List UInt8) (h : SMSG_HDR_LEN ≤ bytes.length) : SecureMessage :=
  ofFields (unpack widths bytes) (map_length_unpack h)

theorem ofFields_fields (h : smsg.fields.map List.length = widths) :
    ofFields smsg.fields h = smsg := by
  have htime : readInt64 (writeInt64 smsg.timestamp) = smsg.timestamp :=
    readInt64_writeInt64 smsg.timestamp_ge smsg.timestamp_lt
  have hpayload : ofLittleEndian (writeLE 4 smsg.nPayload) = smsg.nPayload :=
    (ofLittleEndian_writeLE 4 _).trans (Nat.mod_eq_of_lt smsg.nPayload_lt)
  apply SecureMessage.ext
  all_goals simp only [ofFields, fields, getD_cons_succ, getD_cons_zero]
  case timestamp => exact htime
  case nPayload => exact hpayload

theorem ofData_data (rest : List UInt8) (h : SMSG_HDR_LEN ≤ (smsg.data ++ rest).length) :
    ofData (smsg.data ++ rest) h = smsg := by
  have hunpack : unpack widths (smsg.data ++ rest) = smsg.fields := by
    rw [← smsg.map_length_fields]
    exact unpack_flatten smsg.fields rest
  simp only [ofData, hunpack, ofFields_fields]

def isPaidVersion (smsg : SecureMessage) : Bool := smsg.version.1 == 3

def isCurrentUnpaidSmsgVersion (smsg : SecureMessage) : Bool := smsg.version == (2, 2)

def isCurrentPaidSmsgVersion (smsg : SecureMessage) : Bool := smsg.version == (3, 0)

theorem isPaidVersion_of_version {smsg : SecureMessage} (h : smsg.version = (3, 0)) :
    smsg.isPaidVersion = true := by
  rw [isPaidVersion, h]
  rfl

/-- `nonce[0]`, the days that a paid message is kept. -/
def nDaysRetention (smsg : SecureMessage) : Nat := (smsg.nonce.headD 0).toNat

def getSmsgCiphertextLength (smsg : SecureMessage) : Nat :=
  if smsg.isPaidVersion then (if 32 < smsg.nPayload then smsg.nPayload - 32 else 0)
  else smsg.nPayload

def getSmsgTTLSeconds (day : Nat) (smsg : SecureMessage) : Nat :=
  if smsg.isPaidVersion then smsg.nDaysRetention * day else 2 * day

def isSmsgExpired (day : Nat) (now : Int) (smsg : SecureMessage) : Bool :=
  let ttlSeconds := smsg.getSmsgTTLSeconds day
  decide (0 < ttlSeconds) && decide (smsg.timestamp + ttlSeconds < now)

end SecureMessage

structure SmsgHashes where
  sha256 : List UInt8 → List UInt8
  length_sha256 : ∀ bytes, (sha256 bytes).length = 32
  ripemd160 : List UInt8 → List UInt8
  length_ripemd160 : ∀ bytes, (ripemd160 bytes).length = 20

def getFundingTxid (payload : List UInt8) : Option uint256 :=
  if payload.length < 32 then none
  else some (BitVec.ofNat 256 (ofLittleEndian (payload.drop (payload.length - 32))))

theorem getFundingTxid_append (ciphertext : List UInt8) (txid : uint256) :
    getFundingTxid (ciphertext ++ hashBytes txid) = some txid := by
  have hlength : (ciphertext ++ hashBytes txid).length = ciphertext.length + 32 := by simp
  have hread : ofLittleEndian (hashBytes txid) = txid.toNat := by
    rw [hashBytes, ofLittleEndian_writeLE]
    exact Nat.mod_eq_of_lt txid.isLt
  rw [getFundingTxid, hlength, if_neg (by omega), Nat.add_sub_cancel, drop_left, hread,
    BitVec.ofNat_toNat, BitVec.setWidth_eq]

namespace SmsgHashes

variable (hashes : SmsgHashes)

/-- The four bytes that `SetPaidSmsgChecksum` writes and `CheckPaidSmsgChecksum`
compares: everything but the checksum itself and the funding transaction. -/
def paidSmsgChecksum (smsg : SecureMessage) (payload : List UInt8) : List UInt8 :=
  (hashes.sha256 (smsg.data.drop 4 ++ payload.take smsg.getSmsgCiphertextLength)).take 4

variable (smsg : SecureMessage) (payload : List UInt8)

theorem length_paidSmsgChecksum : (hashes.paidSmsgChecksum smsg payload).length = 4 := by
  rw [paidSmsgChecksum, length_take, hashes.length_sha256]
  rfl

def setPaidSmsgChecksum (smsg : SecureMessage) (payload : List UInt8) : SecureMessage :=
  { smsg with
    hash := hashes.paidSmsgChecksum smsg payload
    length_hash := hashes.length_paidSmsgChecksum smsg payload }

def checkPaidSmsgChecksum (smsg : SecureMessage) (payload : List UInt8) : Bool :=
  smsg.hash == hashes.paidSmsgChecksum smsg payload

/-- `HashMsg` on the first `nPayload` bytes of the payload.  The buffer for the hash
stays zero if there are fewer. -/
def hashMsg (smsg : SecureMessage) (payload : List UInt8) (nPayload : Nat) : List UInt8 :=
  if smsg.nPayload < nPayload then List.replicate 20 0
  else hashes.ripemd160 (smsg.data ++ payload.take nPayload)

def getMsgID (smsg : SecureMessage) (payload : List UInt8) : MsgId :=
  (writeInt64 smsg.timestamp).reverse ++
    hashes.hashMsg smsg payload
      (if smsg.isPaidVersion then (smsg.nPayload + 2 ^ 32 - 32) % 2 ^ 32 else smsg.nPayload)

theorem length_hashMsg (nPayload : Nat) : (hashes.hashMsg smsg payload nPayload).length = 20 := by
  unfold hashMsg
  split
  case isTrue => exact length_replicate
  case isFalse => exact hashes.length_ripemd160 _

theorem length_getMsgID : (hashes.getMsgID smsg payload).length = SMSG_PAID_MSGID_LEN := by
  rw [getMsgID, length_append, length_reverse, writeInt64, length_writeLE,
    length_hashMsg]
  rfl

theorem checkPaidSmsgChecksum_set (payload' : List UInt8)
    (h : payload'.take smsg.getSmsgCiphertextLength = payload.take smsg.getSmsgCiphertextLength) :
    hashes.checkPaidSmsgChecksum (hashes.setPaidSmsgChecksum smsg payload) payload' = true := by
  have hdata : (hashes.setPaidSmsgChecksum smsg payload).data.drop 4 = smsg.data.drop 4 := by
    simp only [SecureMessage.data, SecureMessage.fields, flatten_cons, setPaidSmsgChecksum]
    rw [drop_left' (hashes.length_paidSmsgChecksum smsg payload),
      drop_left' smsg.length_hash]
  have hlength : (hashes.setPaidSmsgChecksum smsg payload).getSmsgCiphertextLength =
      smsg.getSmsgCiphertextLength := rfl
  rw [checkPaidSmsgChecksum, beq_iff_eq, paidSmsgChecksum, hdata, hlength, h]
  rfl

end SmsgHashes

inductive SecureMessageCodes where
  | SMSG_NO_ERROR
  | SMSG_GENERAL_ERROR
  | SMSG_UNKNOWN_VERSION
  | SMSG_INVALID_ADDRESS_TO
  | SMSG_PUBKEY_NOT_EXISTS
  | SMSG_UNKNOWN_KEY_FROM
  | SMSG_MAC_MISMATCH
  | SMSG_PAYLOAD_OVER_SIZE
  | SMSG_TIME_IN_FUTURE
  | SMSG_TIME_EXPIRED
  | SMSG_CHECKSUM_MISMATCH
  | SMSG_MESSAGE_TOO_LONG
  | SMSG_COMPRESS_FAILED
  | SMSG_ENCRYPT_FAILED
  | SMSG_FUND_FAILED
  | SMSG_FUND_NOT_READY
  | SMSG_PURGED_MSG
  | SMSG_STORE_FULL
  deriving DecidableEq, Repr

def SMSG_PL_HDR_LEN : Nat := 1 + 20 + 65 + 4

def SMSG_MAX_MSG_BYTES : Nat := 512

def SMSG_MAX_AMSG_BYTES : Nat := 512

def SMSG_MAX_MSG_BYTES_PAID : Nat := 5 * 1024

def LZ4_MAX_INPUT_SIZE : Nat := 0x7E000000

def lz4CompressBound (isize : Nat) : Nat :=
  if isize > LZ4_MAX_INPUT_SIZE then 0 else isize + isize / 255 + 16

def SMSG_MAX_MSG_WORST_PAID : Nat := lz4CompressBound (SMSG_MAX_MSG_BYTES_PAID + SMSG_PL_HDR_LEN)

def SMSG_MAX_MSG_WORST_PAID_ENCRYPTED : Nat := SMSG_MAX_MSG_WORST_PAID + 16 + 32

open SecureMessageCodes in
/-- `Validate`.  Only paid messages are accepted, so the proof of work of the others
is never looked at; the cache of fundings that were missing changes no answer. -/
def CSMSG.validate (s : CSMSG) (hashes : SmsgHashes) (day : Nat) (now : Int)
    (smsg : SecureMessage) (payload : List UInt8) : SecureMessageCodes :=
  if smsg.nPayload ≠ payload.length then SMSG_PAYLOAD_OVER_SIZE
  else if !smsg.isPaidVersion then SMSG_UNKNOWN_VERSION
  else if !smsg.isCurrentPaidSmsgVersion then SMSG_UNKNOWN_VERSION
  else if payload.length ≤ 32 then SMSG_PAYLOAD_OVER_SIZE
  else if SMSG_MAX_MSG_WORST_PAID_ENCRYPTED < payload.length then SMSG_PAYLOAD_OVER_SIZE
  else if smsg.nDaysRetention < 1 ∨ 31 < smsg.nDaysRetention then SMSG_TIME_EXPIRED
  else if !hashes.checkPaidSmsgChecksum smsg payload then SMSG_CHECKSUM_MISMATCH
  else if now + SMSG_TIME_LEEWAY < smsg.timestamp then SMSG_TIME_IN_FUTURE
  else if smsg.isSmsgExpired day now then SMSG_TIME_EXPIRED
  else
    match getFundingTxid payload with
    | none => SMSG_FUND_FAILED
    | some txid =>
      if s.hasConfirmedPaidFunding (hashes.getMsgID smsg payload) txid then SMSG_NO_ERROR
      else SMSG_FUND_NOT_READY

structure SecureMessage.Accepted (smsg : SecureMessage) (payload : List UInt8) (day : Nat)
    (now : Int) : Prop where
  nPayload_eq : smsg.nPayload = payload.length
  version_eq : smsg.version = (3, 0)
  lt_length : 32 < payload.length
  length_le : payload.length ≤ SMSG_MAX_MSG_WORST_PAID_ENCRYPTED
  one_le_days : 1 ≤ smsg.nDaysRetention
  days_le : smsg.nDaysRetention ≤ 31
  timestamp_le : smsg.timestamp ≤ now + SMSG_TIME_LEEWAY
  not_expired : smsg.isSmsgExpired day now = false

theorem of_ite_eq {α : Type} {c : Prop} [Decidable c] {a b r : α}
    (h : (if c then a else b) = r) (hne : a ≠ r) : ¬c ∧ b = r := by
  by_cases hc : c
  · rw [if_pos hc] at h
    exact absurd h hne
  · rw [if_neg hc] at h
    exact ⟨hc, h⟩

open SecureMessageCodes in
theorem CSMSG.of_validate_eq_noError {s : CSMSG} {hashes : SmsgHashes} {day : Nat} {now : Int}
    {smsg : SecureMessage} {payload : List UInt8}
    (h : s.validate hashes day now smsg payload = SMSG_NO_ERROR) :
    smsg.Accepted payload day now := by
  unfold CSMSG.validate at h
  obtain ⟨hlength, h⟩ := of_ite_eq h (by decide)
  obtain ⟨-, h⟩ := of_ite_eq h (by decide)
  obtain ⟨hversion, h⟩ := of_ite_eq h (by decide)
  obtain ⟨hpayload, h⟩ := of_ite_eq h (by decide)
  obtain ⟨hsize, h⟩ := of_ite_eq h (by decide)
  obtain ⟨hdays, h⟩ := of_ite_eq h (by decide)
  obtain ⟨-, h⟩ := of_ite_eq h (by decide)
  obtain ⟨hfuture, h⟩ := of_ite_eq h (by decide)
  obtain ⟨hexpired, -⟩ := of_ite_eq h (by decide)
  simp only [SecureMessage.isCurrentPaidSmsgVersion, Bool.not_eq_true', beq_eq_false_iff_ne,
    ne_eq, not_not] at hversion
  exact ⟨not_not.mp hlength, hversion, by omega, by omega, by omega, by omega, by omega,
    Bool.eq_false_iff.mpr hexpired⟩

end Verge
