import Verge.Smsg.Crypt

/-!
# Paid messages from sender to recipient

`Send` encrypts a message, sets its checksum and pays for it; the id of the paying
transaction is written behind the ciphertext, where neither the checksum nor the
message id nor the MAC looks.  Every node that has indexed the transaction accepts
the message while its own clock is between the timestamp, less a leeway, and the end
of the message's life, and the recipient reads the text of the sender.
-/

namespace Verge

open Foundation SecureMessageCodes List

structure PaidMessage where
  smsg : SecureMessage
  payload : List UInt8
  tx : CTransaction
  funding : CTxOut

def SmsgHashes.fundingOutput (hashes : SmsgHashes) (smsg : SecureMessage) (payload : List UInt8) :
    CTxOut :=
  ⟨SMSG_PAID_MSG_FEE, buildPaidFundingScript (hashes.getMsgID smsg payload)⟩

def SmsgHashes.fundMsg (hashes : SmsgHashes) (createTransaction : CTxOut → Option CTransaction)
    (smsg : SecureMessage) (payload : List UInt8) : Except SecureMessageCodes PaidMessage :=
  if !smsg.isPaidVersion then .error SMSG_GENERAL_ERROR
  else if smsg.nPayload ≤ 32 then .error SMSG_GENERAL_ERROR
  else
    match createTransaction (hashes.fundingOutput smsg payload) with
    | none => .error SMSG_FUND_FAILED
    | some tx =>
      .ok ⟨smsg, payload.take (smsg.nPayload - 32) ++ hashBytes tx.hash, tx,
        hashes.fundingOutput smsg payload⟩

theorem SmsgHashes.getMsgID_append (hashes : SmsgHashes) {smsg : SecureMessage}
    {ciphertext : List UInt8} (hpaid : smsg.isPaidVersion = true)
    (hpayload : smsg.nPayload = ciphertext.length + 32) (x y : List UInt8) :
    hashes.getMsgID smsg (ciphertext ++ x) = hashes.getMsgID smsg (ciphertext ++ y) := by
  have hlt := smsg.nPayload_lt
  have hlength : (smsg.nPayload + 2 ^ 32 - 32) % 2 ^ 32 = ciphertext.length := by omega
  simp only [getMsgID, hashMsg, hpaid, if_true, hlength, take_left]

namespace SmsgCrypto

variable {κ : Type} (c : SmsgCrypto κ)

/-- The part of `Send` that makes the message for the network. -/
def sendPaid (env : EncryptEnv κ) (hR : (c.getPubKey env.keyR).length = 33)
    (createTransaction : CTxOut → Option CTransaction)
    (addressFrom addressTo message : List UInt8) (nDaysRetention : Nat) :
    Except SecureMessageCodes PaidMessage := do
  let (smsg, payload) ←
    c.encrypt env hR (.newPaid nDaysRetention) addressFrom addressTo message
  let smsg := c.setPaidSmsgChecksum smsg payload
  c.fundMsg createTransaction smsg payload

variable {c}

theorem validate_eq_noError_iff {smsg : SecureMessage} {ciphertext : List UInt8} {txid : uint256}
    {day : Nat} (hday : 0 < day) (hversion : smsg.version = (3, 0))
    (hlength : smsg.nPayload = ciphertext.length + 32) (hpos : 0 < ciphertext.length)
    (hsize : ciphertext.length + 32 ≤ SMSG_MAX_MSG_WORST_PAID_ENCRYPTED)
    (hdays : 1 ≤ smsg.nDaysRetention ∧ smsg.nDaysRetention ≤ 31)
    (hchecksum : c.checkPaidSmsgChecksum smsg (ciphertext ++ hashBytes txid) = true)
    (s : CSMSG) (now : Int) :
    s.validate c.toSmsgHashes day now smsg (ciphertext ++ hashBytes txid) = SMSG_NO_ERROR ↔
      smsg.timestamp ≤ now + SMSG_TIME_LEEWAY ∧
        now ≤ smsg.timestamp + (smsg.nDaysRetention * day : Nat) ∧
        s.hasConfirmedPaidFunding (c.getMsgID smsg (ciphertext ++ hashBytes txid)) txid = true := by
  have hpayload : (ciphertext ++ hashBytes txid).length = ciphertext.length + 32 := by simp
  have hpaid := SecureMessage.isPaidVersion_of_version hversion
  have hcurrent : smsg.isCurrentPaidSmsgVersion = true := by
    rw [SecureMessage.isCurrentPaidSmsgVersion, hversion]
    rfl
  have hexpired : smsg.isSmsgExpired day now = true ↔
      smsg.timestamp + (smsg.nDaysRetention * day : Nat) < now := by
    have httl : 0 < smsg.nDaysRetention * day := Nat.mul_pos hdays.1 hday
    simp only [SecureMessage.isSmsgExpired, SecureMessage.getSmsgTTLSeconds, hpaid, if_true, httl,
      decide_true, Bool.true_and, decide_eq_true_eq]
  rw [CSMSG.validate, hlength, hpayload, hpaid, hcurrent, hchecksum, getFundingTxid_append]
  rw [if_neg (not_not.mpr rfl), if_neg (by simp), if_neg (by simp), if_neg (by omega),
    if_neg (Nat.not_lt.mpr hsize), if_neg (by omega), if_neg (by simp)]
  by_cases hfuture : now + SMSG_TIME_LEEWAY < smsg.timestamp
  · rw [if_pos hfuture]
    constructor
    · intro h
      cases h
    · intro h
      exact absurd h.1 (by omega)
  · rw [if_neg hfuture]
    by_cases hlate : smsg.timestamp + (smsg.nDaysRetention * day : Nat) < now
    · rw [if_pos (hexpired.mpr hlate)]
      constructor
      · intro h
        cases h
      · intro h
        exact absurd h.2.1 (by omega)
    · rw [if_neg fun h => hlate (hexpired.mp h)]
      constructor
      · intro h
        dsimp only at h
        split at h
        case isTrue hfunded => exact ⟨by omega, by omega, hfunded⟩
        case isFalse => cases h
      · intro h
        exact if_pos h.2.2

/-- The sender has the public key of the recipient, and its own key unless it stays
anonymous. -/
structure CanSend (c : SmsgCrypto κ) (env : EncryptEnv κ) (addressFrom addressTo : List UInt8)
    (keyDest : κ) : Prop where
  recipient : env.publicKey addressTo = some (c.getPubKey keyDest)
  sender : keyIDIsNull addressFrom = true ∨
    ∃ keyFrom, env.privateKey addressFrom = some keyFrom ∧
      c.getID (c.getPubKey keyFrom) = addressFrom

def senderOf (addressFrom : List UInt8) : SmsgSender :=
  if keyIDIsNull addressFrom then .anon else .address addressFrom

/-- A paid message that was sent: indexed nodes accept it during its life, and the recipient
reads the text and the sender. -/
structure Delivered (c : SmsgCrypto κ) (env : EncryptEnv κ) (keyDest : κ)
    (addressFrom addressTo message : List UInt8) (nDaysRetention : Nat) (sent : PaidMessage) :
    Prop where
  accepted : ∀ (s : CSMSG) (now : Int),
    s.hasConfirmedPaidFunding (c.getMsgID sent.smsg sent.payload) sent.tx.hash = true →
      env.time ≤ now + SMSG_TIME_LEEWAY →
      now ≤ env.time + (nDaysRetention * env.network.getSecondsInDay : Nat) →
      s.validate c.toSmsgHashes env.network.getSecondsInDay now sent.smsg sent.payload =
        SMSG_NO_ERROR
  funded : extractPaidFundingMsgId sent.funding.scriptPubKey =
    some (c.getMsgID sent.smsg sent.payload)
  received : c.decrypt false keyDest addressTo sent.smsg sent.payload =
    .ok (some ⟨env.time, senderOf addressFrom, message ++ [0]⟩)

section

variable {env : EncryptEnv κ} {addressFrom addressTo message : List UInt8} {keyDest : κ}
  (hsend : CanSend c env addressFrom addressTo keyDest)
  (hmax : message.length ≤ SMSG_MAX_MSG_BYTES_PAID)

include hsend hmax

theorem exists_plainPayload :
    ∃ vchPayload, c.plainPayload env addressFrom message = .ok vchPayload ∧
      vchPayload ≠ [] ∧ vchPayload.length ≤ SMSG_MAX_MSG_WORST_PAID ∧
      c.readPayload SMSG_MAX_MSG_BYTES_PAID vchPayload = .ok (senderOf addressFrom, message) := by
  obtain ⟨msgData, hmsgData, -, hshort, hlong⟩ := exists_compressMessage c hmax
  have hdata : msgData.length ≤ 5156 := by
    have hbound : lz4CompressBound message.length = message.length + message.length / 255 + 16 :=
      if_neg (by simp only [SMSG_MAX_MSG_BYTES_PAID, LZ4_MAX_INPUT_SIZE] at *; omega)
    rw [hbound] at hlong
    simp only [SMSG_MAX_MSG_BYTES_PAID] at hmax
    omega
  have hworst : SMSG_MAX_MSG_WORST_PAID = 5246 := rfl
  rw [hworst, plainPayload, hmsgData]
  by_cases hnull : keyIDIsNull addressFrom = true
  · refine ⟨anonymousPayload message msgData, if_pos hnull, by simp [anonymousPayload], ?_, ?_⟩
    · simp only [anonymousPayload, length_append, length_writeLE, length_cons,
        length_nil]
      omega
    · rw [readPayload_anonymousPayload hmax hmsgData, senderOf, if_pos hnull]
  · obtain ⟨keyFrom, hkey, hid⟩ := hsend.sender.resolve_left hnull
    have hkeyID : addressFrom.length = 20 := hid ▸ c.length_getID _
    have hsignature := c.length_signCompact keyFrom (c.hash256 message)
    refine ⟨signedPayload env.network.pubkeyAddress addressFrom
      (c.signCompact keyFrom (c.hash256 message)) message msgData, ?_, by simp [signedPayload],
      ?_, ?_⟩
    · exact (if_neg hnull).trans (by rw [hkey])
    · simp only [signedPayload, length_append, length_writeLE, length_cons,
        length_nil, hkeyID, hsignature]
      omega
    · rw [readPayload_signedPayload hmax hmsgData env.network.pubkeyAddress_ne hkeyID hsignature
        (c.recoverCompact_signCompact _ _) (c.validSize_getPubKey _) hid, senderOf, if_neg hnull]

theorem exists_encrypt (hR : (c.getPubKey env.keyR).length = 33) (nDaysRetention : Nat) :
    ∃ sealed ciphertext,
      c.encrypt env hR (.newPaid nDaysRetention) addressFrom addressTo message =
        .ok (sealed, ciphertext ++ env.heap) ∧
      0 < ciphertext.length ∧ ciphertext.length + 32 ≤ SMSG_MAX_MSG_WORST_PAID_ENCRYPTED ∧
      sealed.version = (3, 0) ∧ sealed.timestamp = env.time ∧
      sealed.nonce = [UInt8.ofNat nDaysRetention, 0, 0, 0] ∧
      sealed.nPayload = ciphertext.length + 32 ∧
      ∀ txid : List UInt8, c.decrypt false keyDest addressTo sealed (ciphertext ++ txid) =
        .ok (some ⟨env.time, senderOf addressFrom, message ++ [0]⟩) := by
  obtain ⟨vchPayload, hplain, hne, hlength, hread⟩ := exists_plainPayload hsend hmax
  have hsize : vchPayload.length + 48 < 2 ^ 32 := lt_of_le_of_lt (Nat.add_le_add_right hlength 48)
    (by decide)
  obtain ⟨sealed, ciphertext, hseal, hpos, hle, hversion, htime, hnonce, hpayload, hopen⟩ :=
    exists_sealPayload env hR keyDest addressTo
      (rfl : (stamp env (SecureMessage.newPaid nDaysRetention)).version = (3, 0)) hne hsize
  refine ⟨sealed, ciphertext, ?_, hpos, ?_, hversion, htime, hnonce, hpayload, fun txid => ?_⟩
  · simp only [encrypt, hsend.recipient, c.ecPubkeyParse_getPubKey, hplain, hseal, Bool.not_true,
      Bool.false_eq_true, if_false]
  · simp only [SMSG_MAX_MSG_WORST_PAID_ENCRYPTED]
    omega
  · have hpaid := SecureMessage.isPaidVersion_of_version hversion
    have hdecrypt := decrypt_of_readPayload (hopen txid) (by rw [if_pos hpaid]; exact hread)
    rwa [htime] at hdecrypt

end

theorem sendPaid_delivered {env : EncryptEnv κ} (hR : (c.getPubKey env.keyR).length = 33)
    {createTransaction : CTxOut → Option CTransaction}
    (hwallet : ∀ txout, createTransaction txout ≠ none)
    {addressFrom addressTo message : List UInt8} {keyDest : κ} {nDaysRetention : Nat}
    (hsend : CanSend c env addressFrom addressTo keyDest)
    (hmax : message.length ≤ SMSG_MAX_MSG_BYTES_PAID)
    (hdays : 1 ≤ nDaysRetention ∧ nDaysRetention ≤ 31) :
    ∃ sent, c.sendPaid env hR createTransaction addressFrom addressTo message nDaysRetention =
        .ok sent ∧
      Delivered c env keyDest addressFrom addressTo message nDaysRetention sent := by
  obtain ⟨sealed, ciphertext, hencrypt, hpos, hsize, hversion, htime, hnonce, hpayload,
    hdecrypt⟩ := exists_encrypt hsend hmax hR nDaysRetention
  have hpaid := SecureMessage.isPaidVersion_of_version hversion
  have hciphertext : sealed.getSmsgCiphertextLength = ciphertext.length := by
    rw [SecureMessage.getSmsgCiphertextLength, if_pos hpaid, hpayload, if_pos (by omega),
      Nat.add_sub_cancel]
  have hretention : sealed.nDaysRetention = nDaysRetention := by
    rw [SecureMessage.nDaysRetention, hnonce]
    exact Nat.mod_eq_of_lt (by omega)
  -- the checksum changes no other field, and it does not cover the funding transaction
  obtain ⟨smsg, hsmsg⟩ : ∃ smsg, c.setPaidSmsgChecksum sealed (ciphertext ++ env.heap) = smsg :=
    ⟨_, rfl⟩
  obtain ⟨tx, htx⟩ := Option.ne_none_iff_exists'.mp
    (hwallet (c.fundingOutput smsg (ciphertext ++ env.heap)))
  have hchecksum : c.checkPaidSmsgChecksum smsg (ciphertext ++ hashBytes tx.hash) = true := by
    rw [← hsmsg]
    refine c.checkPaidSmsgChecksum_set sealed _ _ ?_
    rw [hciphertext, take_left, take_left]
  have hfields : smsg.version = (3, 0) ∧ smsg.timestamp = env.time ∧
      smsg.nDaysRetention = nDaysRetention ∧ smsg.nPayload = ciphertext.length + 32 ∧
      smsg.isPaidVersion = true := by
    subst hsmsg
    exact ⟨hversion, htime, hretention, hpayload, hpaid⟩
  obtain ⟨hversion', htime', hretention', hpayload', hpaid'⟩ := hfields
  refine ⟨⟨smsg, ciphertext ++ hashBytes tx.hash, tx,
    c.fundingOutput smsg (ciphertext ++ env.heap)⟩, ?_, ?_⟩
  · refine bind_eq_ok.mpr ⟨_, hencrypt, ?_⟩
    simp only [hsmsg, SmsgHashes.fundMsg, hpaid', hpayload', htx, Nat.add_sub_cancel,
      take_left, Bool.not_true, Bool.false_eq_true, if_false]
    exact if_neg (by omega)
  · refine ⟨fun s now hfunded hstart hend => ?_, ?_, ?_⟩
    · refine (validate_eq_noError_iff env.network.getSecondsInDay_pos hversion' hpayload' hpos hsize
        (by rw [hretention']; exact hdays) hchecksum s now).mpr ?_
      rw [htime', hretention']
      exact ⟨hstart, hend, hfunded⟩
    · refine (extractPaidFundingMsgId_build (c.length_getMsgID _ _)).trans ?_
      rw [c.getMsgID_append hpaid' hpayload' env.heap (hashBytes tx.hash)]
    · subst hsmsg
      exact hdecrypt (hashBytes tx.hash)

end SmsgCrypto

namespace SampleCrypto

def address (key : UInt8) : valtype := crypto.getID (pubKey key)

def env : EncryptEnv UInt8 where
  network := .main
  time := 1000000
  time_ge := by decide
  time_lt := by decide
  publicKey := fun keyID => if keyID = address 7 then some (pubKey 7) else none
  privateKey := fun keyID => if keyID = address 5 then some 5 else none
  iv := List.replicate 16 1
  length_iv := rfl
  keyR := 9
  heap := List.replicate 32 0xaa
  length_heap := rfl

def wallet (txout : CTxOut) : Option CTransaction := some ⟨[], [txout], 1, 0, 0, 77⟩

def fundedNode (sent : PaidMessage) : CSMSG :=
  { CSMSG.empty with
    mapPaidFundingByMsgId := (∅ : AssocMap MsgId PaidFundingRecord).insert
      (crypto.getMsgID sent.smsg sent.payload) ⟨77, 0, 0, 0⟩ }

theorem canSend : SmsgCrypto.CanSend crypto env (address 5) (address 7) 7 where
  recipient := by decide
  sender := .inr ⟨5, by decide, by decide⟩

theorem sendPaid_delivered_sample :
    ∃ sent, crypto.sendPaid env (by decide) wallet (address 5) (address 7) [104, 105] 31 =
        .ok sent ∧
      SmsgCrypto.Delivered crypto env 7 (address 5) (address 7) [104, 105] 31 sent :=
  SmsgCrypto.sendPaid_delivered (by decide) (fun _ => by simp [wallet]) canSend (by decide)
    (by decide)

/-- A node whose clock is 25 seconds behind has indexed the transaction and does not accept
the message. -/
theorem validate_behind :
    (crypto.sendPaid env (by decide) wallet (address 5) (address 7) [104, 105] 31).toOption.map
        (fun sent =>
          ((fundedNode sent).hasConfirmedPaidFunding (crypto.getMsgID sent.smsg sent.payload)
              sent.tx.hash,
            (fundedNode sent).validate crypto.toSmsgHashes env.network.getSecondsInDay
              (env.time - 25) sent.smsg sent.payload)) =
      some (true, SMSG_TIME_IN_FUTURE) ∧
    env.time - 25 ≤ env.time + (31 * env.network.getSecondsInDay : Nat) := by
  refine ⟨by decide +kernel, by decide⟩

end SampleCrypto

end Verge
