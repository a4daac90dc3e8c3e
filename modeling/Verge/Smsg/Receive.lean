import Verge.Smsg.Crypt
import Verge.Smsg.Purged

/-!
# Receiving bunches of messages

`Receive` on the bytes of `smsgMsg`, with the tokens of messages that were rejected.
A token is the time stamp and the first eight bytes of the payload, which every relay
can copy onto another message: whoever gets a message with the token of `m` rejected,
or stored, first keeps `m` out.  Penalties for peers, `ScanMessage` and its inbox are
left out; whether there is room for a message is an input.
-/

namespace Verge

open Foundation DiskRecord SecureMessageCodes

def SMSG_MAX_RECENT_REJECTED_TOKENS : Nat := 8192

structure SmsgReceiver where
  store : SmsgStore
  setRecentRejected : List (Int × List UInt8)
  vRecentRejected : List (Int × List UInt8)

/-- A call of `Receive`; the room for a message goes by the number of messages that come
after it in the bunch. -/
structure ReceiveCall where
  peerId : Int
  peer : SecMsgNode
  now : Int
  funding : CSMSG
  fSpace : Nat → Bool
  vchData : List UInt8

namespace ReceiveCall

def nBunch (call : ReceiveCall) : Nat := ofLittleEndian (call.vchData.take 4)

def bktTime (call : ReceiveCall) : Int := readInt64 ((call.vchData.drop 4).take 8)

def messages (call : ReceiveCall) : List UInt8 := call.vchData.drop 12

end ReceiveCall

/-- How a round of the loop of `Receive` ends: with the sample of the message and the
bytes after it, or with a bunch that is not read any further. -/
inductive ReceiveRound where
  | next (sample rest : List UInt8)
  | unrequested
  | malformed
  deriving DecidableEq, Repr

namespace SmsgReceiver

def new : SmsgReceiver := ⟨.new, [], []⟩

def trimRejected (set : List (Int × List UInt8)) :
    List (Int × List UInt8) → List (Int × List UInt8) × List (Int × List UInt8)
  | [] => (set, [])
  | key :: keys =>
    if SMSG_MAX_RECENT_REJECTED_TOKENS < (key :: keys).length then
      trimRejected (set.erase key) keys
    else (set, key :: keys)

def recordRecentRejectedToken (s : SmsgReceiver) (key : Int × List UInt8) : SmsgReceiver :=
  if key ∈ s.setRecentRejected then s
  else
    let (set, keys) := trimRejected (key :: s.setRecentRejected) (s.vRecentRejected ++ [key])
    { s with setRecentRejected := set, vRecentRejected := keys }

variable (hashes : SmsgHashes) (day : Nat) (call : ReceiveCall)

/-- `Validate` and `Store` for a message that is not known. -/
def receiveUnknown (s : SmsgReceiver) (left : Nat) (smsg : SecureMessage) (payload : List UInt8) :
    SmsgReceiver × Bool :=
  let rv := call.funding.validate hashes day call.now smsg payload
  if rv = SMSG_NO_ERROR then
    let (store, code) := s.store.store hashes day call.now smsg payload (call.fSpace left) false
    ({ s with store := store }, code = SMSG_NO_ERROR)
  else if rv = SMSG_FUND_NOT_READY ∧ smsg.isPaidVersion = true then (s, true)
  else (s.recordRecentRejectedToken (smsg.timestamp, payload.take 8), true)

def receiveMessage (left : Nat) (s : SmsgReceiver) (bytes : List UInt8) :
    SmsgReceiver × ReceiveRound :=
  match readHeader bytes with
  | none => (s, .malformed)
  | some smsg =>
    let rest := bytes.drop SMSG_HDR_LEN
    let payload := rest.take smsg.nPayload
    let key := (smsg.timestamp, payload.take 8)
    let next := ReceiveRound.next (payload.take 8) (rest.drop smsg.nPayload)
    if rest.length < smsg.nPayload then (s, .malformed)
    else if smsg.nPayload < 8 then (s, .malformed)
    else if !(call.peer.wantedIn call.bktTime).contains (payload.take 8) then (s, .unrequested)
    else if bucketTimeOf smsg.timestamp ≠ call.bktTime then
      (s.recordRecentRejectedToken key, next)
    else if (s.store.bucketAt call.bktTime).hasKey key ∨ key ∈ s.setRecentRejected then (s, next)
    else
      let (s, fKept) := s.receiveUnknown hashes day call left smsg payload
      (s, if fKept then next else .malformed)

/-- The loop of `Receive` with the number of messages that are left: the samples it saw,
and how it ended if it did not get to the end. -/
def receiveLoop : Nat → SmsgReceiver → List UInt8 → List (List UInt8) →
    SmsgReceiver × List (List UInt8) × Option ReceiveRound
  | 0, s, _, samples => (s, samples, none)
  | left + 1, s, bytes, samples =>
    match s.receiveMessage hashes day call left bytes with
    | (s, .next sample rest) => receiveLoop left s rest (samples ++ [sample])
    | (s, round) => (s, samples, some round)

def ReadsBunch (call : ReceiveCall) : Prop :=
  12 ≤ call.vchData.length ∧ SmsgNode.validBucketTime call.now call.bktTime = true ∧
    (call.peer.wantedIn call.bktTime).isEmpty = false ∧ 0 < call.nBunch ∧ call.nBunch ≤ 500

instance : Decidable (ReadsBunch call) := inferInstanceAs (Decidable (_ ∧ _))

/-- The end of `Receive`: the lock of the bucket and the tokens that were wanted. -/
def finishReceive (s : SmsgReceiver) (peer : SecMsgNode) (samples : List (List UInt8))
    (fMalformedBunch : Bool) : SmsgReceiver × SecMsgNode × SecureMessageCodes :=
  match s.store.buckets.lookup call.bktTime with
  | none => (s, peer, SMSG_GENERAL_ERROR)
  | some b =>
    if 0 < b.nLockCount ∧ b.nLockPeerId ≠ call.peerId then
      (s, peer.recordSmsgInventoryMismatch call.now, SMSG_GENERAL_ERROR)
    else
      let b := if fMalformedBunch then b else { b with nLockCount := 0, nLockPeerId := 0 }
      let s := { s with store := s.store.setBucket call.bktTime (b.hashBucket day call.now) }
      if fMalformedBunch then (s, peer, SMSG_GENERAL_ERROR)
      else (s, peer.consumeSmsgWantedTokens call.bktTime samples, SMSG_NO_ERROR)

def receive (s : SmsgReceiver) : SmsgReceiver × SecMsgNode × SecureMessageCodes :=
  if call.vchData.length < 12 then (s, call.peer, SMSG_GENERAL_ERROR)
  else if !SmsgNode.validBucketTime call.now call.bktTime then (s, call.peer, SMSG_GENERAL_ERROR)
  else if (call.peer.wantedIn call.bktTime).isEmpty then
    (s, call.peer.recordSmsgInventoryMismatch call.now, SMSG_GENERAL_ERROR)
  else if call.nBunch = 0 ∨ 500 < call.nBunch then
    match s.store.buckets.lookup call.bktTime with
    | none => (s, call.peer, SMSG_GENERAL_ERROR)
    | some b =>
      ({ s with store := s.store.setBucket call.bktTime { b with nLockCount := 0 } }, call.peer,
        SMSG_GENERAL_ERROR)
  else
    let (s, samples, ending) := receiveLoop hashes day call call.nBunch s call.messages []
    let peer :=
      if ending = some .unrequested then call.peer.recordSmsgInventoryMismatch call.now
      else call.peer
    s.finishReceive day call peer samples ending.isSome

end SmsgReceiver

inductive ReceiverEvent where
  | store (e : StoreEvent)
  | receive (call : ReceiveCall)

namespace SmsgReceiver

variable (hashes : SmsgHashes) (day : Nat)

def step (s : SmsgReceiver) : ReceiverEvent → SmsgReceiver
  | .store e => { s with store := s.store.step hashes day e }
  | .receive call => (s.receive hashes day call).1

def Reached (s : SmsgReceiver) : Prop :=
  ∃ history : List ReceiverEvent, history.foldl (step hashes day) new = s

/-- The loop of `Receive` gets to some bytes, in some state and with some messages left. -/
inductive Gets (call : ReceiveCall) : Nat → SmsgReceiver → List UInt8 →
    Nat → SmsgReceiver → List UInt8 → Prop
  | here {left : Nat} {s : SmsgReceiver} {bytes : List UInt8} :
      Gets call (left + 1) s bytes left s bytes
  | later {left left' : Nat} {s s₁ s' : SmsgReceiver} {bytes bytes' sample rest : List UInt8}
      (hround : s.receiveMessage hashes day call left bytes = (s₁, .next sample rest))
      (hrest : Gets call left s₁ rest left' s' bytes') :
      Gets call (left + 1) s bytes left' s' bytes'

end SmsgReceiver

/-! ## What stays in the store -/

namespace SmsgStore

variable {s s' : SmsgStore} {hashes : SmsgHashes} {day : Nat} {m : AcceptedMessage}

structure Sound (s : SmsgStore) : Prop where
  represents : ∃ disk, s.Represents disk
  marked : s.Marked

theorem sound_new : new.Sound := ⟨⟨_, represents_new⟩, marked_new⟩

theorem Sound.step (h : s.Sound) (e : StoreEvent) : (s.step hashes day e).Sound := by
  obtain ⟨disk, hdisk⟩ := h.represents
  obtain ⟨disk', hdisk', -⟩ := hdisk.step hashes day e
  exact ⟨⟨disk', hdisk'⟩, h.marked.step hashes day e⟩

structure Keeps (s s' : SmsgStore) : Prop where
  sound : s'.Sound
  holds : ∀ m, s.Holds m → s'.Holds m

theorem Keeps.refl (h : s.Sound) : s.Keeps s := ⟨h, fun _ h => h⟩

theorem Keeps.trans {s₁ s₂ s₃ : SmsgStore} (h : s₁.Keeps s₂) (h' : s₂.Keeps s₃) : s₁.Keeps s₃ :=
  ⟨h'.sound, fun m hm => h'.holds m (h.holds m hm)⟩

theorem Keeps.setBucket (h : s.Sound) {time : Int} {b : StoreBucket}
    (hb : b.setTokens = s.tokensAt time) : s.Keeps (s.setBucket time b) := by
  have hsame := sameRecords_setBucket b hb
  obtain ⟨disk, hdisk⟩ := h.represents
  refine ⟨⟨⟨disk, hdisk.same hsame⟩, h.marked.congr rfl rfl⟩, fun m hm => ?_⟩
  obtain ⟨token, hmem, hread⟩ := hm
  exact ⟨token, by rwa [hsame.tokens], hread⟩

theorem Represents.holds_iff {disk : Int → List DiskRecord} (h : s.Represents disk) :
    s.Holds m ↔ ∃ r ∈ disk (bucketTimeOf m.smsg.timestamp),
      (r.smsg, r.payload) = (m.smsg, m.payload) := by
  have hlayout := h (bucketTimeOf m.smsg.timestamp)
  constructor
  case mp =>
    rintro ⟨t, ht, hread⟩
    rw [hlayout.tokens_eq, mem_tokens hlayout.nodup] at ht
    obtain ⟨pos, r, hplaced, rfl⟩ := ht
    rw [hlayout.retrieve_token hplaced] at hread
    exact ⟨r, mem_of_placed hplaced, Option.some.inj hread⟩
  case mpr =>
    rintro ⟨r, hr, heq⟩
    obtain ⟨pos, hplaced⟩ := exists_place r hr
    refine ⟨token (pos, r), ?_, ?_⟩
    · rw [hlayout.tokens_eq, mem_tokens hlayout.nodup]
      exact ⟨pos, r, hplaced, rfl⟩
    · rw [hlayout.retrieve_token hplaced, heq]

theorem Holds.store (h : s.Holds m) (hs : s.Sound) (m' : AcceptedMessage) (now : Int)
    (fSpace fHashBucket : Bool) :
    (s.store hashes day now m'.smsg m'.payload fSpace fHashBucket).1.Holds m := by
  obtain ⟨disk, hdisk⟩ := hs.represents
  obtain ⟨r, hr, heq⟩ := hdisk.holds_iff.mp h
  obtain ⟨-, hdisk'⟩ | ⟨-, -, hdisk'⟩ := hdisk.store hashes day now m' fSpace fHashBucket
  · exact hdisk'.holds_iff.mpr ⟨r, hr, heq⟩
  · refine hdisk'.holds_iff.mpr ⟨r, ?_, heq⟩
    rw [Function.update_apply]
    split
    case isTrue htime =>
      rw [htime] at hr
      exact List.mem_append_left _ hr
    case isFalse => exact hr

theorem Sound.holds_of_store (hs : s.Sound) (m : AcceptedMessage) {now : Int}
    {fSpace fHashBucket : Bool}
    (h : (s.store hashes day now m.smsg m.payload fSpace fHashBucket).2 = SMSG_NO_ERROR) :
    (s.store hashes day now m.smsg m.payload fSpace fHashBucket).1.Holds m := by
  obtain ⟨disk, hdisk⟩ := hs.represents
  obtain ⟨hcode, -⟩ | ⟨-, -, hdisk'⟩ := hdisk.store hashes day now m fSpace fHashBucket
  · exact absurd h hcode
  · refine hdisk'.holds_iff.mpr ⟨ofAccepted m, ?_, rfl⟩
    rw [Function.update_self]
    exact List.mem_append_right _ (List.mem_singleton_self _)

end SmsgStore

/-! ## The loop -/

namespace SmsgReceiver

variable (hashes : SmsgHashes) (day : Nat) (call : ReceiveCall) {s : SmsgReceiver}
  {m : AcceptedMessage}

@[simp] theorem recordRecentRejectedToken_store (s : SmsgReceiver) (key : Int × List UInt8) :
    (s.recordRecentRejectedToken key).store = s.store := by
  unfold recordRecentRejectedToken
  split <;> rfl

theorem receiveUnknown_store (s : SmsgReceiver) (left : Nat) (smsg : SecureMessage)
    (payload : List UInt8) :
    (s.receiveUnknown hashes day call left smsg payload).1.store = s.store ∨
      ∃ m : AcceptedMessage, (s.receiveUnknown hashes day call left smsg payload).1.store =
        (s.store.store hashes day call.now m.smsg m.payload (call.fSpace left) false).1 := by
  simp only [receiveUnknown]
  split
  case isTrue hvalid => exact .inr ⟨AcceptedMessage.ofValidate hvalid, rfl⟩
  case isFalse =>
    split
    · exact .inl rfl
    · exact .inl (recordRecentRejectedToken_store _ _)

theorem receiveMessage_store (left : Nat) (s : SmsgReceiver) (bytes : List UInt8) :
    (s.receiveMessage hashes day call left bytes).1.store = s.store ∨
      ∃ m : AcceptedMessage, (s.receiveMessage hashes day call left bytes).1.store =
        (s.store.store hashes day call.now m.smsg m.payload (call.fSpace left) false).1 := by
  unfold receiveMessage
  split
  case h_1 => exact .inl rfl
  case h_2 smsg hread =>
    simp only
    by_cases hoverrun : (bytes.drop SMSG_HDR_LEN).length < smsg.nPayload
    · exact .inl (by rw [if_pos hoverrun])
    rw [if_neg hoverrun]
    split
    · exact .inl rfl
    · split
      · exact .inl rfl
      · split
        · exact .inl (recordRecentRejectedToken_store _ _)
        · split
          · exact .inl rfl
          · exact receiveUnknown_store hashes day call s left smsg _

theorem exists_receive_eq (hread : ReadsBunch call) (s : SmsgReceiver) :
    ∃ peer, s.receive hashes day call =
      (receiveLoop hashes day call call.nBunch s call.messages []).1.finishReceive day call peer
        (receiveLoop hashes day call call.nBunch s call.messages []).2.1
        (receiveLoop hashes day call call.nBunch s call.messages []).2.2.isSome := by
  obtain ⟨hlength, htime, hwanted, hpos, hle⟩ := hread
  rw [receive, if_neg (by omega), if_neg (by simp [htime]), if_neg (by simp [hwanted]),
    if_neg (by omega)]
  exact ⟨_, rfl⟩

section

variable (hs : s.store.Sound) (left : Nat) (bytes : List UInt8)

include hs

theorem receiveMessage_keeps :
    s.store.Keeps (s.receiveMessage hashes day call left bytes).1.store := by
  obtain heq | ⟨m, heq⟩ := receiveMessage_store hashes day call left s bytes
  · rw [heq]
    exact .refl hs
  · rw [heq]
    exact ⟨hs.step (.store m call.now (call.fSpace left) false),
      fun _ h => h.store hs m call.now (call.fSpace left) false⟩

theorem receiveLoop_keeps (samples : List (List UInt8)) :
    s.store.Keeps (receiveLoop hashes day call left s bytes samples).1.store := by
  induction left generalizing s bytes samples with
  | zero => exact .refl hs
  | succ left ih =>
    have hround := receiveMessage_keeps hashes day call hs left bytes
    unfold receiveLoop
    split
    case h_1 s₁ sample rest heq =>
      rw [heq] at hround
      exact hround.trans (ih hround.sound rest (samples ++ [sample]))
    case h_2 s₁ round heq =>
      rw [heq] at hround
      exact hround

theorem finishReceive_keeps (peer : SecMsgNode) (samples : List (List UInt8))
    (fMalformedBunch : Bool) :
    s.store.Keeps (s.finishReceive day call peer samples fMalformedBunch).1.store := by
  unfold finishReceive
  split
  case h_1 => exact .refl hs
  case h_2 b hlookup =>
    have hhashed : ∀ c : StoreBucket, c.setTokens = b.setTokens → s.store.Keeps
        (s.store.setBucket call.bktTime (c.hashBucket day call.now)) := by
      intro c hc
      apply SmsgStore.Keeps.setBucket hs
      simp [SmsgStore.tokensAt, SmsgStore.bucketAt, hlookup, hc]
    split
    · exact .refl hs
    · cases fMalformedBunch with
      | true => exact hhashed b rfl
      | false => exact hhashed _ rfl

theorem receive_keeps : s.store.Keeps (s.receive hashes day call).1.store := by
  unfold receive
  split
  · exact .refl hs
  split
  · exact .refl hs
  split
  · exact .refl hs
  split
  · split
    case h_1 => exact .refl hs
    case h_2 b hlookup =>
      apply SmsgStore.Keeps.setBucket hs
      simp [SmsgStore.tokensAt, SmsgStore.bucketAt, hlookup]
  · have hloop := receiveLoop_keeps hashes day call hs call.nBunch call.messages []
    exact hloop.trans (finishReceive_keeps day call hloop.sound _ _ _)

end

theorem Reached.sound (h : s.Reached hashes day) : s.store.Sound := by
  obtain ⟨history, rfl⟩ := h
  have hrun : ∀ (events : List ReceiverEvent) (s : SmsgReceiver), s.store.Sound →
      (events.foldl (step hashes day) s).store.Sound := by
    intro events
    induction events with
    | nil => exact fun s hs => hs
    | cons e events ih =>
      intro s hs
      apply ih
      cases e with
      | store e => exact hs.step e
      | receive call => exact (receive_keeps hashes day call hs).sound
  exact hrun history new SmsgStore.sound_new

variable {hashes day call} in
theorem Gets.keeps {left left' : Nat} {s' : SmsgReceiver} {bytes bytes' : List UInt8}
    (h : Gets hashes day call left s bytes left' s' bytes') (hs : s.store.Sound) :
    s.store.Keeps s'.store ∧ ∀ samples,
      (s'.receiveMessage hashes day call left' bytes').1.store.Keeps
        (receiveLoop hashes day call left s bytes samples).1.store := by
  induction h with
  | @here left s bytes =>
    refine ⟨.refl hs, fun samples => ?_⟩
    have hround := receiveMessage_keeps hashes day call hs left bytes
    simp only [receiveLoop]
    split
    case h_1 s₁ sample rest heq =>
      rw [heq] at hround ⊢
      exact receiveLoop_keeps hashes day call hround.sound left rest (samples ++ [sample])
    case h_2 s₁ round heq =>
      rw [heq] at hround ⊢
      exact .refl hround.sound
  | @later left left' s s₁ s' bytes bytes' sample rest heq hrest ih =>
    have hround := receiveMessage_keeps hashes day call hs left bytes
    rw [heq] at hround
    obtain ⟨hkeeps, hloop⟩ := ih hround.sound
    refine ⟨hround.trans hkeeps, fun samples => ?_⟩
    simp only [receiveLoop, heq]
    exact hloop (samples ++ [sample])

/-! ## One message -/

/-- The message is of the bucket that was asked for, and its token was not rejected and is
not taken. -/
def Admits (s : SmsgReceiver) (call : ReceiveCall) (smsg : SecureMessage)
    (payload : List UInt8) : Prop :=
  bucketTimeOf smsg.timestamp = call.bktTime ∧
    (smsg.timestamp, payload.take 8) ∉ s.setRecentRejected ∧
    (smsg.timestamp, payload.take 8) ∉ (s.store.tokensAt call.bktTime).map FileToken.key

instance (s : SmsgReceiver) (call : ReceiveCall) (smsg : SecureMessage) (payload : List UInt8) :
    Decidable (s.Admits call smsg payload) := inferInstanceAs (Decidable (_ ∧ _))

theorem receiveMessage_bytes (m : AcceptedMessage) (rest : List UInt8) (left : Nat)
    (s : SmsgReceiver) (hwanted : m.payload.take 8 ∈ call.peer.wantedIn call.bktTime) :
    (s.Admits call m.smsg m.payload →
      (s.receiveMessage hashes day call left (m.smsg.data ++ (m.payload ++ rest))).1 =
        (s.receiveUnknown hashes day call left m.smsg m.payload).1) ∧
    (¬ s.Admits call m.smsg m.payload →
      (s.receiveMessage hashes day call left (m.smsg.data ++ (m.payload ++ rest))).1.store =
        s.store) := by
  have hlt := m.lt_length
  have hdrop : (m.smsg.data ++ (m.payload ++ rest)).drop SMSG_HDR_LEN = m.payload ++ rest :=
    List.drop_left' m.smsg.length_data
  have hpayload : (m.payload ++ rest).take m.smsg.nPayload = m.payload := by
    rw [m.nPayload_eq, List.take_left]
  have hoverrun : ¬ (m.payload ++ rest).length < m.smsg.nPayload := by
    rw [m.nPayload_eq, List.length_append]
    omega
  have hshort : ¬ m.smsg.nPayload < 8 := by
    rw [m.nPayload_eq]
    omega
  have hcontains : (call.peer.wantedIn call.bktTime).contains (m.payload.take 8) = true := by
    simpa using hwanted
  simp only [receiveMessage, readHeader_data, hdrop, hpayload, if_neg hoverrun, if_neg hshort,
    hcontains, Bool.not_true, Bool.false_eq_true, if_false]
  have hknown := (s.store.bucketAt call.bktTime).hasKey_iff (m.smsg.timestamp, m.payload.take 8)
  split
  case isTrue hforeign =>
    exact ⟨fun h => absurd h.1 hforeign, fun _ => recordRecentRejectedToken_store _ _⟩
  case isFalse hforeign =>
    split
    case isTrue hskip =>
      refine ⟨fun h => ?_, fun _ => rfl⟩
      obtain htaken | hrejected := hskip
      · exact absurd (hknown.mp htaken) h.2.2
      · exact absurd hrejected h.2.1
    case isFalse hskip =>
      refine ⟨fun _ => rfl, fun h => absurd ⟨not_not.mp hforeign, ?_, ?_⟩ h⟩
      · exact fun hrejected => hskip (.inr hrejected)
      · exact fun htaken => hskip (.inl (hknown.mpr htaken))

theorem store_of_validate (network : SmsgNetwork) (hs : s.store.Sound) {smsg : SecureMessage}
    {payload : List UInt8}
    (hvalid : call.funding.validate hashes network.getSecondsInDay call.now smsg payload =
      SMSG_NO_ERROR)
    (hnew : (AcceptedMessage.ofValidate hvalid).key ∉
      (s.store.tokensAt (bucketTimeOf smsg.timestamp)).map FileToken.key) (fHashBucket : Bool) :
    (s.store.store hashes network.getSecondsInDay call.now smsg payload true fHashBucket).2 =
      SMSG_NO_ERROR := by
  have haccepted := CSMSG.of_validate_eq_noError hvalid
  have hdays := haccepted.days_le
  have hone := haccepted.one_le_days
  have hday : network.getSecondsInDay ≤ 86400 := by cases network <;> decide
  have hpos := network.getSecondsInDay_pos
  have hretention : call.now - SMSG_RETENTION ≤ smsg.timestamp := by
    have hfresh := haccepted.not_expired
    have hpaid := SecureMessage.isPaidVersion_of_version haccepted.version_eq
    have hseconds : 0 < smsg.nDaysRetention * network.getSecondsInDay := Nat.mul_pos hone hpos
    have hmost : smsg.nDaysRetention * network.getSecondsInDay ≤ 31 * 86400 :=
      Nat.mul_le_mul hdays hday
    simp only [SecureMessage.isSmsgExpired, SecureMessage.getSmsgTTLSeconds, hpaid, if_true,
      hseconds, decide_true, Bool.true_and, decide_eq_false_iff_not] at hfresh
    simp only [SMSG_RETENTION]
    omega
  exact (SmsgStore.store_eq_noError_iff hashes _ s.store call.now
    (AcceptedMessage.ofValidate hvalid) true fHashBucket).mpr
    ⟨hs.marked.checkPurged hashes smsg payload, haccepted.timestamp_le, hretention,
      haccepted.not_expired, hnew, rfl⟩

/-- A requested message that `Validate` accepts is stored exactly if it was there before, or
it is of the bucket asked for and its token was neither rejected nor taken. -/
theorem receive_holds_iff (network : SmsgNetwork) {mid : SmsgReceiver} {left : Nat}
    {smsg : SecureMessage} {payload rest : List UInt8}
    (hs : s.Reached hashes network.getSecondsInDay) (hread : ReadsBunch call)
    (hgets : Gets hashes network.getSecondsInDay call call.nBunch s call.messages left mid
      (smsg.data ++ (payload ++ rest)))
    (hvalid : call.funding.validate hashes network.getSecondsInDay call.now smsg payload =
      SMSG_NO_ERROR)
    (hwanted : payload.take 8 ∈ call.peer.wantedIn call.bktTime)
    (hspace : call.fSpace left = true) :
    ((mid.receiveMessage hashes network.getSecondsInDay call left
          (smsg.data ++ (payload ++ rest))).1.store.Holds (.ofValidate hvalid) ↔
        mid.store.Holds (.ofValidate hvalid) ∨ mid.Admits call smsg payload) ∧
      ((mid.receiveMessage hashes network.getSecondsInDay call left
          (smsg.data ++ (payload ++ rest))).1.store.Holds (.ofValidate hvalid) →
        (s.receive hashes network.getSecondsInDay call).1.store.Holds (.ofValidate hvalid)) := by
  have hsound := hs.sound
  obtain ⟨hmid, hloop⟩ := hgets.keeps hsound
  have hround := receiveMessage_keeps hashes network.getSecondsInDay call hmid.sound left
    (smsg.data ++ (payload ++ rest))
  obtain ⟨hadmitted, hignored⟩ := receiveMessage_bytes hashes network.getSecondsInDay call
    (AcceptedMessage.ofValidate hvalid) rest left mid hwanted
  refine ⟨⟨fun h => ?_, ?_⟩, fun h => ?_⟩
  · by_cases hadmits : mid.Admits call smsg payload
    · exact .inr hadmits
    · exact .inl (hignored hadmits ▸ h)
  · rintro (hheld | hadmits)
    · exact hround.holds _ hheld
    · have hnew : (AcceptedMessage.ofValidate hvalid).key ∉
          (mid.store.tokensAt (bucketTimeOf smsg.timestamp)).map FileToken.key := by
        rw [hadmits.1]
        exact hadmits.2.2
      have hstored := hmid.sound.holds_of_store (.ofValidate hvalid)
        (store_of_validate hashes call network hmid.sound hvalid hnew false)
      have hunknown : (mid.receiveUnknown hashes network.getSecondsInDay call left smsg
          payload).1.store = (mid.store.store hashes network.getSecondsInDay call.now smsg
            payload true false).1 := by
        simp only [receiveUnknown, if_pos hvalid, hspace]
      have heq := (congrArg SmsgReceiver.store (hadmitted hadmits)).trans hunknown
      exact Eq.mpr (congrArg (SmsgStore.Holds · (.ofValidate hvalid)) heq) hstored
  · obtain ⟨peer, heq⟩ := exists_receive_eq hashes network.getSecondsInDay call hread s
    have hfinal := (hloop []).holds _ h
    rw [heq]
    exact (finishReceive_keeps _ call (hloop []).sound peer _ _).holds _ hfinal

end SmsgReceiver

/-! ## A rejected copy of a message -/

namespace SampleStore

def funded : CSMSG :=
  { CSMSG.empty with
    mapPaidFundingByMsgId := CSMSG.empty.mapPaidFundingByMsgId.insert messageId
      ⟨(getFundingTxid message.payload).getD 0, 0, 1, 0⟩ }

def bunchOf (peerId : Int) (smsg : SecureMessage) (payload : List UInt8) : ReceiveCall where
  peerId := peerId
  peer := { SecMsgNode.new with wantedTokens := [(7200, [message.payload.take 8])] }
  now := 7200
  funding := funded
  fSpace := fun _ => true
  vchData := writeLE 4 1 ++ (writeInt64 7200 ++ (smsg.data ++ payload))

def received : ReceiveCall := bunchOf 2 message.smsg message.payload

theorem validate_message : received.funding.validate hashes SmsgNetwork.main.getSecondsInDay
    received.now message.smsg message.payload = SMSG_NO_ERROR := by
  decide +kernel

open SmsgReceiver in
theorem receive_holds_message :
    (new.receive hashes SmsgNetwork.main.getSecondsInDay received).1.store.Holds
      (.ofValidate validate_message) := by
  have hbunch : received.nBunch = 0 + 1 := by decide +kernel
  have hmessages : received.messages = message.smsg.data ++ (message.payload ++ []) := by
    decide +kernel
  have hgets : Gets hashes SmsgNetwork.main.getSecondsInDay received received.nBunch new
      received.messages 0 new (message.smsg.data ++ (message.payload ++ [])) := by
    rw [hbunch, hmessages]
    exact .here
  have hmain := receive_holds_iff (s := new) hashes received .main ⟨[], rfl⟩ (by decide +kernel)
    hgets validate_message (by decide +kernel) rfl
  exact hmain.2 (hmain.1.mpr (.inr (by decide +kernel)))

def forged : SecureMessage := { header with hash := [1, 0, 0, 0], length_hash := rfl }

def afterForged : SmsgReceiver :=
  SmsgReceiver.new.step hashes SmsgNetwork.main.getSecondsInDay
    (.receive (bunchOf 1 forged message.payload))

/-- A peer sends the message with a wrong checksum.  When another peer then sends the
message itself it is skipped as rejected. -/
theorem forged_shadows_message :
    received.funding.validate hashes SmsgNetwork.main.getSecondsInDay received.now
        message.smsg message.payload = SMSG_NO_ERROR ∧
      message.payload.take 8 ∈ received.peer.wantedIn received.bktTime ∧
      received.fSpace 0 = true ∧
      SmsgReceiver.ReadsBunch received ∧ received.nBunch = 1 ∧
      received.messages = message.smsg.data ++ message.payload ∧
      ¬ (afterForged.receive hashes SmsgNetwork.main.getSecondsInDay received).1.store.Holds
        message := by
  refine ⟨validate_message, by decide +kernel, rfl, by decide +kernel, by decide +kernel,
    by decide +kernel, ?_⟩
  rintro ⟨token, hmem, -⟩
  have hempty : (afterForged.receive hashes SmsgNetwork.main.getSecondsInDay
      received).1.store.tokensAt (bucketTimeOf message.smsg.timestamp) = [] := by
    decide +kernel
  rw [hempty] at hmem
  exact absurd hmem List.not_mem_nil

end SampleStore

end Verge
