import Verge.Foundation.RecordFile
import Verge.Smsg.Exchange
import Verge.Smsg.SecureMessage

/-!
# The message store on disk

`Store`, `StoreUnscanned`, `Retrieve`, `Remove`, `Purge`, `CheckPurged`,
`BuildBucketSet`, `BuildPurgedSets` and the bucket part of `ThreadSecureMsg`, with the
files that they write.  The file of a bucket is a byte string without any framing; a
token knows where its message starts.  Files and the database never fail, and whether
there is room for a message is an input.
-/

namespace Verge

open Foundation SecureMessageCodes

structure FileToken extends SecMsgToken where
  offset : Nat
  deriving DecidableEq, Repr

namespace FileToken

def key (token : FileToken) : Int × List UInt8 := (token.timestamp, token.sample)

def insert (token : FileToken) : List FileToken → List FileToken
  | [] => [token]
  | t :: tokens =>
    if token.key = t.key then t :: tokens
    else if token.lt t.toSecMsgToken then token :: t :: tokens
    else t :: insert token tokens

def insertAll (tokens : List FileToken) : List FileToken :=
  tokens.foldl (fun set token => insert token set) []

end FileToken

def bucketTimeOf (timestamp : Int) : Int := timestamp - timestamp.tmod SMSG_BUCKET_LEN

structure StoreBucket where
  timeChanged : Int
  hash : UInt32
  nLockCount : Nat
  nLeastTTL : Nat
  nActive : Nat
  nLockPeerId : Int
  setTokens : List FileToken
  deriving DecidableEq, Repr

namespace StoreBucket

def new : StoreBucket := ⟨0, 0, 0, 0, 0, 0, []⟩

def hasKey (b : StoreBucket) (key : Int × List UInt8) : Bool :=
  b.setTokens.any fun token => token.key == key

variable (day : Nat) (now : Int) (b : StoreBucket)

theorem hasKey_iff (key : Int × List UInt8) :
    b.hasKey key = true ↔ key ∈ b.setTokens.map FileToken.key := by simp [hasKey]

def toSecMsgBucket (b : StoreBucket) : SecMsgBucket :=
  ⟨b.timeChanged, b.hash, b.nLockCount, b.nLeastTTL, b.nActive, b.nLockPeerId,
    b.setTokens.map FileToken.toSecMsgToken⟩

def addToken (b : StoreBucket) (token : FileToken) : StoreBucket :=
  { b with
    setTokens := token.insert b.setTokens
    nLeastTTL := SecMsgBucket.lessTTL b.nLeastTTL token.ttl }

def hashBucket (day : Nat) (now : Int) (b : StoreBucket) : StoreBucket :=
  let hashed := b.toSecMsgBucket.hashBucket day now
  { b with
    timeChanged := hashed.timeChanged
    hash := hashed.hash
    nLeastTTL := hashed.nLeastTTL
    nActive := hashed.nActive }

@[simp] theorem hashBucket_setTokens : (b.hashBucket day now).setTokens = b.setTokens := rfl

theorem hashBucket_hash : (b.hashBucket day now).hash =
    XXH32.digest 1 (((b.setTokens.map FileToken.toSecMsgToken).filter
      fun token => !token.expired day now).flatMap SecMsgToken.sample) :=
  b.toSecMsgBucket.hashBucket_hash day now

theorem hashBucket_hash_congr {b c : StoreBucket} (h : b.setTokens = c.setTokens) :
    (b.hashBucket day now).hash = (c.hashBucket day now).hash := by
  rw [hashBucket_hash, hashBucket_hash, h]

theorem hashBucket_hash_of_expired {t : Int}
    (h : ∀ token ∈ b.setTokens, token.expired day t = token.expired day now) :
    (b.hashBucket day t).hash = (b.hashBucket day now).hash := by
  rw [hashBucket_hash, hashBucket_hash]
  congr 2
  refine List.filter_congr fun token htoken => ?_
  obtain ⟨fileToken, hmem, rfl⟩ := List.mem_map.mp htoken
  rw [h fileToken hmem]

end StoreBucket

def readHeader (bytes : List UInt8) : Option SecureMessage :=
  if h : SMSG_HDR_LEN ≤ bytes.length then some (.ofData bytes h) else none

def readRecord (file : List UInt8) (offset : Nat) : Option (SecureMessage × List UInt8) :=
  match readHeader (file.drop offset) with
  | none => none
  | some smsg =>
    let payload := (file.drop (offset + SMSG_HDR_LEN)).take smsg.nPayload
    if payload.length = smsg.nPayload then some (smsg, payload) else none

/-- What lies in memory behind the one byte that `Remove` writes from. -/
structure Beyond where
  version : UInt8
  payload : Nat → UInt8

def Beyond.payloadBytes (beyond : Beyond) (zlen : Nat) : List UInt8 :=
  0 :: (List.range (zlen - 1)).map beyond.payload

/-- `Remove` on the bytes of a file, and whether it succeeds. -/
def removeRecord (file : List UInt8) (offset : Nat) (beyond : Beyond) : List UInt8 × Bool :=
  match readHeader (file.drop offset) with
  | none => (file, false)
  | some smsg =>
    let file := overwrite file (offset + 4) [0, beyond.version]
    if smsg.nPayload ≤ 8 then (file, false)
    else
      (overwrite file (offset + SMSG_HDR_LEN + 8) (beyond.payloadBytes (smsg.nPayload - 8)), true)

def SecureMessage.nDaysToLive (smsg : SecureMessage) : Nat :=
  if smsg.version.1 < 3 then 2 else smsg.nDaysRetention

/-- The days to live of a message that is loaded; version `0.0` marks a purged one. -/
def SecureMessage.nDaysToLiveLoaded (smsg : SecureMessage) : Nat :=
  if smsg.version = (0, 0) then 0 else smsg.nDaysToLive

/-- The token of a message; a payload of less than eight bytes has no sample. -/
def FileToken.ofMessage (smsg : SecureMessage) (payload : List UInt8) (offset ttl : Nat) :
    FileToken where
  timestamp := smsg.timestamp
  sample := if payload.length < 8 then List.replicate 8 0 else payload.take 8
  ttl := ttl
  nPayload := payload.length
  offset := offset

structure SecMsgPurged where
  timestamp : Int
  sample : List UInt8
  timepurged : Int
  deriving DecidableEq, Repr

/-- The buckets, the files and the purged messages in the database and in memory.  `stored`
is not in the source: it keeps the last message stored under each time stamp and sample. -/
structure SmsgStore where
  buckets : AssocMap Int StoreBucket
  files : AssocMap Int (List UInt8)
  wlFiles : AssocMap Int (List UInt8)
  purgedRecords : AssocMap MsgId SecMsgPurged
  setPurged : List SecMsgPurged
  setPurgedTimestamps : List Int
  nLastProcessedPurged : Int
  stored : AssocMap (Int × List UInt8) (SecureMessage × List UInt8)

namespace SmsgStore

def new : SmsgStore := ⟨∅, ∅, ∅, ∅, [], [], 0, ∅⟩

def bucketAt (s : SmsgStore) (time : Int) : StoreBucket := (s.buckets.lookup time).getD .new

def tokensAt (s : SmsgStore) (time : Int) : List FileToken := (s.bucketAt time).setTokens

def fileAt (s : SmsgStore) (time : Int) : List UInt8 := (s.files.lookup time).getD []

def setBucket (s : SmsgStore) (time : Int) (b : StoreBucket) : SmsgStore :=
  { s with buckets := s.buckets.insert time b }

def insertPurged (purged : SecMsgPurged) (set : List SecMsgPurged) : List SecMsgPurged :=
  if set.any fun p => p.timestamp == purged.timestamp && p.sample == purged.sample then set
  else purged :: set

variable (hashes : SmsgHashes) (day : Nat)

def checkPurged (s : SmsgStore) (smsg : SecureMessage) (payload : List UInt8) :
    SmsgStore × Bool :=
  if smsg.timestamp ∈ s.setPurgedTimestamps then (s, false)
  else
    match s.purgedRecords.lookup (hashes.getMsgID smsg payload) with
    | none => (s, false)
    | some purged =>
      ({ s with setPurged := insertPurged { purged with sample := payload.take 8 } s.setPurged },
        true)

/-- The checks that `Store` and `StoreUnscanned` start with. -/
def checkStorable (s : SmsgStore) (now : Int) (smsg : SecureMessage) (payload : List UInt8) :
    SmsgStore × SecureMessageCodes :=
  let (s, fPurged) := s.checkPurged hashes smsg payload
  if fPurged then (s, SMSG_PURGED_MSG)
  else if now + SMSG_TIME_LEEWAY < smsg.timestamp then (s, SMSG_GENERAL_ERROR)
  else if smsg.timestamp < now - SMSG_RETENTION then (s, SMSG_GENERAL_ERROR)
  else if smsg.isSmsgExpired day now then (s, SMSG_TIME_EXPIRED)
  else (s, SMSG_NO_ERROR)

def appendMessage (s : SmsgStore) (now : Int) (smsg : SecureMessage) (payload : List UInt8)
    (fHashBucket : Bool) : SmsgStore :=
  let time := bucketTimeOf smsg.timestamp
  let token := FileToken.ofMessage smsg payload (s.fileAt time).length smsg.nDaysToLive
  let bucket := (s.bucketAt time).addToken token
  { s with
    buckets := s.buckets.insert time (if fHashBucket then bucket.hashBucket day now else bucket)
    files := s.files.insert time (s.fileAt time ++ (smsg.data ++ payload))
    stored := s.stored.insert token.key (smsg, payload) }

def store (s : SmsgStore) (now : Int) (smsg : SecureMessage) (payload : List UInt8)
    (fSpace fHashBucket : Bool) : SmsgStore × SecureMessageCodes :=
  let (s, code) := s.checkStorable hashes day now smsg payload
  let time := bucketTimeOf smsg.timestamp
  let token := FileToken.ofMessage smsg payload 0 smsg.nDaysToLive
  if code ≠ SMSG_NO_ERROR then (s, code)
  else if (s.bucketAt time).hasKey token.key then
    (s.setBucket time (s.bucketAt time), SMSG_GENERAL_ERROR)
  else if !fSpace then (s.setBucket time (s.bucketAt time), SMSG_STORE_FULL)
  else (s.appendMessage day now smsg payload fHashBucket, SMSG_NO_ERROR)

def storeUnscanned (s : SmsgStore) (now : Int) (smsg : SecureMessage) (payload : List UInt8)
    (fSpace : Bool) : SmsgStore × SecureMessageCodes :=
  let (s, code) := s.checkStorable hashes day now smsg payload
  let time := bucketTimeOf smsg.timestamp
  if code ≠ SMSG_NO_ERROR then (s, code)
  else if !fSpace then (s, SMSG_STORE_FULL)
  else
    ({ s with
        wlFiles := s.wlFiles.insert time
          ((s.wlFiles.lookup time).getD [] ++ (smsg.data ++ payload)) },
      SMSG_NO_ERROR)

def retrieve (s : SmsgStore) (token : FileToken) : Option (SecureMessage × List UInt8) :=
  readRecord (s.fileAt (bucketTimeOf token.timestamp)) token.offset

def remove (s : SmsgStore) (token : FileToken) (beyond : Beyond) : SmsgStore × Bool :=
  let time := bucketTimeOf token.timestamp
  let (file, fRemoved) := removeRecord (s.fileAt time) token.offset beyond
  ({ s with files := s.files.insert time file }, fRemoved)

def msgTime (msgId : MsgId) : Int := readInt64 (msgId.take 8).reverse

def findPurged (s : SmsgStore) (msgId : MsgId) : Option FileToken :=
  (s.tokensAt (bucketTimeOf (msgTime msgId))).find? fun token =>
    token.timestamp == msgTime msgId &&
      (match s.retrieve token with
      | none => false
      | some (smsg, payload) => hashes.getMsgID smsg payload == msgId)

def clearTTL (key : Int × List UInt8) (token : FileToken) : FileToken :=
  if token.key = key then { token with ttl := 0 } else token

theorem key_clearTTL (k : Int × List UInt8) (t : FileToken) : (clearTTL k t).key = t.key := by
  unfold clearTTL
  split <;> rfl

def purgeToken (s : SmsgStore) (token : FileToken) (beyond : Beyond) : SmsgStore × Bool :=
  let time := bucketTimeOf token.timestamp
  let (s, fRemoved) := s.remove token beyond
  if fRemoved then
    (s.setBucket time
        { s.bucketAt time with setTokens := (s.tokensAt time).map (clearTTL token.key) }, true)
  else (s, false)

def markPurged (s : SmsgStore) (msgId : MsgId) (purged : SecMsgPurged) : SmsgStore :=
  { s with
    purgedRecords := s.purgedRecords.insert msgId purged
    setPurged := insertPurged purged s.setPurged
    setPurgedTimestamps := s.setPurgedTimestamps.insert purged.timestamp }

def purge (s : SmsgStore) (now : Int) (msgId : MsgId) (beyond : Beyond) : SmsgStore :=
  let time := bucketTimeOf (msgTime msgId)
  let s := s.setBucket time (s.bucketAt time)
  match s.findPurged hashes msgId with
  | none => s.markPurged msgId ⟨msgTime msgId, List.replicate 8 0, now⟩
  | some token =>
    let (s, fRemoved) := s.purgeToken token beyond
    s.markPurged msgId
      ⟨msgTime msgId, if fRemoved then token.sample else List.replicate 8 0, now⟩

def buildPurgedStep (now : Int) (s : SmsgStore) (msgId : MsgId) (purged : SecMsgPurged) :
    SmsgStore :=
  if purged.timepurged + 31 * day < now then
    { s with purgedRecords := s.purgedRecords.erase msgId }
  else
    { s with
      setPurged := insertPurged purged s.setPurged
      setPurgedTimestamps := s.setPurgedTimestamps.insert purged.timestamp }

def buildPurgedSets (s : SmsgStore) (now : Int) : SmsgStore :=
  let s := s.purgedRecords.entries.foldl (fun s e => buildPurgedStep day now s e.1 e.2)
    { s with setPurged := [], setPurgedTimestamps := [] }
  { s with nLastProcessedPurged := now }

def eraseBucket (s : SmsgStore) (time : Int) : SmsgStore :=
  { s with
    buckets := s.buckets.erase time
    files := s.files.erase time
    wlFiles := s.wlFiles.erase time }

/-- `nLockCount` ticks down, so that a lock expires if the peer never sends data. -/
def tickLock (b : StoreBucket) : StoreBucket :=
  if b.nLockCount = 0 then b
  else
    { b with
      nLockCount := b.nLockCount - 1
      nLockPeerId := if b.nLockCount = 1 then 0 else b.nLockPeerId }

/-- The pass of `ThreadSecureMsg` over one bucket. -/
def manageBucket (now : Int) (s : SmsgStore) (time : Int) : SmsgStore :=
  match s.buckets.lookup time with
  | none => s
  | some b =>
    let fOld := decide (time < now - SMSG_RETENTION)
    let fExpired := !fOld && decide (time + b.nLeastTTL * day < now)
    let b := if fExpired then b.hashBucket day now else b
    if fOld || fExpired && decide (b.nActive < 1) then s.eraseBucket time
    else s.setBucket time (tickLock b)

/-- A round of `ThreadSecureMsg`; `wall` is the clock without the adjustment by peers. -/
def manage (s : SmsgStore) (now wall : Int) : SmsgStore :=
  let s := s.buckets.keys.foldl (manageBucket day now) s
  if s.nLastProcessedPurged + day < now then s.buildPurgedSets day wall else s

/-- The loop of `BuildBucketSet` over the messages of a file, from the offset `ofs` on.
Every round reads a header, so as many rounds as there are bytes are enough. -/
def loadLoop : Nat → List UInt8 → Nat → StoreBucket → StoreBucket
  | 0, _, _, b => b
  | rounds + 1, bytes, ofs, b =>
    match readHeader bytes with
    | none => b
    | some smsg =>
      let ttl := smsg.nDaysToLiveLoaded
      let b := { b with nLeastTTL := SecMsgBucket.lessTTL b.nLeastTTL ttl }
      let rest := bytes.drop SMSG_HDR_LEN
      if smsg.nPayload < 8 then loadLoop rounds rest (ofs + SMSG_HDR_LEN) b
      else if rest.length < 8 then b
      else
        loadLoop rounds (rest.drop smsg.nPayload) (ofs + SMSG_HDR_LEN + smsg.nPayload)
          { b with
            setTokens := FileToken.insert
              ⟨⟨smsg.timestamp, rest.take 8, ttl, smsg.nPayload⟩, ofs⟩ b.setTokens }

def loadFile (now : Int) (s : SmsgStore) (fileTime : Int) (file : List UInt8) : SmsgStore :=
  if fileTime < now - SMSG_RETENTION then { s with files := s.files.erase fileTime }
  else
    s.setBucket fileTime
      ((loadLoop file.length file 0 (s.bucketAt fileTime)).hashBucket day now)

def dropWlFile (now : Int) (s : SmsgStore) (fileTime : Int) : SmsgStore :=
  if fileTime < now - SMSG_RETENTION then { s with wlFiles := s.wlFiles.erase fileTime } else s

def buildBucketSet (s : SmsgStore) (now : Int) : SmsgStore :=
  let s := s.files.entries.foldl (fun s e => loadFile day now s e.1 e.2) s
  s.wlFiles.keys.foldl (dropWlFile now) s

def reload (s : SmsgStore) (now : Int) : SmsgStore :=
  { s with buckets := ∅ }.buildBucketSet day now

/-- The tokens that `smsgShow` lists in its `smsgHave` for one bucket. -/
def shownTokens (s : SmsgStore) (now time : Int) : List FileToken :=
  if SmsgNode.validBucketTime now time then
    ((s.tokensAt time).filter fun token => !token.expired day now).take SMSG_MAX_HAVE_TOKENS
  else []

/-- The messages that `smsgWant` collects: a bunch ends at 500 messages or 96000 bytes. -/
def wantLoop (s : SmsgStore) (tokens : List FileToken) :
    List (Int × List UInt8) → Nat → Nat → List (SecureMessage × List UInt8)
  | [], _, _ => []
  | key :: keys, nBunch, size =>
    match tokens.find? fun token => token.key == key with
    | none => wantLoop s tokens keys nBunch size
    | some token =>
      match s.retrieve token with
      | none =>
        if 500 ≤ nBunch ∨ 96000 ≤ size then [] else wantLoop s tokens keys nBunch size
      | some message =>
        let size := size + SMSG_HDR_LEN + message.2.length
        if 500 ≤ nBunch + 1 ∨ 96000 ≤ size then [message]
        else message :: wantLoop s tokens keys (nBunch + 1) size

def sentMessages (s : SmsgStore) (now time : Int) (keys : List (Int × List UInt8)) :
    List (SecureMessage × List UInt8) :=
  if SMSG_MAX_WANT_TOKENS < keys.length then []
  else if SmsgNode.validBucketTime now time then wantLoop s (s.tokensAt time) keys 0 12
  else []

end SmsgStore

structure AcceptedMessage where
  smsg : SecureMessage
  payload : List UInt8
  nPayload_eq : smsg.nPayload = payload.length
  version_eq : smsg.version = (3, 0)
  lt_length : 32 < payload.length
  one_le_days : 1 ≤ smsg.nDaysRetention
  days_le : smsg.nDaysRetention ≤ 31

namespace AcceptedMessage

/-- `operator<` of the token looks at the time stamp and the sample. -/
def key (m : AcceptedMessage) : Int × List UInt8 := (m.smsg.timestamp, m.payload.take 8)

def ofValidate {c : CSMSG} {hashes : SmsgHashes} {day : Nat} {now : Int} {smsg : SecureMessage}
    {payload : List UInt8} (h : c.validate hashes day now smsg payload = SMSG_NO_ERROR) :
    AcceptedMessage where
  smsg := smsg
  payload := payload
  nPayload_eq := (CSMSG.of_validate_eq_noError h).nPayload_eq
  version_eq := (CSMSG.of_validate_eq_noError h).version_eq
  lt_length := (CSMSG.of_validate_eq_noError h).lt_length
  one_le_days := (CSMSG.of_validate_eq_noError h).one_le_days
  days_le := (CSMSG.of_validate_eq_noError h).days_le

end AcceptedMessage

/-- What happens to a store: its operations with the clock they read, and the two
commands of peers that read it. -/
inductive StoreEvent where
  | store (m : AcceptedMessage) (now : Int) (fSpace fHashBucket : Bool)
  | storeUnscanned (m : AcceptedMessage) (now : Int) (fSpace : Bool)
  | purge (msgId : MsgId) (now : Int) (beyond : Beyond)
  | manage (now wall : Int)
  | buildPurgedSets (now : Int)
  | smsgShow (time now : Int)
  | smsgWant (time now : Int) (keys : List (Int × List UInt8))

def SmsgStore.step (hashes : SmsgHashes) (day : Nat) (s : SmsgStore) : StoreEvent → SmsgStore
  | .store m now fSpace fHashBucket =>
    (s.store hashes day now m.smsg m.payload fSpace fHashBucket).1
  | .storeUnscanned m now fSpace => (s.storeUnscanned hashes day now m.smsg m.payload fSpace).1
  | .purge msgId now beyond => s.purge hashes now msgId beyond
  | .manage now wall => s.manage day now wall
  | .buildPurgedSets now => s.buildPurgedSets day now
  | .smsgShow _ _ | .smsgWant _ _ _ => s

end Verge
