import Mathlib.Data.List.Dedup
import Verge.Smsg.Bucket

/-!
# The exchange of secure messages between two nodes

`CSMSG::ReceiveData`, `CSMSG::SendData`, `CSMSG::Receive`, `CSMSG::Store` and the
bucket part of the management thread, for two nodes that are connected to each
other.  Chain synchronisation is over, the module stays enabled, no message is
purged and the files are readable.  The clocks agree, so every function is given
the same `now`.  A map of buckets is not kept in the order of the times, so an
inventory here is the source's up to its order.
-/

namespace Verge

open Foundation

structure InvEntry where
  time : Int
  ncontent : Nat
  hash : UInt32
  deriving DecidableEq, Repr

/-- The commands of the protocol with what they carry; `smsgHave` and `smsgWant`
carry the time stamp and the sample of each token. -/
inductive SmsgCommand where
  | smsgPing
  | smsgPong
  | smsgInv (entries : List InvEntry)
  | smsgShow (times : List Int)
  | smsgHave (time : Int) (tokens : List (Int × List UInt8))
  | smsgWant (time : Int) (tokens : List (Int × List UInt8))
  | smsgMsg (time : Int) (messages : List SecMsgToken)
  | smsgMatch (time : Int)
  | smsgIgnore (time : Int)
  deriving DecidableEq, Repr

namespace SmsgCommand

def name : SmsgCommand → String
  | smsgPing => "smsgPing"
  | smsgPong => "smsgPong"
  | smsgInv _ => "smsgInv"
  | smsgShow _ => "smsgShow"
  | smsgHave _ _ => "smsgHave"
  | smsgWant _ _ => "smsgWant"
  | smsgMsg _ _ => "smsgMsg"
  | smsgMatch _ => "smsgMatch"
  | smsgIgnore _ => "smsgIgnore"

def vectorBytes : SmsgCommand → Option Nat
  | smsgPing | smsgPong => none
  | smsgInv entries => some (4 + 16 * entries.length)
  | smsgShow times => some (4 + 8 * times.length)
  | smsgHave _ tokens | smsgWant _ tokens => some (8 + 16 * tokens.length)
  | smsgMsg _ messages =>
    some (12 + (messages.map fun token => SMSG_HDR_LEN + token.nPayload).sum)
  | smsgMatch _ | smsgIgnore _ => some 8

/-- `vRecv.size()`: the vector with its compact size. -/
def size (command : SmsgCommand) : Nat :=
  match command.vectorBytes with
  | none => 0
  | some n => (if n < 253 then 1 else if n ≤ 0xffff then 3 else 5) + n

def maxSmsgVectorPayloadBytes : SmsgCommand → Option Nat
  | smsgPing | smsgPong => none
  | smsgInv _ => some (4 + SMSG_MAX_INV_BUCKETS * 16)
  | smsgShow _ => some (4 + SMSG_MAX_SHOW_BUCKETS * 8)
  | smsgHave _ _ => some (8 + SMSG_MAX_HAVE_TOKENS * 16)
  | smsgWant _ _ => some (8 + SMSG_MAX_WANT_TOKENS * 16)
  | smsgMsg _ _ => some SMSG_MAX_MSG_PAYLOAD_BYTES
  | smsgMatch _ | smsgIgnore _ => some 8

def isOversized (command : SmsgCommand) : Bool :=
  match command.maxSmsgVectorPayloadBytes with
  | none => false
  | some n => n + 9 < command.size

end SmsgCommand

def isSmsgHandshakeCommand : SmsgCommand → Bool
  | .smsgPing | .smsgPong | .smsgIgnore _ => true
  | _ => false

structure SecMsgNode where
  lastSeen : Int
  lastMatched : Int
  ignoreUntil : Int
  rateWindowStart : Int
  nRateMessages : Nat
  nRateBytes : Nat
  requestedBuckets : List Int
  wantedTokens : List (Int × List (List UInt8))
  nInventoryMismatches : Nat
  fEnabled : Bool
  fValidatedRelay : Bool
  fSentValidationProbe : Bool
  deriving DecidableEq, Repr

namespace SecMsgNode

def new : SecMsgNode := ⟨-1, 0, 0, 0, 0, 0, [], [], 0, false, false, false⟩

def SMSG_MAX_TRACKED_REQUEST_BUCKETS : Nat := 512

def SMSG_MAX_TRACKED_WANTED_BUCKETS : Nat := 128

def SMSG_MAX_TRACKED_WANTED_TOKENS : Nat := 8192

def SMSG_MAX_INVENTORY_MISMATCHES : Nat := 8

def markSmsgRelayValidated (p : SecMsgNode) : SecMsgNode :=
  if p.fValidatedRelay then p
  else
    { p with
      fValidatedRelay := true, lastMatched := 0, requestedBuckets := [], wantedTokens := [] }

def trimWanted : List (Int × List (List UInt8)) → List (Int × List (List UInt8))
  | [] => []
  | entry :: rest =>
    if SMSG_MAX_TRACKED_WANTED_BUCKETS < (entry :: rest).length ∨
        SMSG_MAX_TRACKED_WANTED_TOKENS < ((entry :: rest).map fun e => e.2.length).sum then
      trimWanted rest
    else entry :: rest

def trimTrackedSmsgRequests (p : SecMsgNode) : SecMsgNode :=
  { p with
    requestedBuckets :=
      p.requestedBuckets.drop (p.requestedBuckets.length - SMSG_MAX_TRACKED_REQUEST_BUCKETS)
    wantedTokens := trimWanted p.wantedTokens }

/-- `std::set::insert` into an ordered list of times. -/
def insertTime (time : Int) : List Int → List Int
  | [] => [time]
  | t :: times =>
    if time = t then t :: times
    else if time < t then time :: t :: times
    else t :: insertTime time times

def trackSmsgRequestedBuckets (p : SecMsgNode) (bucketTimes : List Int) : SecMsgNode :=
  trimTrackedSmsgRequests
    { p with
      requestedBuckets :=
        bucketTimes.foldl (fun times time => insertTime time times) p.requestedBuckets }

def wantedIn (p : SecMsgNode) (bucketTime : Int) : List (List UInt8) :=
  ((p.wantedTokens.find? fun e => e.1 == bucketTime).map Prod.snd).getD []

def setWanted (bucketTime : Int) (samples : List (List UInt8)) :
    List (Int × List (List UInt8)) → List (Int × List (List UInt8))
  | [] => [(bucketTime, samples)]
  | entry :: rest =>
    if bucketTime = entry.1 then (bucketTime, samples) :: rest
    else if bucketTime < entry.1 then (bucketTime, samples) :: entry :: rest
    else entry :: setWanted bucketTime samples rest

def trackSmsgWantedTokens (p : SecMsgNode) (bucketTime : Int) (samples : List (List UInt8)) :
    SecMsgNode :=
  trimTrackedSmsgRequests
    { p with
      wantedTokens :=
        setWanted bucketTime (p.wantedIn bucketTime ++ samples).dedup p.wantedTokens }

def consumeSmsgWantedTokens (p : SecMsgNode) (bucketTime : Int) (samples : List (List UInt8)) :
    SecMsgNode :=
  let left := (p.wantedIn bucketTime).filter fun s => !samples.contains s
  { p with
    wantedTokens :=
      if left.isEmpty then p.wantedTokens.filter fun e => e.1 != bucketTime
      else setWanted bucketTime left p.wantedTokens }

def recordSmsgInventoryMismatch (p : SecMsgNode) (now : Int) : SecMsgNode :=
  if SMSG_MAX_INVENTORY_MISMATCHES ≤ p.nInventoryMismatches + 1 then
    { p with ignoreUntil := now + SMSG_TIME_IGNORE, nInventoryMismatches := 0 }
  else { p with nInventoryMismatches := p.nInventoryMismatches + 1 }

def countMessage (p : SecMsgNode) (now : Int) (payloadBytes : Nat) : SecMsgNode :=
  let p :=
    if p.rateWindowStart + SMSG_RATE_WINDOW ≤ now then
      { p with rateWindowStart := now, nRateMessages := 0, nRateBytes := 0 }
    else p
  { p with nRateMessages := p.nRateMessages + 1, nRateBytes := p.nRateBytes + payloadBytes }

end SecMsgNode

/-- The buckets of a node and what it keeps about the peer.  `changed` is not in
the source: it lists the buckets that `hashBucket` changed after the last
`smsgInv` to the peer that listed them. -/
structure SmsgNode where
  buckets : AssocMap Int SecMsgBucket
  peer : SecMsgNode
  changed : List Int

namespace SmsgNode

def new : SmsgNode := ⟨∅, .new, []⟩

def peerId : Int := 1

variable (day : Nat) (now : Int)

/-- `buckets[time].hashBucket()` for a bucket that exists. -/
def rehash (n : SmsgNode) (time : Int) : SmsgNode :=
  match n.buckets.lookup time with
  | none => n
  | some b =>
    { n with
      buckets := n.buckets.insert time (b.hashBucket day now)
      changed := if (b.hashBucket day now).hash = b.hash then n.changed
        else time :: n.changed }

def bucketTime (token : SecMsgToken) : Int :=
  token.timestamp - token.timestamp.tmod SMSG_BUCKET_LEN

def bucketAt (n : SmsgNode) (time : Int) : SecMsgBucket :=
  (n.buckets.lookup time).getD .new

def setBucket (n : SmsgNode) (time : Int) (b : SecMsgBucket) : SmsgNode :=
  { n with buckets := n.buckets.insert time b }

def store (n : SmsgNode) (token : SecMsgToken) (fSpace fHashBucket : Bool) : SmsgNode × Bool :=
  if now + SMSG_TIME_LEEWAY < token.timestamp then (n, false)
  else if token.timestamp < now - SMSG_RETENTION then (n, false)
  else if decide (0 < token.ttl * day) && token.expired day now then (n, false)
  else
    let time := bucketTime token
    let bucket := n.bucketAt time
    if bucket.hasToken token then (n.setBucket time bucket, false)
    else if !fSpace then (n.setBucket time bucket, false)
    else
      let n := n.setBucket time (bucket.addToken token)
      (if fHashBucket then n.rehash day now time else n, true)

def eraseBucket (n : SmsgNode) (time : Int) : SmsgNode :=
  { n with
    buckets := n.buckets.erase time
    changed := n.changed.filter fun t => t != time }

def manageBucket (n : SmsgNode) (time : Int) : SmsgNode × List SmsgCommand :=
  match n.buckets.lookup time with
  | none => (n, [])
  | some b =>
    let fOld := decide (time < now - SMSG_RETENTION)
    let fExpired := !fOld && decide (time + b.nLeastTTL * day < now)
    let n := if fExpired then n.rehash day now time else n
    let b := n.bucketAt time
    if fOld || fExpired && decide (b.nActive < 1) then
      (n.eraseBucket time, [])
    else if b.nLockCount = 0 then (n, [])
    else if b.nLockCount = 1 then
      -- the lock timed out
      let n := n.setBucket time { b with nLockCount := 0, nLockPeerId := 0 }
      if b.nLockPeerId = peerId then
        ({ n with peer := { n.peer with ignoreUntil := now + SMSG_TIME_IGNORE } },
          [.smsgIgnore (now + SMSG_TIME_IGNORE)])
      else (n, [])
    else (n.setBucket time { b with nLockCount := b.nLockCount - 1 }, [])

def manageLoop : List Int → SmsgNode → SmsgNode × List SmsgCommand
  | [], n => (n, [])
  | time :: times, n =>
    let (n, told) := n.manageBucket day now time
    let (n, rest) := manageLoop times n
    (n, told ++ rest)

def manageBuckets (n : SmsgNode) : SmsgNode × List SmsgCommand :=
  manageLoop day now n.buckets.keys n

/-- What `smsgInv` leads to for one bucket of the peer. -/
inductive InvAnswer where
  | skip
  | locked
  | request
  deriving DecidableEq, Repr

def answerInvEntry (n : SmsgNode) (entry : InvEntry) : InvAnswer :=
  if entry.time < now - SMSG_RETENTION then .skip
  else if now + SMSG_TIME_LEEWAY < entry.time then .skip
  else if !isSmsgBucketTimeAligned entry.time then .skip
  else if entry.ncontent < 1 then .skip
  else if SMSG_MAX_HAVE_TOKENS < entry.ncontent then .skip
  else
    let b := n.bucketAt entry.time
    if 0 < b.nLockCount then .locked
    else if b.setTokens.length < entry.ncontent ∨
        b.setTokens.length = entry.ncontent ∧ b.hash ≠ entry.hash then .request
    else .skip

def receiveInv (n : SmsgNode) (entries : List InvEntry) : SmsgNode × List SmsgCommand :=
  if SMSG_MAX_INV_BUCKETS < entries.length then (n, [])
  else
    let n := { n with peer := n.peer.markSmsgRelayValidated }
    let requested :=
      (entries.filter fun e => n.answerInvEntry now e = .request).map InvEntry.time
    if requested ≠ [] then
      ({ n with peer := n.peer.trackSmsgRequestedBuckets requested }, [.smsgShow requested])
    else if entries.any fun e => n.answerInvEntry now e = .locked then (n, [])
    else (n, [.smsgMatch now])

def validBucketTime (time : Int) : Bool :=
  decide (now - SMSG_RETENTION ≤ time) && decide (time ≤ now + SMSG_TIME_LEEWAY) &&
    isSmsgBucketTimeAligned time

def receiveShow (n : SmsgNode) (times : List Int) : SmsgNode × List SmsgCommand :=
  if SMSG_MAX_SHOW_BUCKETS < times.length then (n, [])
  else
    ({ n with peer := n.peer.markSmsgRelayValidated },
      (times.filter (validBucketTime now)).filterMap fun time =>
        (n.buckets.lookup time).map fun b =>
          .smsgHave time (((b.setTokens.filter fun token => !token.expired day now).take
            SMSG_MAX_HAVE_TOKENS).map fun token => (token.timestamp, token.sample)))

def SecMsgBucket.hasKey (b : SecMsgBucket) (key : Int × List UInt8) : Bool :=
  b.setTokens.any fun token => token.timestamp == key.1 && token.sample == key.2

def receiveHave (n : SmsgNode) (time : Int) (tokens : List (Int × List UInt8)) :
    SmsgNode × List SmsgCommand :=
  if SMSG_MAX_HAVE_TOKENS < tokens.length then (n, [])
  else if !validBucketTime now time then (n, [])
  else if !n.peer.requestedBuckets.contains time then
    ({ n with peer := n.peer.recordSmsgInventoryMismatch now }, [])
  else
    let n := { n with
      peer := { n.peer with
        requestedBuckets := n.peer.requestedBuckets.erase time }.markSmsgRelayValidated }
    let b := n.bucketAt time
    if 0 < b.nLockCount then (n, [])
    else
      let wanted := tokens.filter fun key => !SecMsgBucket.hasKey b key
      if wanted = [] then (n, [])
      else
        let n := n.setBucket time { b with nLockCount := 3, nLockPeerId := peerId }
        ({ n with peer := n.peer.trackSmsgWantedTokens time (wanted.map Prod.snd) },
          [.smsgWant time wanted])

/-- The messages of one answer to `smsgWant`: a bunch ends at 500 messages or
96000 bytes. -/
def bunch (b : SecMsgBucket) : List (Int × List UInt8) → Nat → Nat → List SecMsgToken
  | [], _, _ => []
  | key :: keys, nBunch, size =>
    match b.setTokens.find? fun token => token.timestamp == key.1 && token.sample == key.2 with
    | none => bunch b keys nBunch size
    | some token =>
      let size := size + SMSG_HDR_LEN + token.nPayload
      if 500 ≤ nBunch + 1 ∨ 96000 ≤ size then [token]
      else token :: bunch b keys (nBunch + 1) size

def receiveWant (n : SmsgNode) (time : Int) (tokens : List (Int × List UInt8)) :
    SmsgNode × List SmsgCommand :=
  if SMSG_MAX_WANT_TOKENS < tokens.length then (n, [])
  else if !validBucketTime now time then (n, [])
  else
    match n.buckets.lookup time with
    | none => (n, [])
    | some b =>
      if bunch b tokens 0 12 = [] then (n, [])
      else (n, [.smsgMsg time (bunch b tokens 0 12)])

/-- The loop of `Receive` over the messages of a bunch: the node and whether the
bunch was malformed.  `fValid` is the answer of `Validate`. -/
def storeBunch (time : Int) (fSpace : Bool) (fValid : SecMsgToken → Bool) :
    List SecMsgToken → SmsgNode → SmsgNode × Bool
  | [], n => (n, false)
  | token :: tokens, n =>
    if token.nPayload < 8 then (n, true)
    else if !(n.peer.wantedIn time).contains token.sample then
      ({ n with peer := n.peer.recordSmsgInventoryMismatch now }, true)
    else if bucketTime token ≠ time ∨ (n.bucketAt time).hasToken token ∨ !fValid token then
      storeBunch time fSpace fValid tokens n
    else
      match n.store day now token fSpace false with
      | (n, false) => (n, true)
      | (n, true) => storeBunch time fSpace fValid tokens n

def receiveMsg (n : SmsgNode) (time : Int) (messages : List SecMsgToken) (fSpace : Bool)
    (fValid : SecMsgToken → Bool) : SmsgNode :=
  if SMSG_MAX_MSG_PAYLOAD_BYTES <
      12 + (messages.map fun token => SMSG_HDR_LEN + token.nPayload).sum then n
  else if !validBucketTime now time then n
  else if (n.peer.wantedIn time).isEmpty then
    { n with peer := n.peer.recordSmsgInventoryMismatch now }
  else if messages = [] ∨ 500 < messages.length then
    match n.buckets.lookup time with
    | none => n
    | some b => n.setBucket time { b with nLockCount := 0 }
  else
    let (n, fMalformedBunch) := storeBunch day now time fSpace fValid messages n
    match n.buckets.lookup time with
    | none => n
    | some b =>
      if 0 < b.nLockCount ∧ b.nLockPeerId ≠ peerId then
        { n with peer := n.peer.recordSmsgInventoryMismatch now }
      else if fMalformedBunch then n.rehash day now time
      else
        let n := (n.setBucket time { b with nLockCount := 0, nLockPeerId := 0 }).rehash day now time
        { n with
          peer := (n.peer.consumeSmsgWantedTokens time
            (messages.map SecMsgToken.sample)).markSmsgRelayValidated }

def receiveMatch (n : SmsgNode) (time : Int) : SmsgNode :=
  let time := if now + SMSG_TIME_LEEWAY < time then now else time
  if n.peer.fSentValidationProbe && !n.peer.fValidatedRelay then
    { n with peer := n.peer.markSmsgRelayValidated }
  else { n with peer := { n.peer with lastMatched := time } }

def receivePong (n : SmsgNode) : SmsgNode × List SmsgCommand :=
  let fSendValidationProbe := !n.peer.fValidatedRelay && !n.peer.fSentValidationProbe
  ({ n with
      peer := { n.peer with
        fEnabled := true
        fSentValidationProbe := n.peer.fSentValidationProbe || fSendValidationProbe } },
    if fSendValidationProbe then [.smsgInv []] else [])

def receiveIgnore (n : SmsgNode) (time : Int) : SmsgNode :=
  if time ≤ now then n
  else
    { n with peer := { n.peer with ignoreUntil := min time (now + SMSG_TIME_IGNORE) } }

def handle (fSpace : Bool) (fValid : SecMsgToken → Bool) (n : SmsgNode) :
    SmsgCommand → SmsgNode × List SmsgCommand
  | .smsgPing => (n, [.smsgPong])
  | .smsgPong => n.receivePong
  | .smsgInv entries => n.receiveInv now entries
  | .smsgShow times => n.receiveShow day now times
  | .smsgHave time tokens => n.receiveHave now time tokens
  | .smsgWant time tokens => n.receiveWant now time tokens
  | .smsgMsg time messages => (n.receiveMsg day now time messages fSpace fValid, [])
  | .smsgMatch time => (n.receiveMatch now time, [])
  | .smsgIgnore time => (n.receiveIgnore now time, [])

def receiveData (n : SmsgNode) (command : SmsgCommand) (fSpace : Bool)
    (fValid : SecMsgToken → Bool) : SmsgNode × List SmsgCommand :=
  if command.isOversized then (n, [])
  else if now < n.peer.ignoreUntil then (n, [])
  else
    let n := { n with
      peer := n.peer.countMessage now (command.size + command.name.length) }
    if SMSG_MAX_MSGS_PER_WINDOW < n.peer.nRateMessages ∨
        SMSG_MAX_BYTES_PER_WINDOW < n.peer.nRateBytes then
      ({ n with peer := { n.peer with ignoreUntil := now + SMSG_TIME_IGNORE } },
        [.smsgIgnore (now + SMSG_TIME_IGNORE)])
    else if !n.peer.fEnabled && !isSmsgHandshakeCommand command then (n, [])
    else n.handle day now fSpace fValid command

def inventoryLoop (lastMatched : Int) : List (Sigma fun _ : Int => SecMsgBucket) → Nat → List InvEntry
  | [], _ => []
  | ⟨time, bkt⟩ :: rest, nBucketsShown =>
    if ¬ InWindow now time then inventoryLoop lastMatched rest nBucketsShown
    else if SMSG_MAX_INV_BUCKETS ≤ nBucketsShown then
      inventoryLoop lastMatched rest nBucketsShown
    else if bkt.timeChanged < lastMatched ∨ bkt.setTokens.length < 1 then
      inventoryLoop lastMatched rest nBucketsShown
    else
      ⟨time, bkt.setTokens.length, bkt.hash⟩ ::
        inventoryLoop lastMatched rest (nBucketsShown + 1)

/-- The bucket headers that `SendData` puts into `smsgInv`. -/
def inventory (n : SmsgNode) : List InvEntry :=
  inventoryLoop now n.peer.lastMatched n.buckets.entries 0

def sendData (n : SmsgNode) : SmsgNode × List SmsgCommand :=
  if n.peer.lastSeen ≤ 0 then
    ({ n with peer := { n.peer with lastSeen := now } },
      if n.peer.lastSeen < 0 then [.smsgPing, .smsgPong] else [.smsgPing])
  else if !n.peer.fEnabled ∨ now - n.peer.lastSeen < SMSG_SEND_DELAY ∨
      now < n.peer.ignoreUntil then (n, [])
  else
    ({ n with
        peer := { n.peer with lastSeen := now }
        changed := n.changed.filter fun time => !((n.inventory now).map InvEntry.time).contains time },
      if n.inventory now = [] then [] else [.smsgInv (n.inventory now)])

end SmsgNode

/-- The clock, the nodes, and for each node the messages on their way to it. -/
structure SmsgSystem where
  now : Nat
  node : Bool → SmsgNode
  inbox : Bool → List SmsgCommand

/-- What happens next: time passes, a node stores a message of its own, runs its
management thread, runs `SendData` or takes the next message from its inbox. -/
inductive SmsgEvent where
  | tick (seconds : Nat)
  | store (side : Bool) (token : SecMsgToken) (fSpace : Bool)
  | manage (side : Bool)
  | send (side : Bool)
  | receive (side : Bool) (fSpace : Bool) (fValid : SecMsgToken → Bool)

namespace SmsgSystem

def init (now : Nat) : SmsgSystem := ⟨now, fun _ => .new, fun _ => []⟩

def move (s : SmsgSystem) (side : Bool) (r : SmsgNode × List SmsgCommand)
    (inbox : Bool → List SmsgCommand) : SmsgSystem :=
  { s with
    node := Function.update s.node side r.1
    inbox := Function.update inbox (!side) (inbox (!side) ++ r.2) }

def step (day : Nat) (s : SmsgSystem) : SmsgEvent → SmsgSystem
  | .tick seconds => { s with now := s.now + seconds }
  | .store side token fSpace =>
    s.move side (((s.node side).store day s.now token fSpace true).1, []) s.inbox
  | .manage side => s.move side ((s.node side).manageBuckets day s.now) s.inbox
  | .send side => s.move side ((s.node side).sendData s.now) s.inbox
  | .receive side fSpace fValid =>
    match s.inbox side with
    | [] => s
    | command :: rest =>
      s.move side ((s.node side).receiveData day s.now command fSpace fValid)
        (Function.update s.inbox side rest)

end SmsgSystem

end Verge
