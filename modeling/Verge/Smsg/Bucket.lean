import Verge.Foundation.AssocMap

/-!
# Buckets of secure messages

Tokens, buckets and `SecMsgBucket::hashBucket` of `smsg/smessage.cpp`, with the
hash of `crypto/xxhash`.  A day is shorter on regtest, so its length `day` is a
parameter throughout.
-/

namespace Verge

open Foundation List

namespace XXH32

def PRIME32_1 : UInt32 := 2654435761

def PRIME32_2 : UInt32 := 2246822519

def PRIME32_3 : UInt32 := 3266489917

def PRIME32_4 : UInt32 := 668265263

def PRIME32_5 : UInt32 := 374761393

def rotl (x r : UInt32) : UInt32 := (x <<< r) ||| (x >>> (32 - r))

def readLE32 (a b c d : UInt8) : UInt32 :=
  a.toUInt32 ||| (b.toUInt32 <<< 8) ||| (c.toUInt32 <<< 16) ||| (d.toUInt32 <<< 24)

def lane (v word : UInt32) : UInt32 := rotl (v + word * PRIME32_2) 13 * PRIME32_1

def stripes (v1 v2 v3 v4 : UInt32) : List UInt8 → (UInt32 × UInt32 × UInt32 × UInt32) × List UInt8
  | a0 :: a1 :: a2 :: a3 :: b0 :: b1 :: b2 :: b3 :: c0 :: c1 :: c2 :: c3 ::
      d0 :: d1 :: d2 :: d3 :: rest =>
      stripes (lane v1 (readLE32 a0 a1 a2 a3)) (lane v2 (readLE32 b0 b1 b2 b3))
        (lane v3 (readLE32 c0 c1 c2 c3)) (lane v4 (readLE32 d0 d1 d2 d3)) rest
  | rest => ((v1, v2, v3, v4), rest)

def tail (h32 : UInt32) : List UInt8 → UInt32
  | a :: b :: c :: d :: rest =>
    tail (rotl (h32 + readLE32 a b c d * PRIME32_3) 17 * PRIME32_4) rest
  | rest => rest.foldl (fun h32 b => rotl (h32 + b.toUInt32 * PRIME32_5) 11 * PRIME32_1) h32

def avalanche (h32 : UInt32) : UInt32 :=
  let h32 := (h32 ^^^ (h32 >>> 15)) * PRIME32_2
  let h32 := (h32 ^^^ (h32 >>> 13)) * PRIME32_3
  h32 ^^^ (h32 >>> 16)

/-- The digest of the bytes fed to a state that was initialised with `seed`. -/
def digest (seed : UInt32) (input : List UInt8) : UInt32 :=
  let ((v1, v2, v3, v4), rest) :=
    stripes (seed + PRIME32_1 + PRIME32_2) (seed + PRIME32_2) seed (seed - PRIME32_1) input
  let h32 :=
    if 16 ≤ input.length then rotl v1 1 + rotl v2 7 + rotl v3 12 + rotl v4 18
    else seed + PRIME32_5
  avalanche (tail (h32 + UInt32.ofNat input.length) rest)

end XXH32

def SMSG_BUCKET_LEN : Int := 60 * 60

def SMSG_SECONDS_IN_DAY : Nat := 86400

def SMSG_RETENTION : Int := 86400 * 31

def SMSG_TIME_LEEWAY : Int := 24

def SMSG_SEND_DELAY : Int := 2

def SMSG_TIME_IGNORE : Int := 90

def SMSG_RATE_WINDOW : Int := 60

def SMSG_MAX_MSGS_PER_WINDOW : Nat := 240

def SMSG_MAX_BYTES_PER_WINDOW : Nat := 1024 * 1024

def SMSG_MAX_INV_BUCKETS : Nat := 745

def SMSG_MAX_SHOW_BUCKETS : Nat := SMSG_MAX_INV_BUCKETS

def SMSG_MAX_HAVE_TOKENS : Nat := 4096

def SMSG_MAX_WANT_TOKENS : Nat := 500

def SMSG_MAX_MSG_PAYLOAD_BYTES : Nat := 128 * 1024

def SMSG_HDR_LEN : Nat := 104

/-- A message as the store holds it: its token and the length of its payload. -/
structure SecMsgToken where
  timestamp : Int
  sample : List UInt8
  ttl : Nat
  nPayload : Nat
  deriving DecidableEq, Repr

namespace SecMsgToken

/-- `operator<`; two tokens are the same to a set if neither is smaller. -/
def lt (x y : SecMsgToken) : Bool :=
  if x.timestamp = y.timestamp then decide (x.sample < y.sample)
  else decide (x.timestamp < y.timestamp)

def same (x y : SecMsgToken) : Bool := x.timestamp == y.timestamp && x.sample == y.sample

def insert (token : SecMsgToken) : List SecMsgToken → List SecMsgToken
  | [] => [token]
  | t :: tokens => if token.lt t then token :: t :: tokens else t :: insert token tokens

theorem mem_insert {token t : SecMsgToken} {tokens : List SecMsgToken} :
    t ∈ token.insert tokens ↔ t = token ∨ t ∈ tokens := by
  induction tokens with
  | nil => simp [insert]
  | cons t' tokens ih =>
    simp only [insert]
    split
    · simp
    · simp only [List.mem_cons, ih]
      exact or_left_comm

def expired (day : Nat) (now : Int) (token : SecMsgToken) : Bool :=
  decide (token.timestamp + token.ttl * day < now)

end SecMsgToken

structure SecMsgBucket where
  timeChanged : Int
  hash : UInt32
  nLockCount : Nat
  nLeastTTL : Nat
  nActive : Nat
  nLockPeerId : Int
  setTokens : List SecMsgToken
  deriving DecidableEq, Repr

namespace SecMsgBucket

def new : SecMsgBucket := ⟨0, 0, 0, 0, 0, 0, []⟩

def hasToken (b : SecMsgBucket) (token : SecMsgToken) : Bool := b.setTokens.any token.same

def lessTTL (least ttl : Nat) : Nat :=
  if 0 < ttl && (least == 0 || ttl < least) then ttl else least

def leastTTL (tokens : List SecMsgToken) : Nat :=
  tokens.foldl (fun least token => lessTTL least token.ttl) 0

def addToken (b : SecMsgBucket) (token : SecMsgToken) : SecMsgBucket :=
  { b with
    setTokens := token.insert b.setTokens, nLeastTTL := lessTTL b.nLeastTTL token.ttl }

def hashBucket (day : Nat) (now : Int) (b : SecMsgBucket) : SecMsgBucket :=
  let active := b.setTokens.filter fun token => !token.expired day now
  let hash_new := XXH32.digest 1 (active.flatMap SecMsgToken.sample)
  let b := { b with nActive := active.length, nLeastTTL := leastTTL active }
  if b.hash ≠ hash_new then { b with hash := hash_new, timeChanged := now } else b

section

variable (day : Nat) (now : Int) (b : SecMsgBucket)

@[simp] theorem hashBucket_setTokens : (b.hashBucket day now).setTokens = b.setTokens := by
  simp only [hashBucket]
  split <;> rfl

theorem hashBucket_hash :
    (b.hashBucket day now).hash = XXH32.digest 1
      ((b.setTokens.filter fun token => !token.expired day now).flatMap SecMsgToken.sample) := by
  simp only [hashBucket]
  split
  case isTrue => rfl
  case isFalse h => exact not_not.mp h

theorem hashBucket_timeChanged :
    (b.hashBucket day now).timeChanged =
      if (b.hashBucket day now).hash = b.hash then b.timeChanged else now := by
  simp only [hashBucket]
  split
  case isTrue h => simp [Ne.symm h]
  case isFalse => simp

end

theorem hashBucket_nActive_of_nil {day : Nat} {now : Int} {b : SecMsgBucket}
    (h : b.setTokens = []) : (b.hashBucket day now).nActive = 0 := by
  simp only [hashBucket, h, filter_nil, length_nil]
  split <;> rfl

end SecMsgBucket

def isSmsgBucketTimeAligned (time : Int) : Bool :=
  decide (0 ≤ time) && decide (time % SMSG_BUCKET_LEN = 0)

def InWindow (now time : Int) : Prop :=
  time % SMSG_BUCKET_LEN = 0 ∧ now - SMSG_RETENTION ≤ time ∧ time ≤ now + SMSG_TIME_LEEWAY

instance (now time : Int) : Decidable (InWindow now time) :=
  inferInstanceAs (Decidable (_ ∧ _ ∧ _))

theorem length_le_of_inWindow {now : Int} {times : List Int} (hnodup : times.Nodup)
    (h : ∀ time ∈ times, InWindow now time) : times.length ≤ SMSG_MAX_INV_BUCKETS := by
  let first := (now - SMSG_RETENTION + SMSG_BUCKET_LEN - 1) / SMSG_BUCKET_LEN
  have hsub : times ⊆ (List.range SMSG_MAX_INV_BUCKETS).map
      fun i : Nat => SMSG_BUCKET_LEN * (first + i) := by
    intro time htime
    obtain ⟨haligned, hlow, hhigh⟩ := h time htime
    refine mem_map.mpr ⟨(time / SMSG_BUCKET_LEN - first).toNat, ?_, ?_⟩
    · simp only [mem_range, first, SMSG_BUCKET_LEN, SMSG_RETENTION, SMSG_TIME_LEEWAY,
        SMSG_MAX_INV_BUCKETS] at *
      omega
    · simp only [first, SMSG_BUCKET_LEN, SMSG_RETENTION, SMSG_TIME_LEEWAY] at *
      omega
  simpa using (subperm_of_subset hnodup hsub).length_le

end Verge
