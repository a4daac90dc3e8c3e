import Mathlib.Data.List.Basic

/-!
# Network addresses

`CNetAddr` of `netaddress.cpp`: one array of 41 bytes for all address families, of which
the old message format carries the first sixteen.
-/

namespace Verge

open List

@[ext]
structure CNetAddr where
  ip : List UInt8
  length_ip : ip.length = 41
  deriving DecidableEq

def pchIPv4 : List UInt8 := [0, 0, 0, 0, 0, 0, 0, 0, 0, 0, 0xff, 0xff]
def pchOnionCat : List UInt8 := [0xFD, 0x87, 0xD8, 0x7E, 0xEB, 0x43]
def pchGarliCat : List UInt8 := [0xFD, 0x60, 0xDB, 0x4D, 0xDD, 0xB5]
def g_internal_prefix : List UInt8 := [0xFD, 0x6B, 0x88, 0xC0, 0x87, 0x24]
def pchOnionv3Cat : List UInt8 := [0xFD, 0x50, 0xa7, 0xf7, 0xc0, 0xf8]

namespace CNetAddr

def new : CNetAddr := ⟨List.replicate 41 0, List.length_replicate⟩

/-- `memcmp(ip + offset, bytes, sizeof(bytes)) == 0`. -/
def equalsAt (a : CNetAddr) (offset : Nat) (bytes : List UInt8) : Bool :=
  (a.ip.drop offset).take bytes.length == bytes

def getByte (a : CNetAddr) (n : Nat) : UInt8 := a.ip.getD (15 - n) 0

variable (a : CNetAddr)

def isIPv4 : Bool := a.equalsAt 0 pchIPv4

def isTor : Bool := a.equalsAt 0 pchOnionCat

def isTorV3 : Bool := a.equalsAt 0 pchOnionv3Cat

def isI2P : Bool := a.equalsAt 0 pchGarliCat

def isInternal : Bool := a.equalsAt 0 g_internal_prefix

def isRFC1918 : Bool :=
  a.isIPv4 && (a.getByte 3 == 10 || (a.getByte 3 == 192 && a.getByte 2 == 168) ||
    (a.getByte 3 == 172 && (decide (16 ≤ a.getByte 2) && decide (a.getByte 2 ≤ 31))))

def isRFC2544 : Bool :=
  a.isIPv4 && a.getByte 3 == 198 && (a.getByte 2 == 18 || a.getByte 2 == 19)

def isRFC3927 : Bool := a.isIPv4 && (a.getByte 3 == 169 && a.getByte 2 == 254)

def isRFC6598 : Bool :=
  a.isIPv4 && a.getByte 3 == 100 && decide (64 ≤ a.getByte 2) && decide (a.getByte 2 ≤ 127)

def isRFC5737 : Bool :=
  a.isIPv4 && ((a.getByte 3 == 192 && a.getByte 2 == 0 && a.getByte 1 == 2) ||
    (a.getByte 3 == 198 && a.getByte 2 == 51 && a.getByte 1 == 100) ||
    (a.getByte 3 == 203 && a.getByte 2 == 0 && a.getByte 1 == 113))

def isRFC3849 : Bool :=
  a.getByte 15 == 0x20 && a.getByte 14 == 0x01 && a.getByte 13 == 0x0D && a.getByte 12 == 0xB8

def isRFC4862 : Bool := a.equalsAt 0 [0xFE, 0x80, 0, 0, 0, 0, 0, 0]

def isRFC4193 : Bool := a.getByte 15 &&& 0xFE == 0xFC

def isRFC4843 : Bool :=
  a.getByte 15 == 0x20 && a.getByte 14 == 0x01 && a.getByte 13 == 0x00 &&
    a.getByte 12 &&& 0xF0 == 0x10

def isLocal : Bool :=
  (a.isIPv4 && (a.getByte 3 == 127 || a.getByte 3 == 0)) ||
    a.equalsAt 0 [0, 0, 0, 0, 0, 0, 0, 0, 0, 0, 0, 0, 0, 0, 0, 1]

def isValid : Bool :=
  if a.equalsAt 0 (pchIPv4.drop 3) then false
  else if a.isTor then false
  else if a.equalsAt 0 (List.replicate 16 0) then false
  else if a.isRFC3849 then false
  else if a.isInternal then false
  else if a.isIPv4 then !(a.equalsAt 12 [255, 255, 255, 255] || a.equalsAt 12 [0, 0, 0, 0])
  else true

def isRoutable : Bool :=
  a.isValid && !(a.isRFC1918 || a.isRFC2544 || a.isRFC3927 || a.isRFC4862 || a.isRFC6598 ||
    a.isRFC5737 || (a.isRFC4193 && (!a.isI2P && !a.isTor && !a.isTorV3)) || a.isRFC4843 ||
    a.isLocal || a.isInternal)

def SER_NETWORK : Int := 1
def SER_DISK : Int := 2
def INIT_PROTO_VERSION : Int := 209
def PROTOCOL_VERSION : Int := 90009
def TORV3_SERVICES_VERSION : Int := 90009
def MIN_PEER_PROTO_VERSION : Int := 90009

/-- The version set for sending to a peer whose version message says `nVersion`; peers
below the minimum are disconnected. -/
def sendVersion (nVersion : Int) : Option Int :=
  if nVersion < MIN_PEER_PROTO_VERSION then none else some (min nVersion PROTOCOL_VERSION)

def serialize (nVersion nType : Int) : List UInt8 :=
  if nVersion = INIT_PROTO_VERSION ∨ TORV3_SERVICES_VERSION ≤ nVersion ∨ nType = SER_DISK then a.ip
  else a.ip.take 16

/-- Reading into an object that holds `a`, with what is left of the stream. -/
def unserialize (nVersion nType : Int) (s : List UInt8) : Option (CNetAddr × List UInt8) :=
  if TORV3_SERVICES_VERSION ≤ nVersion ∨ nType = SER_DISK then
    if h : 41 ≤ s.length then some (⟨s.take 41, by simp [h]⟩, s.drop 41) else none
  else if h : 16 ≤ s.length then
    some (⟨s.take 16 ++ a.ip.drop 16, by simp [a.length_ip, h]⟩, s.drop 16)
  else none

variable {a} {b : CNetAddr}

section

variable (h : a.ip.take 16 = b.ip.take 16)

include h

theorem equalsAt_congr {offset : Nat} {bytes : List UInt8} (hle : offset + bytes.length ≤ 16) :
    a.equalsAt offset bytes = b.equalsAt offset bytes := by
  have hread : ∀ c : CNetAddr, (c.ip.drop offset).take bytes.length =
      ((c.ip.take 16).drop offset).take bytes.length := by
    intro c
    rw [drop_take, take_take, Nat.min_eq_left (by omega)]
  rw [equalsAt, equalsAt, hread a, hread b, h]

theorem getByte_congr (n : Nat) : a.getByte n = b.getByte n := by
  have hread : ∀ c : CNetAddr, c.getByte n = (c.ip.take 16).getD (15 - n) 0 := by
    intro c
    rw [getByte, getD_eq_getElem?_getD, getD_eq_getElem?_getD,
      List.getElem?_take_of_lt (by omega)]
  rw [hread a, hread b, h]

theorem isValid_congr : a.isValid = b.isValid := by
  have hshifted : a.equalsAt 0 (pchIPv4.drop 3) = b.equalsAt 0 (pchIPv4.drop 3) :=
    equalsAt_congr h (by decide)
  have htor : a.isTor = b.isTor := equalsAt_congr h (by decide)
  have hnone : a.equalsAt 0 (List.replicate 16 0) = b.equalsAt 0 (List.replicate 16 0) :=
    equalsAt_congr h (by decide)
  have hdoc : a.isRFC3849 = b.isRFC3849 := by
    simp only [isRFC3849, getByte_congr h]
  have hinternal : a.isInternal = b.isInternal := equalsAt_congr h (by decide)
  have hipv4 : a.isIPv4 = b.isIPv4 := equalsAt_congr h (by decide)
  have hends : ∀ bytes : List UInt8, bytes.length = 4 →
      a.equalsAt 12 bytes = b.equalsAt 12 bytes :=
    fun bytes hbytes => equalsAt_congr h (by omega)
  rw [isValid, isValid, hshifted, htor, hnone, hdoc, hinternal, hipv4,
    hends [255, 255, 255, 255] rfl, hends [0, 0, 0, 0] rfl]

theorem isRoutable_congr : a.isRoutable = b.isRoutable := by
  simp (disch := decide) only [isRoutable, isValid_congr h, isIPv4, isTor, isTorV3, isI2P,
    isInternal, isRFC1918, isRFC2544, isRFC3927, isRFC6598, isRFC5737, isRFC4862, isRFC4193,
    isRFC4843, isLocal, getByte_congr h, equalsAt_congr h]

end

def shortened (a : CNetAddr) : CNetAddr :=
  ⟨a.ip.take 16 ++ List.replicate 25 0, by simp [a.length_ip]⟩

section

variable (a b : CNetAddr)

theorem isRoutable_shortened : a.shortened.isRoutable = a.isRoutable := by
  refine isRoutable_congr ?_
  have hlength : (a.ip.take 16).length = 16 := by simp [a.length_ip]
  exact take_left' hlength

theorem shortened_eq_iff : a.shortened = a ↔ a.ip.drop 16 = List.replicate 25 0 := by
  have hparts := take_append_drop 16 a.ip
  constructor
  · intro h
    have hip : a.ip.take 16 ++ List.replicate 25 0 = a.ip := congrArg ip h
    exact (append_cancel_left (hip.trans hparts.symm)).symm
  · intro h
    rw [h] at hparts
    exact CNetAddr.ext hparts

theorem unserialize_serialize_wide {nVersion nType : Int}
    (h : TORV3_SERVICES_VERSION ≤ nVersion ∨ nType = SER_DISK) :
    b.unserialize nVersion nType (a.serialize nVersion nType) = some (a, []) := by
  have hle : 41 ≤ a.ip.length := Nat.le_of_eq a.length_ip.symm
  have htake : a.ip.take 41 = a.ip := take_of_length_le (Nat.le_of_eq a.length_ip)
  have hdrop : a.ip.drop 41 = [] := drop_of_length_le (Nat.le_of_eq a.length_ip)
  simp only [serialize, if_pos (Or.inr h), unserialize, if_pos h, dif_pos hle, hdrop]
  exact congrArg (fun c => some (c, [])) (CNetAddr.ext htake)

theorem unserialize_serialize_short {nVersion nType : Int} (hinit : nVersion ≠ INIT_PROTO_VERSION)
    (h : ¬(TORV3_SERVICES_VERSION ≤ nVersion ∨ nType = SER_DISK)) :
    new.unserialize nVersion nType (a.serialize nVersion nType) = some (a.shortened, []) := by
  have hlength : (a.ip.take 16).length = 16 := by simp [a.length_ip]
  have hle : 16 ≤ (a.ip.take 16).length := Nat.le_of_eq hlength.symm
  have htake : (a.ip.take 16).take 16 = a.ip.take 16 :=
    take_of_length_le (Nat.le_of_eq hlength)
  have hdrop : (a.ip.take 16).drop 16 = [] := drop_of_length_le (Nat.le_of_eq hlength)
  have hshort : ¬(nVersion = INIT_PROTO_VERSION ∨ TORV3_SERVICES_VERSION ≤ nVersion ∨
      nType = SER_DISK) := not_or.2 ⟨hinit, h⟩
  simp only [serialize, if_neg hshort, unserialize, if_neg h, dif_pos hle, hdrop]
  refine congrArg (fun c => some (c, [])) (CNetAddr.ext ?_)
  exact congrArg (· ++ List.replicate 25 0) htake

theorem relayed_iff (ha : a.isRoutable = true) {nVersion : Int} (nType : Int)
    (hinit : nVersion ≠ INIT_PROTO_VERSION) :
    (∃ b, new.unserialize nVersion nType (a.serialize nVersion nType) = some (b, []) ∧
      (b = a ∨ b.isRoutable = false)) ↔
    TORV3_SERVICES_VERSION ≤ nVersion ∨ nType = SER_DISK ∨
      a.ip.drop 16 = List.replicate 25 0 := by
  rw [← or_assoc]
  by_cases hwide : TORV3_SERVICES_VERSION ≤ nVersion ∨ nType = SER_DISK
  · exact iff_of_true ⟨a, unserialize_serialize_wide a new hwide, .inl rfl⟩ (.inl hwide)
  · rw [unserialize_serialize_short a hinit hwide, or_iff_right hwide, ← shortened_eq_iff]
    constructor
    · rintro ⟨b, hb, harrived⟩
      obtain rfl : a.shortened = b := congrArg Prod.fst (Option.some.inj hb)
      rcases harrived with heq | hnot
      · exact heq
      · rw [isRoutable_shortened, ha] at hnot
        cases hnot
    · intro heq
      exact ⟨a.shortened, rfl, .inl heq⟩

end

theorem wide_of_sendVersion {nVersion nSendVersion : Int}
    (h : sendVersion nVersion = some nSendVersion) : TORV3_SERVICES_VERSION ≤ nSendVersion := by
  unfold sendVersion at h
  split at h
  · cases h
  · rename_i hmin
    obtain rfl := Option.some.inj h
    exact Int.le_min.2 ⟨Int.not_lt.1 hmin, by decide⟩

/-- With the versions the handshake sets every address arrives unchanged.  At any other
version a routable one arrives unchanged or unroutable exactly if the format carries all
its bytes or none is set after the sixteenth. -/
theorem relayed_uncorrupted (a : CNetAddr) (ha : a.isRoutable = true) :
    (∀ nVersion nSendVersion nType, sendVersion nVersion = some nSendVersion →
      new.unserialize nSendVersion nType (a.serialize nSendVersion nType) = some (a, [])) ∧
    ∀ nVersion nType, nVersion ≠ INIT_PROTO_VERSION →
      ((∃ b, new.unserialize nVersion nType (a.serialize nVersion nType) = some (b, []) ∧
        (b = a ∨ b.isRoutable = false)) ↔
      TORV3_SERVICES_VERSION ≤ nVersion ∨ nType = SER_DISK ∨
        a.ip.drop 16 = List.replicate 25 0) := by
  constructor
  · intro nVersion nSendVersion nType h
    exact unserialize_serialize_wide a new (.inl (wide_of_sendVersion h))
  · intro nVersion nType hinit
    exact relayed_iff a ha nType hinit

def sampleTorV3 : CNetAddr := ⟨pchOnionv3Cat ++ List.replicate 35 1, by decide⟩

theorem relayed_uncorrupted_torV3 :
    sampleTorV3.isRoutable = true ∧ sendVersion 90010 = some 90009 ∧
      new.unserialize 90009 SER_NETWORK (sampleTorV3.serialize 90009 SER_NETWORK) =
        some (sampleTorV3, []) :=
  ⟨by decide +kernel, by decide,
    (relayed_uncorrupted sampleTorV3 (by decide +kernel)).1 90010 90009 SER_NETWORK (by decide)⟩

theorem relayed_truncated : sampleTorV3.isRoutable = true ∧ (90008 : Int) ≠ INIT_PROTO_VERSION ∧
    ∃ b, new.unserialize 90008 SER_NETWORK (sampleTorV3.serialize 90008 SER_NETWORK) =
      some (b, []) ∧ b ≠ sampleTorV3 ∧ b.isRoutable = true :=
  ⟨by decide +kernel, by decide, sampleTorV3.shortened, by decide +kernel, by decide +kernel,
    by decide +kernel⟩

end CNetAddr

end Verge
