import Mathlib.Data.ZMod.Basic
import Mathlib.NumberTheory.LucasPrimality
import Mathlib.Tactic.NormNum.Prime
import Verge.Script.Standard
import Verge.Validation.BlockChecks

/-!
# Stealth addresses

`stealth.cpp`: ephemeral secrets, the shared secret of sender and recipient, and the
one-time keys that both derive from it.  The curve is any cyclic group of prime
order with an encoding of its points, the hash functions are any functions.
-/

namespace Verge

def ec_secret_size : Nat := 32

def ec_compressed_size : Nat := 33

/-- What the code uses of secp256k1 and of the hash functions.  The point at
infinity has no encoding of the right length. -/
structure StealthCurve (G : Type) [AddCommGroup G] where
  g : G
  n : Nat
  prime : n.Prime
  order : addOrderOf g = n
  generates : ∀ P : G, ∃ k : Nat, k • g = P
  encode : G → valtype
  decode : valtype → Option G
  decode_encode : ∀ P, P ≠ 0 → decode (encode P) = some P
  length_encode : ∀ P, P ≠ 0 → (encode P).length = ec_compressed_size
  validSize_encode : ∀ P, P ≠ 0 → CPubKey.validSize (encode P) = true
  sha256 : valtype → BitVec 256
  hash160 : valtype → valtype
  length_hash160 : ∀ bytes, (hash160 bytes).length = 20

/-- `CStealthAddress`; a secret that the wallet does not have is shorter than 32
bytes. -/
structure CStealthAddress where
  scan_pubkey : valtype
  spend_pubkey : valtype
  scan_secret : valtype
  spend_secret : valtype
  deriving DecidableEq, Repr

def bin2bn (bytes : valtype) : Nat := bytes.foldl (fun acc b => 256 * acc + b.toNat) 0

namespace StealthCurve

variable {G : Type} [AddCommGroup G] [DecidableEq G] (c : StealthCurve G)

/-- `EC_POINT_point2bn` in compressed form, with the check of its length. -/
def point2bn (P : G) : Option valtype := if P = 0 then none else some (c.encode P)

/-- `GenerateRandomSecret` on what `RAND_bytes` returns.  The bytes are compared as the
little-endian number that a `uint256` is, and used as the big-endian one of `BN_bin2bn`. -/
def generateRandomSecret (draws : List valtype) : Option Nat :=
  ((draws.take 32).find? fun test =>
    decide (16000 < ofLittleEndian test) && decide (ofLittleEndian test < c.n - 1)).map bin2bn

def secretToPublicKey (secret : Nat) : Option valtype := c.point2bn (secret • c.g)

def stealthSecret (secret : Nat) (pubkey pkSpend : valtype) : Option (Nat × valtype) := do
  let Q ← c.decode pubkey
  let vchOutQ ← c.point2bn (secret • Q)
  let sharedSOut := (c.sha256 vchOutQ).toNat
  let R ← c.decode pkSpend
  let pkOut ← c.point2bn (R + sharedSOut • c.g)
  return (sharedSOut, pkOut)

/-- `StealthSharedToSecretSpend`.  A sum with fewer than 32 bytes is an error. -/
def stealthSharedToSecretSpend (sharedS spendSecret : Nat) : Option Nat :=
  let bnSpend := (spendSecret + sharedS) % c.n
  if bnSpend = 0 then none
  else if 256 ^ (ec_secret_size - 1) ≤ bnSpend ∧ bnSpend < 256 ^ ec_secret_size then some bnSpend
  else none

variable {c}

theorem point2bn_eq_some {P : G} {bytes : valtype} :
    c.point2bn P = some bytes ↔ P ≠ 0 ∧ c.encode P = bytes := by
  unfold point2bn
  split
  case isTrue h => simp [h]
  case isFalse h => simp [h]

omit [DecidableEq G] in
theorem smul_mod (k : Nat) : (k % c.n) • c.g = k • c.g := by
  rw [← c.order]
  exact (mod_addOrderOf_nsmul c.g k)

theorem stealthSecret_encode {k : Nat} {P R : G} (hP : P ≠ 0) (hR : R ≠ 0) (hk : k • P ≠ 0)
    (hsum : R + (c.sha256 (c.encode (k • P))).toNat • c.g ≠ 0) :
    c.stealthSecret k (c.encode P) (c.encode R) =
      some ((c.sha256 (c.encode (k • P))).toNat,
        c.encode (R + (c.sha256 (c.encode (k • P))).toNat • c.g)) := by
  simp [stealthSecret, point2bn, c.decode_encode P hP, c.decode_encode R hR, hk, hsum]

end StealthCurve

namespace SampleCurve

def order : Nat := 29 * 2 ^ 245 + 1

def squarings (k x : Nat) : Nat := (fun y => y * y % order)^[k] x

theorem natCast_squarings (k x : Nat) :
    (squarings k x : ZMod order) = (x : ZMod order) ^ 2 ^ k := by
  induction k with
  | zero => simp [squarings]
  | succ k ih =>
    have hstep : squarings (k + 1) x = squarings k x * squarings k x % order := by
      simp only [squarings, Function.iterate_succ_apply']
    rw [hstep, ZMod.natCast_mod, Nat.cast_mul, ih, ← pow_two, ← pow_mul, pow_succ]

theorem natCast_ne {m k : Nat} (hm : m < order) (hk : k < order) (hne : m ≠ k) :
    (m : ZMod order) ≠ k := by
  rw [Ne, ZMod.natCast_eq_natCast_iff', Nat.mod_eq_of_lt hm, Nat.mod_eq_of_lt hk]
  exact hne

theorem natCast_ne_one {m : Nat} (hm : m < order) (hne : m ≠ 1) : (m : ZMod order) ≠ 1 := by
  have h := natCast_ne hm (by decide) hne
  rwa [Nat.cast_one] at h

theorem prime_order : order.Prime := by
  have hcast : ∀ k, (3 : ZMod order) ^ (29 * 2 ^ k) = (squarings k (3 ^ 29) : ZMod order) := by
    intro k
    rw [natCast_squarings, pow_mul]
    push_cast
    rfl
  have hsub : order - 1 = 29 * 2 ^ 245 := rfl
  refine lucas_primality order 3 ?_ fun q hq hdvd => ?_
  · have hone : squarings 245 (3 ^ 29) = 1 := by decide +kernel
    rw [hsub, hcast, hone, Nat.cast_one]
  · rw [hsub] at hdvd ⊢
    rcases (Nat.Prime.dvd_mul hq).mp hdvd with h | h
    · obtain rfl : q = 29 := (Nat.prime_dvd_prime_iff_eq hq (by norm_num)).mp h
      have hthree : (squarings 245 3 : ZMod order) = 3 ^ 2 ^ 245 := by
        simpa only [Nat.cast_ofNat] using natCast_squarings 245 3
      rw [Nat.mul_div_cancel_left _ (by decide), ← hthree]
      exact natCast_ne_one (by decide +kernel) (by decide +kernel)
    · obtain rfl : q = 2 := (Nat.prime_dvd_prime_iff_eq hq Nat.prime_two).mp (hq.dvd_of_dvd_pow h)
      have hhalf : 29 * 2 ^ 245 / 2 = 29 * 2 ^ 244 := by norm_num
      rw [hhalf, hcast]
      exact natCast_ne_one (by decide +kernel) (by decide +kernel)

instance : NeZero order := ⟨by decide⟩

def curve : StealthCurve (ZMod order) where
  g := 1
  n := order
  prime := prime_order
  order := ZMod.addOrderOf_one order
  generates P := ⟨P.val, by simp⟩
  encode P := 2 :: writeLE 32 P.val
  decode
    | [] => none
    | _ :: bytes => ((readLE 32).run bytes).toOption.map fun (k, _) => k
  decode_encode P _ := by
    have hlt : P.val < 256 ^ 32 := lt_trans (ZMod.val_lt P) (by decide)
    have hread := reads_LE 32 hlt []
    rw [List.append_nil] at hread
    simp [hread, Except.toOption]
  length_encode P _ := by simp [ec_compressed_size]
  validSize_encode P _ := by
    simp [CPubKey.validSize, CPubKey.getLen, CPubKey.COMPRESSED_PUBLIC_KEY_SIZE]
  sha256 bytes := BitVec.ofNat 256 (bin2bn bytes)
  hash160 bytes := writeLE 20 (bin2bn bytes)
  length_hash160 bytes := length_writeLE 20 _

theorem smul_ne_zero {k : Nat} (hpos : 0 < k) (hlt : k < order) : k • curve.g ≠ 0 := by
  have hne := natCast_ne hlt (by decide) hpos.ne'
  simpa [curve] using hne

theorem encode_smul {k : Nat} (hlt : k < order) :
    curve.encode (k • curve.g) = 2 :: writeLE 32 k := by
  have hval : (k • curve.g).val = k := by
    simp [curve, ZMod.val_natCast, Nat.mod_eq_of_lt hlt]
  show 2 :: writeLE 32 (k • curve.g).val = _
  rw [hval]

theorem secretToPublicKey_eq {k : Nat} (hpos : 0 < k) (hlt : k < order) :
    curve.secretToPublicKey k = some (curve.encode (k • curve.g)) :=
  StealthCurve.point2bn_eq_some.mpr ⟨smul_ne_zero hpos hlt, rfl⟩

end SampleCurve

end Verge
