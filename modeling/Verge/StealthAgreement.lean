import Mathlib.Data.Nat.Digits.Lemmas
import Verge.Stealth

/-!
# Key agreement of stealth addresses

The sender with an ephemeral secret `e` and the recipient with the secrets `d` and `f`
run different routines: `StealthSecret` on either side, and `StealthSecretSpend` or
`StealthSharedToSecretSpend` for the private key of the output.  They agree on the
shared secret and on the output key.  The private key is written without padding,
and one that has fewer than 32 bytes is refused.
-/

namespace Verge

open List Option

/-- `BN_bn2bin`: big endian, without leading zeros. -/
def bn2bin (k : Nat) : valtype := ((Nat.digits 256 k).map UInt8.ofNat).reverse

theorem bin2bn_concat (bytes : valtype) (b : UInt8) :
    bin2bn (bytes ++ [b]) = 256 * bin2bn bytes + b.toNat := by
  simp [bin2bn]

theorem bin2bn_bn2bin (k : Nat) : bin2bn (bn2bin k) = k := by
  have hdigits : ∀ digits : List Nat, (∀ digit ∈ digits, digit < 256) →
      bin2bn (digits.map UInt8.ofNat).reverse = Nat.ofDigits 256 digits := by
    intro digits hlt
    induction digits with
    | nil => rfl
    | cons digit digits ih =>
      obtain ⟨hdigit, hrest⟩ := forall_mem_cons.mp hlt
      have hbyte : (UInt8.ofNat digit).toNat = digit := Nat.mod_eq_of_lt hdigit
      rw [map_cons, reverse_cons, bin2bn_concat, ih hrest, Nat.ofDigits_cons,
        hbyte, Nat.add_comm]
  have hlt : ∀ digit ∈ Nat.digits 256 k, digit < 256 := fun digit hdigit =>
    Nat.digits_lt_base (by decide) hdigit
  rw [bn2bin, hdigits _ hlt, Nat.ofDigits_digits]

theorem length_bn2bin_eq_iff (k length : Nat) :
    (bn2bin k).length = length + 1 ↔ 256 ^ length ≤ k ∧ k < 256 ^ (length + 1) := by
  have hle := Nat.digits_length_le_iff (k := length + 1) (by decide : 1 < 256) k
  have hlt := Nat.lt_digits_length_iff (k := length) (by decide : 1 < 256) k
  rw [← hle, ← hlt, bn2bin, length_reverse, length_map]
  omega

namespace StealthCurve

variable {G : Type} [AddCommGroup G] [DecidableEq G] (c : StealthCurve G)

/-- `StealthSecretSpend`: the scan secret, the ephemeral key and the spend secret. -/
def stealthSecretSpend (scanSecret : Nat) (ephemPubkey : valtype) (spendSecret : Nat) :
    Option Nat := do
  let P ← c.decode ephemPubkey
  let vchOutP ← c.point2bn (scanSecret • P)
  let hash1 := (c.sha256 vchOutP).toNat
  c.stealthSharedToSecretSpend hash1 spendSecret

def sharedSecret (e d : Nat) : Nat := (c.sha256 (c.encode ((e * d) • c.g))).toNat

/-- Both sides derive the same shared secret and output key, and both routines for the
private key write it as 32 bytes, if there is one. -/
structure KeyAgreement (e d f : Nat) : Prop where
  agree : c.stealthSecret e (c.encode (d • c.g)) (c.encode (f • c.g)) =
    c.stealthSecret d (c.encode (e • c.g)) (c.encode (f • c.g))
  shared : ∀ sharedS pkOut,
    c.stealthSecret e (c.encode (d • c.g)) (c.encode (f • c.g)) = some (sharedS, pkOut) →
      sharedS = c.sharedSecret e d ∧ pkOut = c.encode (f • c.g + sharedS • c.g)
  spend : (f + c.sharedSecret e d) % c.n ≠ 0 → 0 < c.sharedSecret e d → c.sharedSecret e d < c.n →
    ∃ bnSpend pkOut,
      c.stealthSecret e (c.encode (d • c.g)) (c.encode (f • c.g)) =
        some (c.sharedSecret e d, pkOut) ∧
      c.stealthSharedToSecretSpend (c.sharedSecret e d) f = some bnSpend ∧
      c.stealthSecretSpend d (c.encode (e • c.g)) f = some bnSpend ∧
      bnSpend = (f + c.sharedSecret e d) % c.n ∧
      (bn2bin bnSpend).length = ec_secret_size ∧ bin2bn (bn2bin bnSpend) = bnSpend ∧
      c.secretToPublicKey bnSpend = some pkOut

variable {c}

omit [DecidableEq G] in
theorem smul_eq_zero_iff (k : Nat) : k • c.g = 0 ↔ k % c.n = 0 := by
  rw [← Nat.dvd_iff_mod_eq_zero, ← c.order]
  exact addOrderOf_dvd_iff_nsmul_eq_zero.symm

omit [DecidableEq G] in
theorem smul_ne_zero_of_secret {k : Nat} (hpos : 0 < k) (hlt : k < c.n) : k • c.g ≠ 0 := by
  rw [Ne, smul_eq_zero_iff, Nat.mod_eq_of_lt hlt]
  exact hpos.ne'

omit [DecidableEq G] in
theorem sharedSecret_comm (e d : Nat) : c.sharedSecret e d = c.sharedSecret d e := by
  rw [sharedSecret, sharedSecret, Nat.mul_comm]

omit [DecidableEq G] in
theorem stealthSharedToSecretSpend_eq_some {sharedS f bnSpend : Nat} :
    c.stealthSharedToSecretSpend sharedS f = some bnSpend ↔
      bnSpend = (f + sharedS) % c.n ∧ (bn2bin bnSpend).length = ec_secret_size := by
  have hlength := length_bn2bin_eq_iff ((f + sharedS) % c.n) 31
  constructor
  · intro h
    simp only [stealthSharedToSecretSpend] at h
    split_ifs at h with hzero hbytes
    cases h
    exact ⟨rfl, hlength.mpr hbytes⟩
  · rintro ⟨rfl, hbytes⟩
    have hrange := hlength.mp hbytes
    have hne : (f + sharedS) % c.n ≠ 0 := fun hzero => by
      rw [hzero] at hrange
      exact absurd hrange.1 (by decide)
    simp only [stealthSharedToSecretSpend, if_neg hne]
    exact if_pos hrange

/-- `StealthSecret` on the keys of known secrets, one of which is any number. -/
theorem stealthSecret_smul {k p r : Nat} (hp : p • c.g ≠ 0) (hr : r • c.g ≠ 0) :
    c.stealthSecret k (c.encode (p • c.g)) (c.encode (r • c.g)) =
      if (k * p) % c.n = 0 then none
      else (c.point2bn ((r + c.sharedSecret k p) • c.g)).map fun pkOut =>
        (c.sharedSecret k p, pkOut) := by
  have hQ : c.point2bn (k • p • c.g) =
      if (k * p) % c.n = 0 then none else some (c.encode ((k * p) • c.g)) := by
    rw [← mul_smul]
    simp only [point2bn, smul_eq_zero_iff]
  simp only [stealthSecret, c.decode_encode _ hp, c.decode_encode _ hr, bind_eq_bind, bind_some, hQ]
  split
  · rfl
  · simp only [bind_some, ← add_smul, sharedSecret, Option.pure_def, Option.map_eq_bind,
      Function.comp_def]

section

variable {e d : Nat} (he : 0 < e ∧ e < c.n) (hd : 0 < d ∧ d < c.n)

include he hd

omit [DecidableEq G] in
theorem mul_smul_ne_zero : (e * d) • c.g ≠ 0 := by
  rw [Ne, smul_eq_zero_iff, ← Nat.dvd_iff_mod_eq_zero, c.prime.dvd_mul]
  rintro (h | h)
  · exact Nat.not_dvd_of_pos_of_lt he.1 he.2 h
  · exact Nat.not_dvd_of_pos_of_lt hd.1 hd.2 h

theorem point2bn_smul_smul : c.point2bn (e • d • c.g) = some (c.encode ((e * d) • c.g)) := by
  rw [← mul_smul]
  exact point2bn_eq_some.mpr ⟨mul_smul_ne_zero he hd, rfl⟩

theorem stealthSecret_eq {f : Nat} (hf : 0 < f ∧ f < c.n) :
    c.stealthSecret e (c.encode (d • c.g)) (c.encode (f • c.g)) =
      (c.point2bn ((f + c.sharedSecret e d) • c.g)).map fun pkOut =>
        (c.sharedSecret e d, pkOut) := by
  rw [stealthSecret_smul (smul_ne_zero_of_secret hd.1 hd.2) (smul_ne_zero_of_secret hf.1 hf.2),
    if_neg fun h => mul_smul_ne_zero he hd ((smul_eq_zero_iff _).mpr h)]

theorem stealthSecretSpend_eq (f : Nat) :
    c.stealthSecretSpend d (c.encode (e • c.g)) f =
      c.stealthSharedToSecretSpend (c.sharedSecret e d) f := by
  have hE := smul_ne_zero_of_secret he.1 he.2
  rw [sharedSecret_comm]
  simp only [stealthSecretSpend, c.decode_encode _ hE, point2bn_smul_smul hd he, sharedSecret,
    bind_eq_bind, bind_some]

end

/-- Sender and recipient agree, and the recipient obtains every private key that there is,
unless it has fewer than 32 bytes. -/
theorem keyAgreement_iff {e d f : Nat} (he : 0 < e ∧ e < c.n) (hd : 0 < d ∧ d < c.n)
    (hf : 0 < f ∧ f < c.n) :
    c.KeyAgreement e d f ↔
      ((f + c.sharedSecret e d) % c.n ≠ 0 → 0 < c.sharedSecret e d →
        c.sharedSecret e d < c.n →
        (bn2bin ((f + c.sharedSecret e d) % c.n)).length = ec_secret_size) := by
  constructor
  · intro h hne hpos hlt
    obtain ⟨bnSpend, pkOut, -, -, -, rfl, hlength, -⟩ := h.spend hne hpos hlt
    exact hlength
  · intro h
    refine ⟨?_, fun sharedS pkOut hsecret => ?_, fun hne hpos hlt => ?_⟩
    · rw [stealthSecret_eq he hd hf, stealthSecret_eq hd he hf, sharedSecret_comm]
    · rw [stealthSecret_eq he hd hf, map_eq_some_iff] at hsecret
      obtain ⟨pk, hpk, heq⟩ := hsecret
      obtain ⟨rfl, rfl⟩ := Prod.mk.inj heq
      rw [← add_smul]
      exact ⟨rfl, (point2bn_eq_some.mp hpk).2.symm⟩
    · have hpoint : (f + c.sharedSecret e d) • c.g ≠ 0 := fun hzero =>
        hne ((smul_eq_zero_iff _).mp hzero)
      have hkey : c.point2bn ((f + c.sharedSecret e d) • c.g) =
          some (c.encode ((f + c.sharedSecret e d) • c.g)) := point2bn_eq_some.mpr ⟨hpoint, rfl⟩
      have hspend := stealthSharedToSecretSpend_eq_some.mpr ⟨rfl, h hne hpos hlt⟩
      refine ⟨_, c.encode ((f + c.sharedSecret e d) • c.g), ?_, hspend,
        (stealthSecretSpend_eq he hd f).trans hspend, rfl, h hne hpos hlt, bin2bn_bn2bin _, ?_⟩
      · rw [stealthSecret_eq he hd hf, hkey]
        rfl
      · rw [secretToPublicKey, smul_mod, hkey]

end StealthCurve

namespace SampleCurve

theorem sharedSecret_one : curve.sharedSecret 1 1 = 256 ^ 31 := by
  rw [StealthCurve.sharedSecret, encode_smul (by decide)]
  decide +kernel

theorem keyAgreement_one : curve.KeyAgreement 1 1 1 := by
  refine (StealthCurve.keyAgreement_iff (by decide) (by decide) (by decide)).mpr fun _ _ _ => ?_
  rw [sharedSecret_one]
  exact (length_bn2bin_eq_iff _ 31).mpr (by decide +kernel)

/-- The spend secret and the shared secret sum to 5 modulo the order, and the recipient is
refused the private key. -/
theorem stealthSecretSpend_refuses :
    (0 < order + 5 - 256 ^ 31 ∧ order + 5 - 256 ^ 31 < curve.n) ∧ 256 ^ 31 < curve.n ∧
    (order + 5 - 256 ^ 31 + 256 ^ 31) % curve.n = 5 ∧
    curve.stealthSecret 1 (curve.encode (1 • curve.g))
        (curve.encode ((order + 5 - 256 ^ 31) • curve.g)) =
      some (256 ^ 31, curve.encode (5 • curve.g)) ∧
    curve.secretToPublicKey 5 = some (curve.encode (5 • curve.g)) ∧
    curve.stealthSharedToSecretSpend (256 ^ 31) (order + 5 - 256 ^ 31) = none ∧
    curve.stealthSecretSpend 1 (curve.encode (1 • curve.g)) (order + 5 - 256 ^ 31) = none := by
  have hone : 0 < 1 ∧ 1 < curve.n := by decide
  have hsum : order + 5 - 256 ^ 31 + 256 ^ 31 = order + 5 := by decide +kernel
  have hpoint : (order + 5) • curve.g = 5 • curve.g := by
    rw [← StealthCurve.smul_mod]
    exact congrArg (· • curve.g) (by decide +kernel : (order + 5) % order = 5)
  have hkey := secretToPublicKey_eq (by decide : 0 < 5) (by decide)
  have hrefused : curve.stealthSharedToSecretSpend (256 ^ 31) (order + 5 - 256 ^ 31) = none := by
    decide +kernel
  refine ⟨by decide +kernel, by decide +kernel, by decide +kernel, ?_, hkey, hrefused, ?_⟩
  · rw [StealthCurve.stealthSecret_eq hone hone (by decide +kernel), sharedSecret_one, hsum, hpoint]
    exact congrArg (Option.map _) hkey
  · rw [StealthCurve.stealthSecretSpend_eq hone hone, sharedSecret_one]
    exact hrefused

end SampleCurve

end Verge
