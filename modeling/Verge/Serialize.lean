import Verge.Foundation.Reader
import Verge.Coins.Coin
import Verge.Script.Script

/-!
# Integers of `serialize.h`

`WriteVarInt` and `WriteCompactSize` with their readers.  A `VARINT` is read at
the width of the variable it is read into, so the reader takes the largest
value of that type.
-/

namespace Verge

open Foundation Reader List

abbrev ByteReader := Reader UInt8 Failure

def endOfData : Failure := .throws "end of data"

def readByte : ByteReader UInt8 := next endOfData

def readBytes (n : Nat) : ByteReader (List UInt8) := take endOfData n

def throwRead {α : Type} (what : String) : ByteReader α := fun _ => .error (.throws what)

/-- The loop of `WriteVarInt` with the bytes written so far, last one first.
The fuel is the size of the buffer `tmp`. -/
def writeVarIntLoop : Nat → Nat → List UInt8 → List UInt8
  | 0, _, tmp => tmp
  | fuel + 1, n, tmp =>
    let byte := UInt8.ofNat (n % 128 + if tmp.isEmpty then 0 else 128)
    if n ≤ 0x7F then byte :: tmp
    else writeVarIntLoop fuel (n / 128 - 1) (byte :: tmp)

def writeVarInt (bits n : Nat) : List UInt8 := writeVarIntLoop ((bits + 6) / 7) n []

/-- The loop of `ReadVarInt`; it ends with the input at the latest. -/
def readVarIntLoop (max : Nat) : Nat → List UInt8 → Except Failure (Nat × List UInt8)
  | _, [] => .error endOfData
  | n, ch :: rest =>
    if max / 128 < n then .error (.throws "ReadVarInt(): size too large")
    else
      let n' := n * 128 + ch.toNat % 128
      if 128 ≤ ch.toNat then
        if n' = max then .error (.throws "ReadVarInt(): size too large")
        else readVarIntLoop max (n' + 1) rest
      else .ok (n', rest)

def readVarInt (bits : Nat) : ByteReader Nat := readVarIntLoop (2 ^ bits - 1) 0

private theorem toNat_low (n : Nat) : (UInt8.ofNat (n % 128)).toNat = n % 128 := by
  rw [UInt8.toNat_ofNat']
  omega

private theorem toNat_high (n : Nat) :
    (UInt8.ofNat (n % 128 + 128)).toNat = n % 128 + 128 := by
  rw [UInt8.toNat_ofNat']
  omega

private theorem readVarIntLoop_high {max n : Nat} (h : n < max) (rest : List UInt8) :
    readVarIntLoop max (n / 128) (UInt8.ofNat (n % 128 + 128) :: rest) =
      readVarIntLoop max (n + 1) rest := by
  have hle : ¬max / 128 < n / 128 := by
    have := Nat.div_le_div_right (c := 128) h.le
    omega
  have hval : n / 128 * 128 + (n % 128 + 128) % 128 = n := by omega
  rw [readVarIntLoop, if_neg hle]
  simp only [toNat_high, hval]
  rw [if_pos (by omega), if_neg (by omega)]

private theorem readVarIntLoop_low {max n : Nat} (h : n ≤ max) (rest : List UInt8) :
    readVarIntLoop max (n / 128) (UInt8.ofNat (n % 128) :: rest) = .ok (n, rest) := by
  have hle : ¬max / 128 < n / 128 := by
    have := Nat.div_le_div_right (c := 128) h
    omega
  have hval : n / 128 * 128 + n % 128 % 128 = n := by omega
  rw [readVarIntLoop, if_neg hle]
  simp only [toNat_low, hval]
  rw [if_neg (by omega)]

private theorem div_lt_of_lt_pow (fuel : Nat) {n : Nat} (h : n < 2 ^ (7 * (fuel + 1))) :
    n / 128 < 2 ^ (7 * fuel) := by
  have hpow : 2 ^ (7 * (fuel + 1)) = 2 ^ (7 * fuel) * 128 := by
    rw [Nat.mul_succ, Nat.pow_add]
  exact (Nat.div_lt_iff_lt_mul (by decide)).mpr (hpow ▸ h)

private theorem readVarIntLoop_prefix {max : Nat} (fuel : Nat) {n : Nat} {tmp : List UInt8}
    (hfuel : n + 1 < 2 ^ (7 * fuel)) (hmax : n < max) (htmp : tmp ≠ []) (rest : List UInt8) :
    readVarIntLoop max 0 (writeVarIntLoop fuel n tmp ++ rest) =
      readVarIntLoop max (n + 1) (tmp ++ rest) := by
  induction fuel generalizing n tmp with
  | zero => simp at hfuel
  | succ fuel ih =>
    have hempty : tmp.isEmpty = false := by simpa using htmp
    simp only [writeVarIntLoop, hempty, Bool.false_eq_true, if_false]
    by_cases hn : n ≤ 0x7F
    · rw [if_pos hn, cons_append, ← readVarIntLoop_high hmax]
      congr 1
      omega
    · rw [if_neg hn, ih]
      · rw [← readVarIntLoop_high hmax, cons_append]
        congr 1
        omega
      · have := div_lt_of_lt_pow fuel (Nat.lt_of_succ_lt hfuel)
        omega
      · omega
      · simp

theorem reads_varInt {bits n : Nat} (hbits : 0 < bits) (h : n < 2 ^ bits) :
    Reads (readVarInt bits) (writeVarInt bits n) n := by
  intro rest
  obtain ⟨fuel, hfuel⟩ : ∃ fuel, (bits + 6) / 7 = fuel + 1 :=
    ⟨(bits + 6) / 7 - 1, by omega⟩
  have hwide : n < 2 ^ (7 * (fuel + 1)) :=
    h.trans_le (Nat.pow_le_pow_right (by decide) (by omega))
  have hdiv := div_lt_of_lt_pow fuel hwide
  have hmax : n ≤ 2 ^ bits - 1 := by omega
  change readVarIntLoop (2 ^ bits - 1) 0 (writeVarInt bits n ++ rest) = _
  rw [writeVarInt, hfuel]
  simp only [writeVarIntLoop, isEmpty_nil, if_true, Nat.add_zero]
  by_cases hn : n ≤ 0x7F
  · rw [if_pos hn, ← readVarIntLoop_low hmax]
    congr 1
    omega
  · rw [if_neg hn, readVarIntLoop_prefix fuel (by omega) (by omega) (by simp)]
    rw [← readVarIntLoop_low hmax]
    congr 1
    omega

theorem writeVarInt_small {bits n : Nat} (hbits : 0 < bits) (h : n ≤ 0x7F) :
    writeVarInt bits n = [UInt8.ofNat n] := by
  obtain ⟨fuel, hfuel⟩ : ∃ fuel, (bits + 6) / 7 = fuel + 1 :=
    ⟨(bits + 6) / 7 - 1, by omega⟩
  rw [writeVarInt, hfuel]
  simp only [writeVarIntLoop, isEmpty_nil, if_true, Nat.add_zero, if_pos h]
  rw [Nat.mod_eq_of_lt (by omega)]

def MAX_SIZE : Nat := 0x02000000

/-- `ser_writedata16`, `32` and `64`: `k` bytes, least significant first. -/
def writeLE : Nat → Nat → List UInt8
  | 0, _ => []
  | k + 1, n => UInt8.ofNat (n % 256) :: writeLE k (n / 256)

def readLE : Nat → ByteReader Nat
  | 0 => pure 0
  | k + 1 => do
    let low ← readByte
    let high ← readLE k
    return low.toNat + 256 * high

theorem reads_LE (k : Nat) {n : Nat} (h : n < 256 ^ k) :
    Reads (readLE k) (writeLE k n) n := by
  induction k generalizing n with
  | zero =>
    have hzero : n = 0 := by simpa using h
    subst hzero
    exact reads_pure 0
  | succ k ih =>
    have hdiv : n / 256 < 256 ^ k :=
      (Nat.div_lt_iff_lt_mul (by decide)).mpr (by rwa [← Nat.pow_succ])
    have hlow : (UInt8.ofNat (n % 256)).toNat = n % 256 := by
      rw [UInt8.toNat_ofNat']
      omega
    have hvalue : (UInt8.ofNat (n % 256)).toNat + 256 * (n / 256) = n := by omega
    have hread := Reads.bind_pure
      (f := fun high => (UInt8.ofNat (n % 256)).toNat + 256 * high) (ih hdiv)
    rw [hvalue] at hread
    exact Reads.bind (f := fun low => readLE k >>= fun high => pure (low.toNat + 256 * high))
      (reads_next endOfData (UInt8.ofNat (n % 256))) hread

theorem ofLittleEndian_writeLE (k n : Nat) : ofLittleEndian (writeLE k n) = n % 256 ^ k := by
  induction k generalizing n with
  | zero => simp [writeLE, ofLittleEndian, Nat.mod_one]
  | succ k ih =>
    have hbyte : (UInt8.ofNat (n % 256)).toNat = n % 256 := Nat.mod_mod n 256
    rw [writeLE, ofLittleEndian, ih, hbyte, Nat.pow_succ', Nat.mod_mul]

theorem ofLittleEndian_lt (bytes : List UInt8) : ofLittleEndian bytes < 256 ^ bytes.length := by
  induction bytes with
  | nil => simp [ofLittleEndian]
  | cons b bytes ih =>
    have hb := b.toNat_lt
    simp only [ofLittleEndian, length_cons, Nat.pow_succ']
    omega

def writeInt64 (n : Int) : List UInt8 := writeLE 8 (BitVec.ofInt 64 n).toNat

def readInt64 (bytes : List UInt8) : Int := (BitVec.ofNat 64 (ofLittleEndian bytes)).toInt

theorem readInt64_writeInt64 {n : Int} (hge : -2 ^ 63 ≤ n) (hlt : n < 2 ^ 63) :
    readInt64 (writeInt64 n) = n := by
  have hsmall : (BitVec.ofInt 64 n).toNat % 256 ^ 8 = (BitVec.ofInt 64 n).toNat :=
    Nat.mod_eq_of_lt (BitVec.ofInt 64 n).isLt
  rw [readInt64, writeInt64, ofLittleEndian_writeLE, hsmall, BitVec.ofNat_toNat,
    BitVec.setWidth_eq, BitVec.toInt_ofInt_eq_self (by decide) hge hlt]

def writeCompactSize (nSize : Nat) : List UInt8 :=
  if nSize < 253 then [UInt8.ofNat nSize]
  else if nSize ≤ 0xFFFF then 253 :: writeLE 2 nSize
  else if nSize ≤ 0xFFFFFFFF then 254 :: writeLE 4 nSize
  else 255 :: writeLE 8 nSize

def readSized (k least : Nat) : ByteReader Nat := do
  let nSize ← readLE k
  if nSize < least then throwRead "non-canonical ReadCompactSize()" else pure nSize

def readCompactSize : ByteReader Nat := do
  let chSize ← readByte
  let nSizeRet ←
    if chSize.toNat < 253 then pure chSize.toNat
    else if chSize.toNat = 253 then readSized 2 253
    else if chSize.toNat = 254 then readSized 4 0x10000
    else readSized 8 0x100000000
  if MAX_SIZE < nSizeRet then throwRead "ReadCompactSize(): size too large"
  else pure nSizeRet

private theorem reads_sized {k least n : Nat} (hlt : n < 256 ^ k) (hle : least ≤ n) :
    Reads (readSized k least) (writeLE k n) n := by
  refine Reads.bind_nil (reads_LE k hlt) ?_
  rw [if_neg (by omega)]
  exact reads_pure n

theorem reads_compactSize {n : Nat} (h : n ≤ MAX_SIZE) :
    Reads readCompactSize (writeCompactSize n) n := by
  have hmax : n ≤ 0x02000000 := h
  have hlast : Reads (if MAX_SIZE < n then throwRead "ReadCompactSize(): size too large"
      else pure n : ByteReader Nat) [] n := by
    rw [if_neg (by omega)]
    exact reads_pure n
  unfold writeCompactSize readCompactSize
  by_cases h1 : n < 253
  · have hbyte : (UInt8.ofNat n).toNat = n := by
      rw [UInt8.toNat_ofNat']
      omega
    rw [if_pos h1]
    refine Reads.bind_nil (reads_next endOfData (UInt8.ofNat n)) ?_
    rw [if_pos (by omega), hbyte]
    exact Reads.bind_nil (reads_pure n) hlast
  · rw [if_neg h1]
    by_cases h2 : n ≤ 0xFFFF
    · rw [if_pos h2]
      refine (reads_next endOfData 253).bind ?_
      rw [if_neg (by decide), if_pos (by decide)]
      exact Reads.bind_nil (reads_sized (by omega) (by omega)) hlast
    · rw [if_neg h2, if_pos (by omega)]
      refine (reads_next endOfData 254).bind ?_
      rw [if_neg (by decide), if_neg (by decide), if_pos (by decide)]
      exact Reads.bind_nil (reads_sized (by omega) (by omega)) hlast

section Canonical

variable {k least n : Nat} {input rest : List UInt8}

theorem readLE_run (h : (readLE k).run input = .ok (n, rest)) :
    n < 256 ^ k ∧ input = writeLE k n ++ rest := by
  induction k generalizing input n with
  | zero =>
    cases h
    exact ⟨Nat.one_pos, rfl⟩
  | succ k ih =>
    obtain ⟨low, mid, hlow, h⟩ := run_bind_eq_ok.mp h
    obtain ⟨high, mid', hhigh, h⟩ := run_bind_eq_ok.mp h
    cases h
    obtain ⟨hlt, rfl⟩ := ih hhigh
    have hbyte := low.toNat_lt
    refine ⟨by rw [Nat.pow_succ]; omega, ?_⟩
    rw [writeLE, show (low.toNat + 256 * high) % 256 = low.toNat by omega,
      show (low.toNat + 256 * high) / 256 = high by omega, UInt8.ofNat_toNat]
    cases input with
    | nil => cases hlow
    | cons b input =>
      cases hlow
      rfl

private theorem readSized_run (h : (readSized k least).run input = .ok (n, rest)) :
    least ≤ n ∧ n < 256 ^ k ∧ input = writeLE k n ++ rest := by
  obtain ⟨m, mid, hread, h⟩ := run_bind_eq_ok.mp h
  split at h
  case isTrue => cases h
  case isFalse hle =>
    cases h
    exact ⟨not_lt.mp hle, readLE_run hread⟩

private theorem checked_run {m : Nat} {mid : List UInt8}
    (h : (if MAX_SIZE < m then throwRead "ReadCompactSize(): size too large" else pure m :
      ByteReader Nat).run mid = .ok (n, rest)) : m = n ∧ mid = rest := by
  split at h
  case isTrue => cases h
  case isFalse =>
    cases h
    exact ⟨rfl, rfl⟩

theorem canonical_readCompactSize : Canonical readCompactSize writeCompactSize := by
  intro input n rest h
  obtain ⟨chSize, mid, hbyte, h⟩ := run_bind_eq_ok.mp h
  have hinput : input = chSize :: mid := by
    cases input with
    | nil => cases hbyte
    | cons b input =>
      cases hbyte
      rfl
  dsimp only at h
  unfold writeCompactSize
  split_ifs at h with h1 h2 h3 <;>
    obtain ⟨m, mid', hsize, h⟩ := run_bind_eq_ok.mp h <;>
    obtain ⟨rfl, rfl⟩ := checked_run h
  · cases hsize
    rw [if_pos h1, UInt8.ofNat_toNat, hinput]
    rfl
  · obtain rfl : chSize = 253 := UInt8.toNat_inj.mp h2
    obtain ⟨hle, hlt, rfl⟩ := readSized_run hsize
    rw [if_neg (by omega), if_pos (by omega), hinput]
    rfl
  · obtain rfl : chSize = 254 := UInt8.toNat_inj.mp h3
    obtain ⟨hle, hlt, rfl⟩ := readSized_run hsize
    rw [if_neg (by omega), if_neg (by omega), if_pos (by omega), hinput]
    rfl
  · have hlast := chSize.toNat_lt
    obtain rfl : chSize = 255 := UInt8.toNat_inj.mp (by change _ = 255; omega)
    obtain ⟨hle, -, rfl⟩ := readSized_run hsize
    rw [if_neg (by omega), if_neg (by omega), if_neg (by omega), hinput]
    rfl

end Canonical

/-! ## The bytes of a variable-length integer -/

/-- `before` is what the loop of `WriteVarInt` writes before the bytes of `tmp` when the
reader's value is `n` after it. -/
def WrittenBefore (n : Nat) (before : List UInt8) : Prop :=
  ∀ fuel tmp, n < 2 ^ (7 * fuel) → tmp ≠ [] →
    (if n = 0 then tmp else writeVarIntLoop fuel (n - 1) tmp) = before ++ tmp

theorem writeVarIntLoop_digit (fuel n : Nat) {ch : UInt8} {tmp : List UInt8}
    (hch : 128 ≤ ch.toNat ↔ tmp ≠ []) :
    writeVarIntLoop (fuel + 1) (n * 128 + ch.toNat % 128) tmp =
      if n = 0 then ch :: tmp else writeVarIntLoop fuel (n - 1) (ch :: tmp) := by
  have hbyte : UInt8.ofNat ((n * 128 + ch.toNat % 128) % 128 + if tmp.isEmpty then 0 else 128) =
      ch := by
    have hlt := ch.toNat_lt
    rw [← UInt8.toNat_inj, UInt8.toNat_ofNat']
    cases tmp with
    | nil =>
      have hlow : ch.toNat < 128 := by simpa using hch
      simp only [isEmpty_nil, if_true]
      omega
    | cons b tmp =>
      have hhigh : 128 ≤ ch.toNat := by simpa using hch
      simp only [isEmpty_cons, Bool.false_eq_true, if_false]
      omega
  have hdiv : (n * 128 + ch.toNat % 128) / 128 = n := by omega
  have hle : n * 128 + ch.toNat % 128 ≤ 0x7F ↔ n = 0 := by omega
  simp only [writeVarIntLoop, hbyte, hdiv, hle]

theorem readVarIntLoop_run {bits digits n m : Nat} {before input rest : List UInt8}
    (hdigits : 7 ≤ digits) (hbits : digits ≤ bits) (hbefore : WrittenBefore n before)
    (h : readVarIntLoop (2 ^ digits - 1) n input = .ok (m, rest)) :
    m < 2 ^ digits ∧ before ++ input = writeVarInt bits m ++ rest := by
  induction input generalizing n before with
  | nil => cases h
  | cons ch input ih =>
    have hlow : ch.toNat % 128 < 128 := Nat.mod_lt _ (by decide)
    simp only [readVarIntLoop] at h
    split_ifs at h with hlarge hmore hmax
    · rw [append_cons]
      refine ih (fun fuel tmp hfuel htmp => ?_) h
      cases fuel with
      | zero => simp at hfuel
      | succ fuel =>
        have hdiv := div_lt_of_lt_pow fuel (Nat.lt_of_succ_lt hfuel)
        rw [if_neg (Nat.succ_ne_zero _), Nat.add_sub_cancel,
          writeVarIntLoop_digit fuel n (iff_of_true hmore htmp), append_assoc]
        exact hbefore fuel (ch :: tmp) (by omega) (by simp)
    · cases h
      obtain ⟨k, hk⟩ : 128 ∣ 2 ^ digits := Nat.pow_dvd_pow 2 hdigits
      have hlt : n * 128 + ch.toNat % 128 < 2 ^ digits := by
        have hpos := Nat.two_pow_pos digits
        rw [hk] at hlarge hpos ⊢
        omega
      obtain ⟨fuel, hfuel⟩ : ∃ fuel, (bits + 6) / 7 = fuel + 1 :=
        ⟨(bits + 6) / 7 - 1, by omega⟩
      have hdiv := div_lt_of_lt_pow fuel
        (hlt.trans_le (Nat.pow_le_pow_right (by decide) (by omega)))
      refine ⟨hlt, ?_⟩
      rw [writeVarInt, hfuel, writeVarIntLoop_digit fuel n (iff_of_false hmore (by simp)),
        hbefore fuel [ch] (by omega) (by simp), append_assoc, singleton_append]

/-- For an integer type of `bytes` bytes, whose values have one bit less if it is signed. -/
theorem varInt_compactSize_canonical :
    (∀ (bytes : Nat) (signed : Bool), 0 < bytes →
      let digits := 8 * bytes - signed.toNat
      (∀ n < 2 ^ digits, Reads (readVarInt digits) (writeVarInt (8 * bytes) n) n) ∧
      Canonical (readVarInt digits) (writeVarInt (8 * bytes)) ∧
      ∀ input n rest, (readVarInt digits).run input = .ok (n, rest) → n < 2 ^ digits) ∧
    (∀ n ≤ MAX_SIZE, Reads readCompactSize (writeCompactSize n) n) ∧
    Canonical readCompactSize writeCompactSize := by
  refine ⟨fun bytes signed hbytes => ?_, fun n hn => reads_compactSize hn,
    canonical_readCompactSize⟩
  intro digits
  have hsigned : signed.toNat ≤ 1 := Bool.toNat_le signed
  have hdigits : 7 ≤ digits := by omega
  have hrun : ∀ {input n rest}, (readVarInt digits).run input = .ok (n, rest) →
      n < 2 ^ digits ∧ [] ++ input = writeVarInt (8 * bytes) n ++ rest := fun h =>
    readVarIntLoop_run hdigits (Nat.sub_le _ _) (fun _ _ _ _ => rfl) h
  refine ⟨fun n hn rest => ?_, fun h => (hrun h).2, fun input n rest h => (hrun h).1⟩
  have hread := reads_varInt (by omega) hn rest
  have hsame : writeVarInt digits n = writeVarInt (8 * bytes) n :=
    append_cancel_right (hrun hread).2
  exact hsame ▸ hread

theorem varInt_compactSize_canonical_int : (readVarInt 31).run [0x81, 0x2c, 7] = .ok (300, [7]) :=
  (varInt_compactSize_canonical.1 4 true (by decide)).1 300 (by decide) [7]

end Verge
