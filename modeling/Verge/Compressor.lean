import Verge.Serialize

/-!
# Compressed outputs

`compressor.cpp` and `compressor.h`: amounts, the six special scripts and
`CTxOutCompressor`.  The curve itself is not part of the repository; what the
script compressor asks of it is collected in `Secp256k1`.
-/

namespace Verge

open Foundation Reader List

/-- The loop of `CompressAmount`; the fuel is `9 - e`. -/
def compressAmountLoop : Nat → Nat → Nat → Nat × Nat
  | 0, n, e => (n, e)
  | fuel + 1, n, e =>
    if n % 10 = 0 then compressAmountLoop fuel (n / 10) (e + 1) else (n, e)

def compressAmount (n : Nat) : Nat :=
  if n = 0 then 0
  else
    let (m, e) := compressAmountLoop 9 n 0
    if e < 9 then (1 + (m / 10 * 9 + m % 10 - 1) * 10 + e) % 2 ^ 64
    else (1 + (m - 1) * 10 + 9) % 2 ^ 64

def decompressAmount (x : Nat) : Nat :=
  if x = 0 then 0
  else
    let e := (x - 1) % 10
    let x' := (x - 1) / 10
    let n := if e < 9 then x' / 9 * 10 + (x' % 9 + 1) else x' + 1
    n * 10 ^ e % 2 ^ 64

theorem compressAmountLoop_spec (fuel n e : Nat) (hn : n ≠ 0) :
    let r := compressAmountLoop fuel n e
    r.1 ≠ 0 ∧ r.1 ≤ n ∧ e ≤ r.2 ∧ r.2 ≤ e + fuel ∧ r.1 * 10 ^ (r.2 - e) = n ∧
      (r.2 < e + fuel → r.1 % 10 ≠ 0) := by
  induction fuel generalizing n e with
  | zero => simp [compressAmountLoop, hn]
  | succ fuel ih =>
    simp only [compressAmountLoop]
    by_cases h : n % 10 = 0
    · rw [if_pos h]
      obtain ⟨hne, hle, hlow, hhigh, hpow, hlast⟩ := ih (n / 10) (e + 1) (by omega)
      refine ⟨hne, by omega, by omega, by omega, ?_, fun hlt => hlast (by omega)⟩
      have hexp : (compressAmountLoop fuel (n / 10) (e + 1)).2 - e =
          (compressAmountLoop fuel (n / 10) (e + 1)).2 - (e + 1) + 1 := by omega
      rw [hexp, Nat.pow_succ, ← Nat.mul_assoc, hpow]
      omega
    · rw [if_neg h]
      exact ⟨hn, le_refl n, le_refl e, by omega, by simp, fun _ => h⟩

theorem decompressAmount_compressAmount {n : Nat} (h : n ≤ 2 ^ 59) :
    decompressAmount (compressAmount n) = n ∧ compressAmount n < 2 ^ 64 := by
  refine ⟨?_, ?_⟩
  · unfold compressAmount
    by_cases hn : n = 0
    · simp [hn, decompressAmount]
    · rw [if_neg hn]
      obtain ⟨hne, hle, -, hhigh, hpow, hlast⟩ := compressAmountLoop_spec 9 n 0 hn
      generalize compressAmountLoop 9 n 0 = r at *
      obtain ⟨m, e⟩ := r
      simp only [Nat.sub_zero, Nat.zero_add] at hpow hhigh hlast hle hne ⊢
      by_cases he : e < 9
      · have hd := hlast he
        rw [if_pos he, Nat.mod_eq_of_lt (by omega)]
        unfold decompressAmount
        have hexp : (1 + (m / 10 * 9 + m % 10 - 1) * 10 + e - 1) % 10 = e := by omega
        have hdiv : (1 + (m / 10 * 9 + m % 10 - 1) * 10 + e - 1) / 10 =
            m / 10 * 9 + m % 10 - 1 := by omega
        have hm : (m / 10 * 9 + m % 10 - 1) / 9 * 10 + ((m / 10 * 9 + m % 10 - 1) % 9 + 1) =
            m := by omega
        rw [if_neg (by omega)]
        simp only [hexp, hdiv, hm, if_pos he, hpow]
        exact Nat.mod_eq_of_lt (by omega)
      · have he9 : e = 9 := by omega
        subst he9
        rw [if_neg he, Nat.mod_eq_of_lt (by omega)]
        unfold decompressAmount
        have hexp : (1 + (m - 1) * 10 + 9 - 1) % 10 = 9 := by omega
        have hdiv : (1 + (m - 1) * 10 + 9 - 1) / 10 + 1 = m := by omega
        rw [if_neg (by omega)]
        simp only [hexp, hdiv, if_neg he, hpow]
        exact Nat.mod_eq_of_lt (by omega)
  · unfold compressAmount
    by_cases hn : n = 0
    · simp [hn]
    · rw [if_neg hn]
      dsimp only
      split <;> exact Nat.mod_lt _ (by decide)

def OP_DUP : UInt8 := 0x76

def OP_EQUAL : UInt8 := 0x87

def OP_EQUALVERIFY : UInt8 := 0x88

def OP_HASH160 : UInt8 := 0xa9

def OP_CHECKSIG : UInt8 := 0xac

/-- The curve as the compressor uses it.  A fully valid uncompressed key is
recovered from its `x` coordinate and the parity of `y`. -/
structure Secp256k1 where
  isFullyValid : List UInt8 → Bool
  decompress : List UInt8 → Option (List UInt8)
  decompress_of_valid : ∀ (x y : List UInt8) (last : UInt8), x.length = 32 → y.length = 31 →
    isFullyValid (0x04 :: (x ++ y ++ [last])) = true →
    decompress (UInt8.ofNat (2 + last.toNat % 2) :: x) = some (0x04 :: (x ++ y ++ [last]))

def isToKeyID (script : CScript) : Option (List UInt8) :=
  if script.length = 25 ∧ script[0]? = some OP_DUP ∧ script[1]? = some OP_HASH160 ∧
      script[2]? = some 20 ∧ script[23]? = some OP_EQUALVERIFY ∧
      script[24]? = some OP_CHECKSIG then
    some ((script.drop 3).take 20)
  else none

def isToScriptID (script : CScript) : Option (List UInt8) :=
  if script.length = 23 ∧ script[0]? = some OP_HASH160 ∧ script[1]? = some 20 ∧
      script[22]? = some OP_EQUAL then
    some ((script.drop 2).take 20)
  else none

def isToPubKey (secp : Secp256k1) (script : CScript) : Option (List UInt8) :=
  if script.length = 35 ∧ script[0]? = some 33 ∧ script[34]? = some OP_CHECKSIG ∧
      (script[1]? = some 0x02 ∨ script[1]? = some 0x03) then
    some ((script.drop 1).take 33)
  else if script.length = 67 ∧ script[0]? = some 65 ∧ script[66]? = some OP_CHECKSIG ∧
      script[1]? = some 0x04 then
    let pubkey := (script.drop 1).take 65
    if secp.isFullyValid pubkey then some pubkey else none
  else none

def compressPubKey (pubkey : List UInt8) : Option (List UInt8) :=
  let x := (pubkey.drop 1).take 32
  match pubkey[0]? with
  | some header =>
    if header = 0x02 ∨ header = 0x03 then some (header :: x)
    else if header = 0x04 then some ((0x04 ||| (pubkey.getD 64 0 &&& 0x01)) :: x)
    else none
  | none => none

def compressScript (secp : Secp256k1) (script : CScript) : Option (List UInt8) :=
  match isToKeyID script with
  | some keyID => some (0x00 :: keyID)
  | none =>
    match isToScriptID script with
    | some scriptID => some (0x01 :: scriptID)
    | none => (isToPubKey secp script).bind compressPubKey

def getSpecialScriptSize (nSize : Nat) : Nat :=
  if nSize = 0 ∨ nSize = 1 then 20
  else if nSize = 2 ∨ nSize = 3 ∨ nSize = 4 ∨ nSize = 5 then 32
  else 0

def decompressScript (secp : Secp256k1) (nSize : Nat) (input : List UInt8) :
    Except Failure (Option CScript) :=
  match nSize with
  | 0 => .ok (some (OP_DUP :: OP_HASH160 :: 20 :: (input ++ [OP_EQUALVERIFY, OP_CHECKSIG])))
  | 1 => .ok (some (OP_HASH160 :: 20 :: (input ++ [OP_EQUAL])))
  | 2 => .ok (some (33 :: 2 :: (input ++ [OP_CHECKSIG])))
  | 3 => .ok (some (33 :: 3 :: (input ++ [OP_CHECKSIG])))
  | 4 | 5 =>
    match secp.decompress (UInt8.ofNat (nSize - 2) :: input) with
    | none => .ok none
    | some pubkey =>
      if pubkey.length = 65 then .ok (some (65 :: (pubkey ++ [OP_CHECKSIG])))
      else .error (.assertion "pubkey.size() == 65")
  | _ => .ok none

def nSpecialScripts : Nat := 6

def writeScript (secp : Secp256k1) (script : CScript) : List UInt8 :=
  match compressScript secp script with
  | some compr => compr
  | none => writeVarInt 32 (script.length + nSpecialScripts) ++ script

/-- `CScriptCompressor::Unserialize` into an empty script. -/
def readScript (secp : Secp256k1) : ByteReader CScript := do
  let nSize ← readVarInt 32
  if nSize < nSpecialScripts then do
    let vch ← readBytes (getSpecialScriptSize nSize)
    match decompressScript secp nSize vch with
    | .error failure => fun _ => .error failure
    | .ok script => pure (script.getD [])
  else if MAX_SCRIPT_SIZE < nSize - nSpecialScripts then do
    let _ ← readBytes (nSize - nSpecialScripts)
    pure [OP_RETURN]
  else readBytes (nSize - nSpecialScripts)

private theorem drop_of_getElem? {l : List UInt8} {k : Nat} {b : UInt8}
    (h : l[k]? = some b) : l.drop k = b :: l.drop (k + 1) := by
  obtain ⟨hk, rfl⟩ := List.getElem?_eq_some_iff.mp h
  exact drop_eq_getElem_cons hk

private theorem drop_split (l : List UInt8) (k m : Nat) :
    l.drop k = (l.drop k).take m ++ l.drop (k + m) := by
  rw [← drop_drop, take_append_drop]

theorem isToKeyID_eq_some {script keyID : List UInt8} (h : isToKeyID script = some keyID) :
    script = OP_DUP :: OP_HASH160 :: 20 :: (keyID ++ [OP_EQUALVERIFY, OP_CHECKSIG]) ∧
      keyID.length = 20 := by
  unfold isToKeyID at h
  split at h
  case isFalse => cases h
  case isTrue hs =>
    obtain ⟨hlen, h0, h1, h2, h23, h24⟩ := hs
    cases h
    have hend : script.drop 25 = [] := drop_eq_nil_of_le (by omega)
    refine ⟨?_, by simp [hlen]⟩
    calc script = script.drop 0 := rfl
      _ = OP_DUP :: OP_HASH160 :: 20 :: script.drop 3 := by
          rw [drop_of_getElem? h0, drop_of_getElem? h1, drop_of_getElem? h2]
      _ = _ := by
          conv_lhs =>
            rw [drop_split script 3 20, drop_of_getElem? h23, drop_of_getElem? h24, hend]

theorem isToScriptID_eq_some {script scriptID : List UInt8}
    (h : isToScriptID script = some scriptID) :
    script = OP_HASH160 :: 20 :: (scriptID ++ [OP_EQUAL]) ∧ scriptID.length = 20 := by
  unfold isToScriptID at h
  split at h
  case isFalse => cases h
  case isTrue hs =>
    obtain ⟨hlen, h0, h1, h22⟩ := hs
    cases h
    have hend : script.drop 23 = [] := drop_eq_nil_of_le (by omega)
    refine ⟨?_, by simp [hlen]⟩
    calc script = script.drop 0 := rfl
      _ = OP_HASH160 :: 20 :: script.drop 2 := by
          rw [drop_of_getElem? h0, drop_of_getElem? h1]
      _ = _ := by
          conv_lhs => rw [drop_split script 2 20, drop_of_getElem? h22, hend]

theorem isToPubKey_eq_some {secp : Secp256k1} {script pubkey : List UInt8}
    (h : isToPubKey secp script = some pubkey) :
    (∃ header x, (header = 0x02 ∨ header = 0x03) ∧ x.length = 32 ∧ pubkey = header :: x ∧
      script = 33 :: header :: (x ++ [OP_CHECKSIG])) ∨
    (∃ x y last, x.length = 32 ∧ y.length = 31 ∧ pubkey = 0x04 :: (x ++ y ++ [last]) ∧
      secp.isFullyValid pubkey = true ∧ script = 65 :: (pubkey ++ [OP_CHECKSIG])) := by
  unfold isToPubKey at h
  split at h
  case isTrue hs =>
    obtain ⟨hlen, h0, h34, h1⟩ := hs
    cases h
    have hend : script.drop 35 = [] := drop_eq_nil_of_le (by omega)
    have hshape : ∀ header, script[1]? = some header →
        script = 33 :: header :: ((script.drop 2).take 32 ++ [OP_CHECKSIG]) ∧
          (script.drop 1).take 33 = header :: (script.drop 2).take 32 := by
      intro header hh
      refine ⟨?_, by rw [drop_of_getElem? hh]; rfl⟩
      calc script = script.drop 0 := rfl
        _ = 33 :: header :: script.drop 2 := by
            rw [drop_of_getElem? h0, drop_of_getElem? hh]
        _ = _ := by
            conv_lhs => rw [drop_split script 2 32, drop_of_getElem? h34, hend]
    rcases h1 with h1 | h1
    · exact .inl ⟨_, _, .inl rfl, by simp [hlen], (hshape _ h1).2, (hshape _ h1).1⟩
    · exact .inl ⟨_, _, .inr rfl, by simp [hlen], (hshape _ h1).2, (hshape _ h1).1⟩
  case isFalse =>
    split at h
    case isFalse => cases h
    case isTrue hs =>
      obtain ⟨hlen, h0, h66, h1⟩ := hs
      dsimp only at h
      split at h
      case isFalse => cases h
      case isTrue hvalid =>
        cases h
        have hend : script.drop 67 = [] := drop_eq_nil_of_le (by omega)
        have hlast : script[65]? = some (script.getD 65 0) := by
          rw [getD_eq_getElem?_getD, List.getElem?_eq_getElem (by omega)]
          rfl
        have hkey : (script.drop 1).take 65 =
            0x04 :: ((script.drop 2).take 32 ++ (script.drop 34).take 31 ++
              [script.getD 65 0]) := by
          rw [drop_of_getElem? h1, take_succ_cons]
          congr 1
          rw [show 64 = 32 + (31 + 1) from rfl, take_add, take_add,
            drop_drop, drop_drop, drop_of_getElem? hlast]
          simp
        refine .inr ⟨_, _, _, ?_, ?_, hkey, hvalid, ?_⟩
        · simp [hlen]
        · simp [hlen]
        · calc script = script.drop 0 := rfl
            _ = 65 :: script.drop 1 := drop_of_getElem? h0
            _ = _ := by
                conv_lhs => rw [drop_split script 1 65, drop_of_getElem? h66, hend]

private theorem parity_byte (b : UInt8) :
    (0x04 ||| (b &&& 0x01) : UInt8) = UInt8.ofNat (4 + b.toNat % 2) := by
  have hmod : (b &&& 0x01).toNat = b.toNat % 2 := by
    rw [UInt8.toNat_and]
    exact Nat.and_one_is_mod b.toNat
  have hor : (0x04 ||| (b &&& 0x01) : UInt8).toNat = 4 ||| b.toNat % 2 := by
    rw [UInt8.toNat_or, hmod]
    rfl
  apply UInt8.toNat_inj.mp
  rw [hor, UInt8.toNat_ofNat']
  rcases Nat.mod_two_eq_zero_or_one b.toNat with h | h <;> simp [h]

private theorem compressPubKey_special {secp : Secp256k1} {script pubkey : List UInt8}
    (h : isToPubKey secp script = some pubkey) :
    ∃ k body, k < nSpecialScripts ∧ compressPubKey pubkey = some (UInt8.ofNat k :: body) ∧
      body.length = getSpecialScriptSize k ∧
      decompressScript secp k body = .ok (some script) := by
  rcases isToPubKey_eq_some h with ⟨header, x, hheader, hx, rfl, rfl⟩ |
    ⟨x, y, last, hx, hy, rfl, hvalid, rfl⟩
  · have htake : List.take 32 x = x := take_of_length_le (by omega)
    rcases hheader with rfl | rfl
    · exact ⟨2, x, by decide, by simp [compressPubKey, htake], hx, rfl⟩
    · exact ⟨3, x, by decide, by simp [compressPubKey, htake], hx, rfl⟩
  · have htake : List.take 32 (x ++ y ++ [last]) = x := by
      rw [append_assoc]
      exact take_left' hx
    have hparity : (0x04 :: (x ++ y ++ [last])).getD 64 0 = last := by
      rw [getD_cons_succ, getD_eq_getElem?_getD,
        List.getElem?_append_right (by simp [hx, hy])]
      simp [hx, hy]
    have hdec := secp.decompress_of_valid x y last hx hy hvalid
    have hlen : (0x04 :: (x ++ y ++ [last]) : List UInt8).length = 65 := by simp [hx, hy]
    have hcompress : compressPubKey (0x04 :: (x ++ y ++ [last])) =
        some (UInt8.ofNat (4 + last.toNat % 2) :: x) := by
      unfold compressPubKey
      rw [hparity, parity_byte]
      simp only [List.getElem?_cons_zero, drop_succ_cons, drop_zero, htake]
      rfl
    rcases Nat.mod_two_eq_zero_or_one last.toNat with hp | hp
    · rw [hp] at hdec hcompress
      refine ⟨4, x, by decide, hcompress, hx, ?_⟩
      simp only [decompressScript]
      rw [show UInt8.ofNat (4 - 2) = UInt8.ofNat (2 + 0) from rfl, hdec]
      simp only [hlen, if_true]
    · rw [hp] at hdec hcompress
      refine ⟨5, x, by decide, hcompress, hx, ?_⟩
      simp only [decompressScript]
      rw [show UInt8.ofNat (5 - 2) = UInt8.ofNat (2 + 1) from rfl, hdec]
      simp only [hlen, if_true]

theorem compressScript_eq_some {secp : Secp256k1} {script compr : List UInt8}
    (h : compressScript secp script = some compr) :
    ∃ k body, k < nSpecialScripts ∧ compr = UInt8.ofNat k :: body ∧
      body.length = getSpecialScriptSize k ∧
      decompressScript secp k body = .ok (some script) := by
  unfold compressScript at h
  cases hkey : isToKeyID script with
  | some keyID =>
    simp only [hkey, Option.some.injEq] at h
    subst h
    obtain ⟨rfl, hlen⟩ := isToKeyID_eq_some hkey
    exact ⟨0, keyID, by decide, rfl, hlen, rfl⟩
  | none =>
    simp only [hkey] at h
    cases hid : isToScriptID script with
    | some scriptID =>
      simp only [hid, Option.some.injEq] at h
      subst h
      obtain ⟨rfl, hlen⟩ := isToScriptID_eq_some hid
      exact ⟨1, scriptID, by decide, rfl, hlen, rfl⟩
    | none =>
      simp only [hid] at h
      obtain ⟨pubkey, hpub, hcompress⟩ := Option.bind_eq_some_iff.mp h
      obtain ⟨k, body, hk, hbody, hlen, hdec⟩ := compressPubKey_special hpub
      rw [hcompress, Option.some.injEq] at hbody
      exact ⟨k, body, hk, hbody, hlen, hdec⟩

theorem reads_script (secp : Secp256k1) {script : CScript}
    (h : script.length ≤ MAX_SCRIPT_SIZE) :
    Reads (readScript secp) (writeScript secp script) script := by
  have hmax : script.length ≤ 10000 := h
  unfold writeScript readScript
  cases hcompress : compressScript secp script with
  | some compr =>
    obtain ⟨k, body, hk, rfl, hlen, hdec⟩ := compressScript_eq_some hcompress
    have hk6 : k < 6 := hk
    have hvar : Reads (readVarInt 32) [UInt8.ofNat k] k := by
      rw [← @writeVarInt_small 32 k (by decide) (by omega)]
      exact reads_varInt (by decide) (by omega)
    refine Reads.bind hvar ?_
    rw [if_pos hk, ← hlen]
    refine Reads.bind_nil (reads_take endOfData body) ?_
    simp only [hdec, Option.getD_some]
    exact reads_pure script
  | none =>
    refine Reads.bind (reads_varInt (by decide) (by simp [nSpecialScripts]; omega)) ?_
    have hsub : script.length + nSpecialScripts - nSpecialScripts = script.length := by
      omega
    rw [if_neg (by omega), hsub, if_neg (by omega)]
    exact reads_take endOfData script

def toUInt64 (nValue : Int) : Nat := (nValue % 2 ^ 64).toNat

def toInt64 (n : Nat) : Int := if n < 2 ^ 63 then n else (n : Int) - 2 ^ 64

def writeTxOut (secp : Secp256k1) (txout : CTxOut) : List UInt8 :=
  writeVarInt 64 (compressAmount (toUInt64 txout.nValue)) ++
    writeScript secp txout.scriptPubKey

def readTxOut (secp : Secp256k1) : ByteReader CTxOut := do
  let nVal ← readVarInt 64
  let scriptPubKey ← readScript secp
  return ⟨toInt64 (decompressAmount nVal), scriptPubKey⟩

theorem toInt64_toUInt64 {nValue : Int} (h : moneyRange nValue = true) :
    toUInt64 nValue ≤ 2 ^ 59 ∧ toInt64 (toUInt64 nValue) = nValue := by
  rw [moneyRange_iff, MAX_MONEY_eq] at h
  have hmod : nValue % 2 ^ 64 = nValue := Int.emod_eq_of_lt h.1 (by omega)
  unfold toUInt64 toInt64
  rw [hmod]
  constructor
  · omega
  · rw [if_pos (by omega)]
    omega

theorem reads_txOut (secp : Secp256k1) {txout : CTxOut}
    (hvalue : moneyRange txout.nValue = true)
    (hscript : txout.scriptPubKey.length ≤ MAX_SCRIPT_SIZE) :
    Reads (readTxOut secp) (writeTxOut secp txout) txout := by
  obtain ⟨hbound, hback⟩ := toInt64_toUInt64 hvalue
  obtain ⟨hamount, hlt⟩ := decompressAmount_compressAmount hbound
  have hread := Reads.bind_pure
    (f := fun scriptPubKey => CTxOut.mk (toInt64 (decompressAmount
      (compressAmount (toUInt64 txout.nValue)))) scriptPubKey)
    (reads_script secp hscript)
  rw [hamount, hback] at hread
  refine Reads.bind (reads_varInt (by decide) hlt) ?_
  rw [hamount, hback]
  exact hread

end Verge
