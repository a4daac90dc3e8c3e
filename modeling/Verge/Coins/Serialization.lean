import Verge.Undo

/-!
# Stored coins

`Coin::Serialize` and `Coin::Unserialize` of `coins.h`, the record under which
a coin is kept in the chain state database.  It is the record of an undo file
without the dummy version and with the time of the creating transaction, so
here nothing of the coin is lost.
-/

namespace Verge

open Foundation Reader

def Coin.serialize (secp : Secp256k1) (coin : Coin) : Option (List UInt8) :=
  if coin.isSpent then none
  else some (writeVarInt 32 coin.code ++
    (writeTxOut secp coin.out ++ writeVarInt 32 coin.nOriginTransactionTime))

def Coin.unserialize (secp : Secp256k1) : ByteReader Coin := do
  let code ← readVarInt 32
  let out ← readTxOut secp
  let nOriginTransactionTime ← readVarInt 32
  return ⟨out, code % 2 == 1, code / 2, nOriginTransactionTime⟩

theorem Coin.Storable.not_spent {coin : Coin} (h : coin.Storable) : coin.isSpent = false := by
  have hvalue := (moneyRange_iff _).mp h.value
  simp only [Coin.isSpent, CTxOut.isNull, beq_eq_false_iff_ne]
  omega

variable (secp : Secp256k1)

theorem reads_coin {coin : Coin} (h : coin.Storable) (htime : coin.nOriginTransactionTime < 2 ^ 32)
    :
    ∃ bytes, coin.serialize secp = some bytes ∧ Reads (Coin.unserialize secp) bytes coin := by
  obtain ⟨hcode, hheight, hbase⟩ := Coin.code_fields h.height
  refine ⟨_, if_neg (by simp [h.not_spent]), ?_⟩
  refine Reads.bind (reads_varInt (by decide) hcode) ?_
  refine Reads.bind (reads_txOut secp h.value h.script) ?_
  have htail := Reads.bind_pure
    (f := fun nOriginTransactionTime =>
      (⟨coin.out, coin.code % 2 == 1, coin.code / 2, nOriginTransactionTime⟩ : Coin))
    (reads_varInt (by decide) htime)
  rw [hheight, hbase] at htail ⊢
  exact htail

theorem writeScript_cases {script : CScript} (h : script.length + nSpecialScripts < 2 ^ 32) :
    (∃ k body, k < nSpecialScripts ∧ Reads (readVarInt 32) [UInt8.ofNat k] k ∧
      writeScript secp script = [UInt8.ofNat k] ++ body ∧
      decompressScript secp k body = .ok (some script)) ∨
    (Reads (readVarInt 32) (writeVarInt 32 (script.length + nSpecialScripts))
        (script.length + nSpecialScripts) ∧
      writeScript secp script =
        writeVarInt 32 (script.length + nSpecialScripts) ++ script) := by
  unfold writeScript
  cases hcompress : compressScript secp script with
  | some compr =>
    obtain ⟨k, body, hk, rfl, -, hdec⟩ := compressScript_eq_some hcompress
    have hk6 : k < 6 := hk
    refine .inl ⟨k, body, hk, ?_, rfl, hdec⟩
    rw [← @writeVarInt_small 32 k (by decide) (by omega)]
    exact reads_varInt (by decide) (by omega)
  | none => exact .inr ⟨reads_varInt (by decide) h, rfl⟩

theorem writeScript_injective {script script' : CScript}
    (h : script.length + nSpecialScripts < 2 ^ 32) (h' : script'.length + nSpecialScripts < 2 ^ 32)
    (heq : writeScript secp script = writeScript secp script') : script = script' := by
  rcases writeScript_cases secp h with ⟨k, body, hk, hread, hw, hdec⟩ | ⟨hread, hw⟩ <;>
    rcases writeScript_cases secp h' with ⟨k', body', hk', hread', hw', hdec'⟩ | ⟨hread', hw'⟩ <;>
    rw [hw, hw'] at heq <;> obtain ⟨hcode, hrest⟩ := hread.append_inj hread' heq
  · subst hcode hrest
    rw [hdec] at hdec'
    simpa using hdec'
  · omega
  · omega
  · exact hrest

theorem writeTxOut_injective {txout txout' : CTxOut} (hvalue : moneyRange txout.nValue = true)
    (hvalue' : moneyRange txout'.nValue = true)
    (hscript : txout.scriptPubKey.length + nSpecialScripts < 2 ^ 32)
    (hscript' : txout'.scriptPubKey.length + nSpecialScripts < 2 ^ 32)
    (heq : writeTxOut secp txout = writeTxOut secp txout') : txout = txout' := by
  obtain ⟨hbound, hback⟩ := toInt64_toUInt64 hvalue
  obtain ⟨hbound', hback'⟩ := toInt64_toUInt64 hvalue'
  obtain ⟨hamount, hlt⟩ := decompressAmount_compressAmount hbound
  obtain ⟨hamount', hlt'⟩ := decompressAmount_compressAmount hbound'
  obtain ⟨hcompr, hrest⟩ := (@reads_varInt 64 _ (by decide) hlt).append_inj
    (@reads_varInt 64 _ (by decide) hlt') heq
  have hnValue : txout.nValue = txout'.nValue := by
    rw [← hback, ← hback', ← hamount, ← hamount', hcompr]
  have hscripts := writeScript_injective secp hscript hscript' hrest
  obtain ⟨nValue, scriptPubKey⟩ := txout
  obtain ⟨nValue', scriptPubKey'⟩ := txout'
  simp_all

/-- Outputs and coins are read back as stored, whatever follows them, and an
encoding belongs to one output only. -/
theorem storedCoins_roundTrip (secp : Secp256k1) :
    (∀ txout : CTxOut, moneyRange txout.nValue = true →
      txout.scriptPubKey.length ≤ MAX_SCRIPT_SIZE →
      ∀ rest, (readTxOut secp).run (writeTxOut secp txout ++ rest) = .ok (txout, rest)) ∧
    (∀ coin : Coin, moneyRange coin.out.nValue = true →
      coin.out.scriptPubKey.length ≤ MAX_SCRIPT_SIZE → coin.nHeight < 2 ^ 31 →
      coin.nOriginTransactionTime < 2 ^ 32 →
      ∃ bytes, coin.serialize secp = some bytes ∧
        ∀ rest, (Coin.unserialize secp).run (bytes ++ rest) = .ok (coin, rest)) ∧
    (∀ txout txout' : CTxOut, moneyRange txout.nValue = true → moneyRange txout'.nValue = true →
      txout.scriptPubKey.length + nSpecialScripts < 2 ^ 32 →
      txout'.scriptPubKey.length + nSpecialScripts < 2 ^ 32 →
      writeTxOut secp txout = writeTxOut secp txout' → txout = txout') := by
  refine ⟨fun txout hvalue hscript => reads_txOut secp hvalue hscript, ?_, ?_⟩
  · intro coin hvalue hscript hheight htime
    exact reads_coin secp ⟨hvalue, hscript, hheight⟩ htime
  · intro txout txout' hvalue hvalue' hscript hscript'
    exact writeTxOut_injective secp hvalue hvalue' hscript hscript'

def oneKeyCurve : Secp256k1 where
  isFullyValid key := key == 0x04 :: (List.replicate 32 7 ++ List.replicate 31 8 ++ [9])
  decompress key :=
    if key = 3 :: List.replicate 32 7 then
      some (0x04 :: (List.replicate 32 7 ++ List.replicate 31 8 ++ [9]))
    else none
  decompress_of_valid := by
    intro x y last hx hy hvalid
    simp only [beq_iff_eq, List.cons.injEq, true_and] at hvalid
    obtain ⟨hxy, hlast⟩ := List.append_inj' hvalid rfl
    obtain ⟨rfl, rfl⟩ := List.append_inj hxy (by simp [hx])
    obtain rfl : last = 9 := by simpa using hlast
    rfl

def payToKey : CScript := 65 :: 0x04 :: (List.replicate 32 7 ++ List.replicate 31 8 ++
  [9, OP_CHECKSIG])

def hybridKey : CScript := 65 :: 0x06 :: (List.replicate 32 7 ++ List.replicate 31 8 ++
  [9, OP_CHECKSIG])

theorem storedCoins_roundTrip_payToKey :
    (∀ rest, (readTxOut oneKeyCurve).run
      (writeTxOut oneKeyCurve ⟨16555000000000000, payToKey⟩ ++ rest) =
        .ok (⟨16555000000000000, payToKey⟩, rest)) ∧
    (∃ bytes, (Coin.mk ⟨50, hybridKey⟩ true 2147483647 4294967295).serialize oneKeyCurve =
        some bytes ∧
      ∀ rest, (Coin.unserialize oneKeyCurve).run (bytes ++ rest) =
        .ok (⟨⟨50, hybridKey⟩, true, 2147483647, 4294967295⟩, rest)) ∧
    writeTxOut oneKeyCurve ⟨50, payToKey⟩ ≠ writeTxOut oneKeyCurve ⟨50, hybridKey⟩ := by
  obtain ⟨hout, hcoin, hinj⟩ := storedCoins_roundTrip oneKeyCurve
  refine ⟨hout _ (by decide) (by decide), hcoin _ (by decide) (by decide) (by decide) (by decide),
    fun heq => ?_⟩
  have hsame := hinj _ _ (by decide) (by decide) (by decide) (by decide) heq
  exact absurd hsame (by decide)

end Verge
