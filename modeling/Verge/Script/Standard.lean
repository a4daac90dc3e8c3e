import Verge.Script.Interpreter

/-!
# Standard scripts

`script/standard.cpp`: the templates that `Solver` knows, the destination that a
script pays to, and the script for a destination.  A key id or a script id is the
byte vector of its hash.
-/

namespace Verge

namespace CPubKey

def PUBLIC_KEY_SIZE : Nat := 65

def COMPRESSED_PUBLIC_KEY_SIZE : Nat := 33

def getLen (chHeader : UInt8) : Nat :=
  if chHeader = 2 ∨ chHeader = 3 then COMPRESSED_PUBLIC_KEY_SIZE
  else if chHeader = 4 ∨ chHeader = 6 ∨ chHeader = 7 then PUBLIC_KEY_SIZE
  else 0

/-- `CPubKey::ValidSize`, which is also `IsValid` of the key made of the bytes. -/
def validSize : valtype → Bool
  | [] => false
  | chHeader :: rest => getLen chHeader == rest.length + 1

end CPubKey

inductive txnouttype where
  | TX_PUBKEY
  | TX_PUBKEYHASH
  | TX_SCRIPTHASH
  | TX_MULTISIG
  | TX_NULL_DATA
  | TX_WITNESS_V0_KEYHASH
  | TX_WITNESS_V0_SCRIPTHASH
  | TX_WITNESS_UNKNOWN
  deriving DecidableEq, Repr

def matchPayToPubkeyOf (size : Nat) (script : CScript) : Option valtype :=
  if script.length = size + 2 ∧ script.head? = some (UInt8.ofNat size) ∧
      script.getLast? = some 0xac then some ((script.drop 1).take size)
  else none

def matchPayToPubkey (script : CScript) : Option valtype :=
  ((matchPayToPubkeyOf CPubKey.PUBLIC_KEY_SIZE script).or
    (matchPayToPubkeyOf CPubKey.COMPRESSED_PUBLIC_KEY_SIZE script)).filter CPubKey.validSize

def matchPayToPubkeyHash (script : CScript) : Option valtype :=
  if script.length = 25 ∧ script.take 3 = [0x76, 0xa9, 20] ∧ script.drop 23 = [0x88, 0xac] then
    some ((script.drop 3).take 20)
  else none

def smallInteger (opcode : UInt8) : Option Nat :=
  if 0x51 ≤ opcode ∧ opcode ≤ 0x60 then some (opcode.toNat - 0x50) else none

def multisigKeys : Nat → CScript → List valtype → Option (List valtype × UInt8 × CScript)
  | 0, _, _ => none
  | fuel + 1, pc, pubkeys =>
    match getScriptOp pc with
    | none => none
    | some (opcode, data, pc') =>
      if CPubKey.validSize data then multisigKeys fuel pc' (pubkeys ++ [data])
      else some (pubkeys, opcode, pc')

def matchMultisig (script : CScript) : Option (Nat × List valtype) :=
  if script.getLast? ≠ some 0xae then none
  else do
    let (opcode, _, pc) ← getScriptOp script
    let required ← smallInteger opcode
    let (pubkeys, last, pc') ← multisigKeys (script.length + 1) pc []
    let keys ← smallInteger last
    if pubkeys.length ≠ keys ∨ keys < required ∨ pc'.length ≠ 1 then none
    else some (required, pubkeys)

def solveWitness (version : Nat) (program : valtype) : Option (txnouttype × List valtype) :=
  if version = 0 ∧ program.length = WITNESS_V0_KEYHASH_SIZE then
    some (.TX_WITNESS_V0_KEYHASH, [program])
  else if version = 0 ∧ program.length = WITNESS_V0_SCRIPTHASH_SIZE then
    some (.TX_WITNESS_V0_SCRIPTHASH, [program])
  else if version ≠ 0 then some (.TX_WITNESS_UNKNOWN, [[UInt8.ofNat version], program])
  else none

def solver (scriptPubKey : CScript) : Option (txnouttype × List valtype) :=
  if isPayToScriptHash scriptPubKey then
    some (.TX_SCRIPTHASH, [(scriptPubKey.drop 2).take 20])
  else
    match isWitnessProgram scriptPubKey with
    | some (version, program) => solveWitness version program
    | none =>
      if scriptPubKey.head? = some OP_RETURN ∧ isPushOnly scriptPubKey.tail then
        some (.TX_NULL_DATA, [])
      else
        match matchPayToPubkey scriptPubKey with
        | some data => some (.TX_PUBKEY, [data])
        | none =>
          match matchPayToPubkeyHash scriptPubKey with
          | some data => some (.TX_PUBKEYHASH, [data])
          | none =>
            (matchMultisig scriptPubKey).map fun (required, keys) =>
              (.TX_MULTISIG, [UInt8.ofNat required] :: keys ++ [[UInt8.ofNat keys.length]])

/-- `CTxDestination` but for stealth addresses, which no script pays to. -/
inductive CTxDestination where
  | keyID (id : valtype)
  | scriptID (id : valtype)
  | witnessV0KeyHash (id : valtype)
  | witnessV0ScriptHash (id : valtype)
  | witnessUnknown (version : Nat) (program : valtype)
  deriving DecidableEq, Repr

def extractDestination (hash160 : valtype → valtype) (scriptPubKey : CScript) :
    Option CTxDestination :=
  match solver scriptPubKey with
  | some (.TX_PUBKEY, [data]) =>
    if CPubKey.validSize data then some (.keyID (hash160 data)) else none
  | some (.TX_PUBKEYHASH, [data]) => some (.keyID data)
  | some (.TX_SCRIPTHASH, [data]) => some (.scriptID data)
  | some (.TX_WITNESS_V0_KEYHASH, [data]) => some (.witnessV0KeyHash data)
  | some (.TX_WITNESS_V0_SCRIPTHASH, [data]) => some (.witnessV0ScriptHash data)
  | some (.TX_WITNESS_UNKNOWN, [[version], program]) =>
    some (.witnessUnknown version.toNat program)
  | _ => none

/-- `GetScriptForDestination` on a destination that is not a stealth address. -/
def getScriptForDestination : CTxDestination → CScript
  | .keyID id => [0x76, 0xa9] ++ pushData id ++ [0x88, 0xac]
  | .scriptID id => [0xa9] ++ pushData id ++ [0x87]
  | .witnessV0KeyHash id => 0 :: pushData id
  | .witnessV0ScriptHash id => 0 :: pushData id
  | .witnessUnknown version program =>
    (if version = 0 then 0 else UInt8.ofNat (version + 0x50)) :: pushData program

theorem isWitnessProgram_of_return {rest : CScript} :
    isWitnessProgram (OP_RETURN :: rest) = none := by
  unfold isWitnessProgram
  split
  · rfl
  · cases rest with
    | nil => rfl
    | cons n program =>
      dsimp only
      rw [if_pos (by decide)]

theorem extractDestination_of_return {hash160 : valtype → valtype} {rest : CScript}
    (h : isPushOnly rest = true) : extractDestination hash160 (OP_RETURN :: rest) = none := by
  have hsolver : solver (OP_RETURN :: rest) = some (.TX_NULL_DATA, []) := by
    unfold solver
    rw [if_neg (by simp [isPayToScriptHash, OP_RETURN]), isWitnessProgram_of_return]
    exact if_pos ⟨rfl, h⟩
  unfold extractDestination
  rw [hsolver]

theorem isPushOnly_pushData {b : valtype} (h : b.length < 0x4c) : isPushOnly (pushData b) = true := by
  have hread := getScriptOp_pushData h []
  rw [List.append_nil] at hread
  have hcons : pushData b = UInt8.ofNat b.length :: b := by
    unfold pushData
    exact if_pos h
  have hle : UInt8.ofNat b.length ≤ 0x60 := by
    rw [UInt8.le_iff_toNat_le, UInt8.toNat_ofNat']
    have : (0x60 : UInt8).toNat = 96 := rfl
    omega
  rw [hcons] at hread ⊢
  unfold isPushOnly
  rw [List.length_cons, isPushOnlyLoop]
  · rw [hread]
    simp [hle, isPushOnlyLoop]
  · simp

end Verge
