import Verge.Primitives

/-!
# Scripts

`script/script.h` and `script/script.cpp`: the opcodes, `GetScriptOp`, pushes,
`CScriptNum` and the script templates that verification asks for.  A position
in a script is the suffix from there on, so `pc` is itself a script.
-/

namespace Verge

abbrev valtype := List UInt8

def MAX_SCRIPT_ELEMENT_SIZE : Nat := 520

def MAX_OPS_PER_SCRIPT : Nat := 201

def MAX_PUBKEYS_PER_MULTISIG : Nat := 20

def MAX_STACK_SIZE : Nat := 1000

/-- The names of `opcodetype` from `OP_PUSHDATA1` on; a byte below it is a push
of that many bytes, a byte above `OP_NOP10` has no name. -/
inductive opcodetype where
  | direct (nSize : UInt8)
  | OP_PUSHDATA1 | OP_PUSHDATA2 | OP_PUSHDATA4 | OP_1NEGATE | OP_RESERVED
  | OP_1 | OP_2 | OP_3 | OP_4 | OP_5 | OP_6 | OP_7 | OP_8
  | OP_9 | OP_10 | OP_11 | OP_12 | OP_13 | OP_14 | OP_15 | OP_16
  | OP_NOP | OP_VER | OP_IF | OP_NOTIF | OP_VERIF | OP_VERNOTIF | OP_ELSE | OP_ENDIF
  | OP_VERIFY | OP_RETURN
  | OP_TOALTSTACK | OP_FROMALTSTACK | OP_2DROP | OP_2DUP | OP_3DUP | OP_2OVER | OP_2ROT
  | OP_2SWAP | OP_IFDUP | OP_DEPTH | OP_DROP | OP_DUP | OP_NIP | OP_OVER | OP_PICK
  | OP_ROLL | OP_ROT | OP_SWAP | OP_TUCK
  | OP_CAT | OP_SUBSTR | OP_LEFT | OP_RIGHT | OP_SIZE
  | OP_INVERT | OP_AND | OP_OR | OP_XOR | OP_EQUAL | OP_EQUALVERIFY | OP_RESERVED1
  | OP_RESERVED2
  | OP_1ADD | OP_1SUB | OP_2MUL | OP_2DIV | OP_NEGATE | OP_ABS | OP_NOT | OP_0NOTEQUAL
  | OP_ADD | OP_SUB | OP_MUL | OP_DIV | OP_MOD | OP_LSHIFT | OP_RSHIFT
  | OP_BOOLAND | OP_BOOLOR | OP_NUMEQUAL | OP_NUMEQUALVERIFY | OP_NUMNOTEQUAL
  | OP_LESSTHAN | OP_GREATERTHAN | OP_LESSTHANOREQUAL | OP_GREATERTHANOREQUAL
  | OP_MIN | OP_MAX | OP_WITHIN
  | OP_RIPEMD160 | OP_SHA1 | OP_SHA256 | OP_HASH160 | OP_HASH256 | OP_CODESEPARATOR
  | OP_CHECKSIG | OP_CHECKSIGVERIFY | OP_CHECKMULTISIG | OP_CHECKMULTISIGVERIFY
  | OP_NOP1 | OP_CHECKLOCKTIMEVERIFY | OP_CHECKSEQUENCEVERIFY
  | OP_NOP4 | OP_NOP5 | OP_NOP6 | OP_NOP7 | OP_NOP8 | OP_NOP9 | OP_NOP10
  | unnamed (byte : UInt8)
  deriving DecidableEq, Repr

namespace opcodetype

/-- The names in the order of their bytes, from `0x4c` to `0xb9`. -/
def names : List opcodetype :=
  [OP_PUSHDATA1, OP_PUSHDATA2, OP_PUSHDATA4, OP_1NEGATE,
    OP_RESERVED, OP_1, OP_2, OP_3, OP_4, OP_5, OP_6, OP_7, OP_8,
    OP_9, OP_10, OP_11, OP_12, OP_13, OP_14, OP_15, OP_16,
    OP_NOP, OP_VER, OP_IF, OP_NOTIF, OP_VERIF, OP_VERNOTIF, OP_ELSE, OP_ENDIF,
    OP_VERIFY, OP_RETURN,
    OP_TOALTSTACK, OP_FROMALTSTACK, OP_2DROP, OP_2DUP, OP_3DUP, OP_2OVER, OP_2ROT,
    OP_2SWAP, OP_IFDUP, OP_DEPTH, OP_DROP, OP_DUP, OP_NIP, OP_OVER, OP_PICK,
    OP_ROLL, OP_ROT, OP_SWAP, OP_TUCK,
    OP_CAT, OP_SUBSTR, OP_LEFT, OP_RIGHT, OP_SIZE,
    OP_INVERT, OP_AND, OP_OR, OP_XOR, OP_EQUAL, OP_EQUALVERIFY, OP_RESERVED1,
    OP_RESERVED2,
    OP_1ADD, OP_1SUB, OP_2MUL, OP_2DIV, OP_NEGATE, OP_ABS, OP_NOT, OP_0NOTEQUAL,
    OP_ADD, OP_SUB, OP_MUL, OP_DIV, OP_MOD, OP_LSHIFT, OP_RSHIFT,
    OP_BOOLAND, OP_BOOLOR, OP_NUMEQUAL, OP_NUMEQUALVERIFY, OP_NUMNOTEQUAL,
    OP_LESSTHAN, OP_GREATERTHAN, OP_LESSTHANOREQUAL, OP_GREATERTHANOREQUAL,
    OP_MIN, OP_MAX, OP_WITHIN,
    OP_RIPEMD160, OP_SHA1, OP_SHA256, OP_HASH160, OP_HASH256, OP_CODESEPARATOR,
    OP_CHECKSIG, OP_CHECKSIGVERIFY, OP_CHECKMULTISIG, OP_CHECKMULTISIGVERIFY,
    OP_NOP1, OP_CHECKLOCKTIMEVERIFY, OP_CHECKSEQUENCEVERIFY,
    OP_NOP4, OP_NOP5, OP_NOP6, OP_NOP7, OP_NOP8, OP_NOP9, OP_NOP10]

def ofByte (byte : UInt8) : opcodetype :=
  if byte < 0x4c then .direct byte else names.getD (byte.toNat - 0x4c) (.unnamed byte)

end opcodetype

/-- The length of the immediate operand of `opcode` and the position after the
bytes that give it. -/
def pushSize (opcode : UInt8) (pc : CScript) : Option (Nat × CScript) :=
  match opcodetype.ofByte opcode, pc with
  | .direct nSize, pc => some (nSize.toNat, pc)
  | .OP_PUSHDATA1, b0 :: pc => some (b0.toNat, pc)
  | .OP_PUSHDATA2, b0 :: b1 :: pc => some (b0.toNat + 256 * b1.toNat, pc)
  | .OP_PUSHDATA4, b0 :: b1 :: b2 :: b3 :: pc =>
    some (b0.toNat + 256 * (b1.toNat + 256 * (b2.toNat + 256 * b3.toNat)), pc)
  | _, _ => none

def getScriptOp : CScript → Option (UInt8 × valtype × CScript)
  | [] => none
  | opcode :: pc =>
    if opcode ≤ 0x4e then
      match pushSize opcode pc with
      | none => none
      | some (nSize, pc) =>
        if pc.length < nSize then none else some (opcode, pc.take nSize, pc.drop nSize)
    else some (opcode, [], pc)

theorem pushSize_length_le {opcode : UInt8} {pc pc' : CScript} {nSize : Nat}
    (h : pushSize opcode pc = some (nSize, pc')) : pc'.length ≤ pc.length := by
  unfold pushSize at h
  generalize opcodetype.ofByte opcode = op at h
  cases op with
  | direct size =>
    cases h
    exact Nat.le_refl _
  | OP_PUSHDATA1 =>
    match pc, h with
    | _ :: _, rfl => exact Nat.le_succ _
  | OP_PUSHDATA2 =>
    match pc, h with
    | _ :: _ :: _, rfl => exact Nat.le_add_right _ 2
  | OP_PUSHDATA4 =>
    match pc, h with
    | _ :: _ :: _ :: _ :: _, rfl => exact Nat.le_add_right _ 4
  | _ => cases h

theorem getScriptOp_length_lt {script pc : CScript} {opcode : UInt8} {data : valtype}
    (h : getScriptOp script = some (opcode, data, pc)) : pc.length < script.length := by
  cases script with
  | nil => simp [getScriptOp] at h
  | cons b script =>
    simp only [getScriptOp] at h
    split at h
    case isTrue _ =>
        cases hsize : pushSize b script with
        | none => simp [hsize] at h
        | some r =>
          obtain ⟨nSize, pc'⟩ := r
          have hle := pushSize_length_le hsize
          simp only [hsize] at h
          split at h
          case isTrue => simp at h
          case isFalse =>
              simp only [Option.some.injEq, Prod.mk.injEq] at h
              obtain ⟨-, -, rfl⟩ := h
              simp
              omega
    case isFalse _ =>
        simp only [Option.some.injEq, Prod.mk.injEq] at h
        obtain ⟨-, -, rfl⟩ := h
        simp

def pushData (b : valtype) : CScript :=
  if b.length < 0x4c then UInt8.ofNat b.length :: b
  else if b.length ≤ 0xff then 0x4c :: UInt8.ofNat b.length :: b
  else if b.length ≤ 0xffff then
    0x4d :: UInt8.ofNat b.length :: UInt8.ofNat (b.length / 256) :: b
  else
    0x4e :: UInt8.ofNat b.length :: UInt8.ofNat (b.length / 256) ::
      UInt8.ofNat (b.length / 65536) :: UInt8.ofNat (b.length / 16777216) :: b

theorem getScriptOp_pushData {b : valtype} (h : b.length < 0x4c) (pc : CScript) :
    getScriptOp (pushData b ++ pc) = some (UInt8.ofNat b.length, b, pc) := by
  have hnat : (UInt8.ofNat b.length).toNat = b.length := by
    simp only [UInt8.toNat_ofNat']
    omega
  have hlt : UInt8.ofNat b.length < 0x4c := by
    rw [UInt8.lt_iff_toNat_lt, hnat]
    exact h
  have hle : UInt8.ofNat b.length ≤ 0x4e := by
    rw [UInt8.le_iff_toNat_le, hnat]
    show b.length ≤ 78
    omega
  have hpush : pushSize (UInt8.ofNat b.length) (b ++ pc) = some (b.length, b ++ pc) := by
    have hop : opcodetype.ofByte (UInt8.ofNat b.length) = .direct (UInt8.ofNat b.length) :=
      if_pos hlt
    unfold pushSize
    rw [hop]
    show some ((UInt8.ofNat b.length).toNat, b ++ pc) = _
    rw [hnat]
  simp [pushData, h, getScriptOp, hle, hpush]

def littleEndian : Nat → Nat → List UInt8
  | 0, _ => []
  | fuel + 1, n => if n = 0 then [] else UInt8.ofNat n :: littleEndian fuel (n / 256)

def ofLittleEndian : List UInt8 → Nat
  | [] => 0
  | b :: bytes => b.toNat + 256 * ofLittleEndian bytes

namespace CScriptNum

def nDefaultMaxNumSize : Nat := 4

def serialize (value : Int) : valtype :=
  let result := littleEndian 8 value.natAbs
  match result.getLast? with
  | none => []
  | some top =>
    if top &&& 0x80 ≠ 0 then result ++ [if value < 0 then 0x80 else 0]
    else if value < 0 then result.dropLast ++ [top ||| 0x80]
    else result

def setVch (vch : valtype) : Int :=
  match vch.getLast? with
  | none => 0
  | some top =>
    if top &&& 0x80 ≠ 0 then
      -((ofLittleEndian (vch.dropLast ++ [top &&& 0x7f]) : Nat) : Int)
    else ofLittleEndian vch

def isMinimal (vch : valtype) : Bool :=
  match vch.reverse with
  | [] => true
  | [top] => top &&& 0x7f != 0
  | top :: next :: _ => (top &&& 0x7f != 0) || (next &&& 0x80 != 0)

/-- The constructor from a byte vector; the error is what `scriptnum_error`
carries. -/
def ofVch (vch : valtype) (fRequireMinimal : Bool) (nMaxNumSize : Nat) : Except String Int :=
  if vch.length > nMaxNumSize then .error "script number overflow"
  else if fRequireMinimal && !isMinimal vch then
    .error "non-minimally encoded script number"
  else .ok (setVch vch)

def getint (value : Int) : Int := max (-2 ^ 31) (min (2 ^ 31 - 1) value)

end CScriptNum

def isPayToScriptHash (script : CScript) : Bool :=
  script.length == 23 && script[0]? == some 0xa9 && script[1]? == some 0x14 &&
    script[22]? == some 0x87

def isWitnessProgram (script : CScript) : Option (Nat × valtype) :=
  if script.length < 4 || script.length > 42 then none
  else
    match script with
    | v :: n :: program =>
      if v ≠ 0 ∧ (v < 0x51 ∨ 0x60 < v) then none
      else if n.toNat + 2 = script.length then
        some (if v = 0 then 0 else v.toNat - 0x50, program)
      else none
    | _ => none

def isPushOnlyLoop : Nat → CScript → Bool
  | _, [] => true
  | 0, _ => false
  | fuel + 1, pc =>
    match getScriptOp pc with
    | none => false
    | some (opcode, _, pc') => decide (opcode ≤ 0x60) && isPushOnlyLoop fuel pc'

def isPushOnly (script : CScript) : Bool := isPushOnlyLoop script.length script

end Verge
