import Verge.Script.Script
import Verge.Foundation.Restricts

/-!
# The script interpreter

`EvalScript`, `VerifyWitnessProgram` and `VerifyScript` of `script/interpreter.cpp`
with every opcode.  A stack is a list with its top first.  The hash functions and
`CPubKey::CheckLowS` are parameters.
-/

namespace Verge

open Foundation

inductive ScriptError where
  | SCRIPT_ERR_UNKNOWN_ERROR | SCRIPT_ERR_EVAL_FALSE | SCRIPT_ERR_OP_RETURN
  | SCRIPT_ERR_SCRIPT_SIZE | SCRIPT_ERR_PUSH_SIZE | SCRIPT_ERR_OP_COUNT
  | SCRIPT_ERR_STACK_SIZE | SCRIPT_ERR_SIG_COUNT | SCRIPT_ERR_PUBKEY_COUNT
  | SCRIPT_ERR_VERIFY | SCRIPT_ERR_EQUALVERIFY | SCRIPT_ERR_CHECKMULTISIGVERIFY
  | SCRIPT_ERR_CHECKSIGVERIFY | SCRIPT_ERR_NUMEQUALVERIFY
  | SCRIPT_ERR_BAD_OPCODE | SCRIPT_ERR_DISABLED_OPCODE | SCRIPT_ERR_INVALID_STACK_OPERATION
  | SCRIPT_ERR_INVALID_ALTSTACK_OPERATION | SCRIPT_ERR_UNBALANCED_CONDITIONAL
  | SCRIPT_ERR_NEGATIVE_LOCKTIME | SCRIPT_ERR_UNSATISFIED_LOCKTIME
  | SCRIPT_ERR_SIG_HASHTYPE | SCRIPT_ERR_SIG_DER | SCRIPT_ERR_MINIMALDATA
  | SCRIPT_ERR_SIG_PUSHONLY | SCRIPT_ERR_SIG_HIGH_S | SCRIPT_ERR_SIG_NULLDUMMY
  | SCRIPT_ERR_PUBKEYTYPE | SCRIPT_ERR_CLEANSTACK | SCRIPT_ERR_MINIMALIF
  | SCRIPT_ERR_SIG_NULLFAIL
  | SCRIPT_ERR_DISCOURAGE_UPGRADABLE_NOPS
  | SCRIPT_ERR_DISCOURAGE_UPGRADABLE_WITNESS_PROGRAM
  | SCRIPT_ERR_WITNESS_PROGRAM_WRONG_LENGTH | SCRIPT_ERR_WITNESS_PROGRAM_WITNESS_EMPTY
  | SCRIPT_ERR_WITNESS_PROGRAM_MISMATCH | SCRIPT_ERR_WITNESS_MALLEATED
  | SCRIPT_ERR_WITNESS_MALLEATED_P2SH | SCRIPT_ERR_WITNESS_UNEXPECTED
  | SCRIPT_ERR_WITNESS_PUBKEYTYPE
  | SCRIPT_ERR_OP_CODESEPARATOR | SCRIPT_ERR_SIG_FINDANDDELETE
  deriving DecidableEq, Repr

open ScriptError

/-! ## Flags -/

abbrev VerifyFlags := BitVec 32

def SCRIPT_VERIFY_NONE : VerifyFlags := 0

def SCRIPT_VERIFY_P2SH : VerifyFlags := 1 <<< 0

def SCRIPT_VERIFY_STRICTENC : VerifyFlags := 1 <<< 1

def SCRIPT_VERIFY_DERSIG : VerifyFlags := 1 <<< 2

def SCRIPT_VERIFY_LOW_S : VerifyFlags := 1 <<< 3

def SCRIPT_VERIFY_NULLDUMMY : VerifyFlags := 1 <<< 4

def SCRIPT_VERIFY_SIGPUSHONLY : VerifyFlags := 1 <<< 5

def SCRIPT_VERIFY_MINIMALDATA : VerifyFlags := 1 <<< 6

def SCRIPT_VERIFY_DISCOURAGE_UPGRADABLE_NOPS : VerifyFlags := 1 <<< 7

def SCRIPT_VERIFY_CLEANSTACK : VerifyFlags := 1 <<< 8

def SCRIPT_VERIFY_CHECKLOCKTIMEVERIFY : VerifyFlags := 1 <<< 9

def SCRIPT_VERIFY_CHECKSEQUENCEVERIFY : VerifyFlags := 1 <<< 10

def SCRIPT_VERIFY_WITNESS : VerifyFlags := 1 <<< 11

def SCRIPT_VERIFY_DISCOURAGE_UPGRADABLE_WITNESS_PROGRAM : VerifyFlags := 1 <<< 12

def SCRIPT_VERIFY_MINIMALIF : VerifyFlags := 1 <<< 13

def SCRIPT_VERIFY_NULLFAIL : VerifyFlags := 1 <<< 14

def SCRIPT_VERIFY_WITNESS_PUBKEYTYPE : VerifyFlags := 1 <<< 15

def SCRIPT_VERIFY_CONST_SCRIPTCODE : VerifyFlags := 1 <<< 16

def hasFlag (flags mask : VerifyFlags) : Bool := flags &&& mask != 0

def onFlag (flags mask : VerifyFlags) (check : Except ScriptError Unit) :
    Except ScriptError Unit := if hasFlag flags mask then check else .ok ()

/-! ## Parameters -/

inductive SigVersion where
  | BASE
  | WITNESS_V0
  deriving DecidableEq, Repr

structure BaseSignatureChecker where
  checkSig : valtype → valtype → CScript → SigVersion → Bool
  checkLockTime : Int → Bool
  checkSequence : Int → Bool

structure ScriptCrypto where
  ripemd160 : valtype → valtype
  sha1 : valtype → valtype
  sha256 : valtype → valtype
  checkLowS : valtype → Bool

namespace ScriptCrypto

def hash160 (crypto : ScriptCrypto) (vch : valtype) : valtype :=
  crypto.ripemd160 (crypto.sha256 vch)

def hash256 (crypto : ScriptCrypto) (vch : valtype) : valtype :=
  crypto.sha256 (crypto.sha256 vch)

end ScriptCrypto

/-! ## Values -/

def castToBool : valtype → Bool
  | [] => false
  | [b] => b != 0 && b != 0x80
  | b :: vch => if b ≠ 0 then true else castToBool vch

def vchOfBool (value : Bool) : valtype := if value then [1] else []

/-! ## Encodings -/

def PUBLIC_KEY_SIZE : Nat := 65

def COMPRESSED_PUBLIC_KEY_SIZE : Nat := 33

def isCompressedOrUncompressedPubKey (vchPubKey : valtype) : Bool :=
  if vchPubKey.length < COMPRESSED_PUBLIC_KEY_SIZE then false
  else if vchPubKey.getD 0 0 = 0x04 then vchPubKey.length == PUBLIC_KEY_SIZE
  else if vchPubKey.getD 0 0 = 0x02 ∨ vchPubKey.getD 0 0 = 0x03 then
    vchPubKey.length == COMPRESSED_PUBLIC_KEY_SIZE
  else false

def isCompressedPubKey (vchPubKey : valtype) : Bool :=
  vchPubKey.length == COMPRESSED_PUBLIC_KEY_SIZE &&
    (vchPubKey.getD 0 0 == 0x02 || vchPubKey.getD 0 0 == 0x03)

def isValidSignatureEncoding (sig : valtype) : Bool :=
  let lenR := (sig.getD 3 0).toNat
  let lenS := (sig.getD (5 + lenR) 0).toNat
  if sig.length < 9 then false
  else if 73 < sig.length then false
  else if sig.getD 0 0 ≠ 0x30 then false
  else if (sig.getD 1 0).toNat ≠ sig.length - 3 then false
  else if sig.length ≤ 5 + lenR then false
  else if lenR + lenS + 7 ≠ sig.length then false
  else if sig.getD 2 0 ≠ 0x02 then false
  else if lenR = 0 then false
  else if sig.getD 4 0 &&& 0x80 ≠ 0 then false
  else if 1 < lenR ∧ sig.getD 4 0 = 0 ∧ sig.getD 5 0 &&& 0x80 = 0 then false
  else if sig.getD (lenR + 4) 0 ≠ 0x02 then false
  else if lenS = 0 then false
  else if sig.getD (lenR + 6) 0 &&& 0x80 ≠ 0 then false
  else if 1 < lenS ∧ sig.getD (lenR + 6) 0 = 0 ∧ sig.getD (lenR + 7) 0 &&& 0x80 = 0 then false
  else true

def isLowDERSignature (crypto : ScriptCrypto) (vchSig : valtype) : Except ScriptError Unit := do
  failIf (!isValidSignatureEncoding vchSig) SCRIPT_ERR_SIG_DER
  failIf (!crypto.checkLowS vchSig.dropLast) SCRIPT_ERR_SIG_HIGH_S

def SIGHASH_ALL : UInt8 := 1

def SIGHASH_SINGLE : UInt8 := 3

def SIGHASH_ANYONECANPAY : UInt8 := 0x80

def isDefinedHashtypeSignature (vchSig : valtype) : Bool :=
  match vchSig.getLast? with
  | none => false
  | some nHashType =>
    SIGHASH_ALL ≤ nHashType &&& ~~~SIGHASH_ANYONECANPAY &&
      nHashType &&& ~~~SIGHASH_ANYONECANPAY ≤ SIGHASH_SINGLE

def checkSignatureEncoding (crypto : ScriptCrypto) (flags : VerifyFlags) (vchSig : valtype) :
    Except ScriptError Unit :=
  if vchSig.length = 0 then .ok ()
  else do
    failIf (hasFlag flags (SCRIPT_VERIFY_DERSIG ||| SCRIPT_VERIFY_LOW_S |||
      SCRIPT_VERIFY_STRICTENC) && !isValidSignatureEncoding vchSig) SCRIPT_ERR_SIG_DER
    onFlag flags SCRIPT_VERIFY_LOW_S (isLowDERSignature crypto vchSig)
    failIf (hasFlag flags SCRIPT_VERIFY_STRICTENC && !isDefinedHashtypeSignature vchSig)
      SCRIPT_ERR_SIG_HASHTYPE

def checkPubKeyEncoding (flags : VerifyFlags) (sigversion : SigVersion) (vchPubKey : valtype) :
    Except ScriptError Unit := do
  failIf (hasFlag flags SCRIPT_VERIFY_STRICTENC && !isCompressedOrUncompressedPubKey vchPubKey)
    SCRIPT_ERR_PUBKEYTYPE
  failIf (hasFlag flags SCRIPT_VERIFY_WITNESS_PUBKEYTYPE &&
    (sigversion == .WITNESS_V0 && !isCompressedPubKey vchPubKey)) SCRIPT_ERR_WITNESS_PUBKEYTYPE

def checkMinimalPush (data : valtype) (opcode : UInt8) : Bool :=
  if data.length = 0 then opcode == 0x00
  else if data.length = 1 ∧ 1 ≤ data.getD 0 0 ∧ data.getD 0 0 ≤ 16 then false
  else if data.length = 1 ∧ data.getD 0 0 = 0x81 then false
  else if data.length ≤ 75 then opcode.toNat == data.length
  else if data.length ≤ 255 then opcode == 0x4c
  else if data.length ≤ 65535 then opcode == 0x4d
  else true

/-! ## `FindAndDelete` -/

def skipCopies (b : CScript) : Nat → CScript → CScript × Nat
  | 0, pc => (pc, 0)
  | fuel + 1, pc =>
    if pc.take b.length = b then
      let (pc, nFound) := skipCopies b fuel (pc.drop b.length)
      (pc, nFound + 1)
    else (pc, 0)

def findAndDeleteLoop (b : CScript) : Nat → CScript → CScript × Nat
  | 0, pc => (pc, 0)
  | fuel + 1, pc =>
    let (pc, nFound) := skipCopies b pc.length pc
    match getScriptOp pc with
    | none => (pc, nFound)
    | some (_, _, next) =>
      let (rest, nRest) := findAndDeleteLoop b fuel next
      (pc.take (pc.length - next.length) ++ rest, nFound + nRest)

def findAndDelete (script b : CScript) : CScript × Nat :=
  if b.isEmpty then (script, 0) else findAndDeleteLoop b (script.length + 1) script

/-! ## The machine -/

/-- The locals of `EvalScript`; `pbegincodehash` is the script from there on. -/
structure ScriptState where
  stack : List valtype
  altstack : List valtype
  vfExec : List Bool
  nOpCount : Nat
  pbegincodehash : CScript
  deriving DecidableEq, Repr

/-- The constructor of `CScriptNum` from a stack element; its exception is caught
at the end of `EvalScript`. -/
def scriptNum (flags : VerifyFlags) (nMaxNumSize : Nat) (vch : valtype) :
    Except ScriptError Int :=
  match CScriptNum.ofVch vch (hasFlag flags SCRIPT_VERIFY_MINIMALDATA) nMaxNumSize with
  | .ok n => .ok n
  | .error _ => .error SCRIPT_ERR_UNKNOWN_ERROR

def pushOrVerify (verify : Option ScriptError) (value : Bool) (stack : List valtype) :
    Except ScriptError (List valtype) :=
  match verify with
  | none => .ok (vchOfBool value :: stack)
  | some e => do
    failIf (!value) e
    .ok stack

namespace ScriptState

def setStack (s : ScriptState) (stack : List valtype) : ScriptState := { s with stack := stack }

/-! ### Opcodes that depend on no flag -/

def on1 (s : ScriptState) (f : valtype → List valtype → List valtype) :
    Except ScriptError ScriptState :=
  match s.stack with
  | x :: stack => .ok (s.setStack (f x stack))
  | _ => .error SCRIPT_ERR_INVALID_STACK_OPERATION

/-- A stack opcode on `(x1 x2)`, as the comments of the source write the stack. -/
def on2 (s : ScriptState) (f : valtype → valtype → List valtype → List valtype) :
    Except ScriptError ScriptState :=
  match s.stack with
  | x2 :: x1 :: stack => .ok (s.setStack (f x1 x2 stack))
  | _ => .error SCRIPT_ERR_INVALID_STACK_OPERATION

def on3 (s : ScriptState) (f : valtype → valtype → valtype → List valtype → List valtype) :
    Except ScriptError ScriptState :=
  match s.stack with
  | x3 :: x2 :: x1 :: stack => .ok (s.setStack (f x1 x2 x3 stack))
  | _ => .error SCRIPT_ERR_INVALID_STACK_OPERATION

def on4 (s : ScriptState)
    (f : valtype → valtype → valtype → valtype → List valtype → List valtype) :
    Except ScriptError ScriptState :=
  match s.stack with
  | x4 :: x3 :: x2 :: x1 :: stack => .ok (s.setStack (f x1 x2 x3 x4 stack))
  | _ => .error SCRIPT_ERR_INVALID_STACK_OPERATION

def twoRot (s : ScriptState) : Except ScriptError ScriptState :=
  match s.stack with
  | x6 :: x5 :: x4 :: x3 :: x2 :: x1 :: stack =>
    .ok (s.setStack (x2 :: x1 :: x6 :: x5 :: x4 :: x3 :: stack))
  | _ => .error SCRIPT_ERR_INVALID_STACK_OPERATION

def pushNum (s : ScriptState) (n : Int) : Except ScriptError ScriptState :=
  .ok (s.setStack (CScriptNum.serialize n :: s.stack))

def opElse (s : ScriptState) : Except ScriptError ScriptState :=
  match s.vfExec with
  | [] => .error SCRIPT_ERR_UNBALANCED_CONDITIONAL
  | fExec :: vfExec => .ok { s with vfExec := (!fExec) :: vfExec }

def opEndIf (s : ScriptState) : Except ScriptError ScriptState :=
  match s.vfExec with
  | [] => .error SCRIPT_ERR_UNBALANCED_CONDITIONAL
  | _ :: vfExec => .ok { s with vfExec := vfExec }

def opVerify (s : ScriptState) (e : ScriptError) : Except ScriptError ScriptState :=
  match s.stack with
  | [] => .error SCRIPT_ERR_INVALID_STACK_OPERATION
  | vch :: stack => if castToBool vch then .ok (s.setStack stack) else .error e

def toAltStack (s : ScriptState) : Except ScriptError ScriptState :=
  match s.stack with
  | [] => .error SCRIPT_ERR_INVALID_STACK_OPERATION
  | vch :: stack => .ok { s with stack := stack, altstack := vch :: s.altstack }

def fromAltStack (s : ScriptState) : Except ScriptError ScriptState :=
  match s.altstack with
  | [] => .error SCRIPT_ERR_INVALID_ALTSTACK_OPERATION
  | vch :: altstack => .ok { s with stack := vch :: s.stack, altstack := altstack }

def opEqual (s : ScriptState) (verify : Option ScriptError) : Except ScriptError ScriptState :=
  match s.stack with
  | vch2 :: vch1 :: stack => do
    let stack ← pushOrVerify verify (vch1 == vch2) stack
    .ok (s.setStack stack)
  | _ => .error SCRIPT_ERR_INVALID_STACK_OPERATION

/-! ### Opcodes under flags -/

section Flags

variable (crypto : ScriptCrypto) (checker : BaseSignatureChecker) (sigversion : SigVersion)
  (flags : VerifyFlags)

def SEQUENCE_LOCKTIME_DISABLE_BIT : Nat := 31

def checkLockTimeVerify (s : ScriptState) : Except ScriptError Unit :=
  match s.stack with
  | [] => .error SCRIPT_ERR_INVALID_STACK_OPERATION
  | vch :: _ => do
    let nLockTime ← scriptNum flags 5 vch
    failIf (decide (nLockTime < 0)) SCRIPT_ERR_NEGATIVE_LOCKTIME
    failIf (!checker.checkLockTime nLockTime) SCRIPT_ERR_UNSATISFIED_LOCKTIME

def checkSequenceVerify (s : ScriptState) : Except ScriptError Unit :=
  match s.stack with
  | [] => .error SCRIPT_ERR_INVALID_STACK_OPERATION
  | vch :: _ => do
    let nSequence ← scriptNum flags 5 vch
    failIf (decide (nSequence < 0)) SCRIPT_ERR_NEGATIVE_LOCKTIME
    failIf (!nSequence.toNat.testBit SEQUENCE_LOCKTIME_DISABLE_BIT &&
      !checker.checkSequence nSequence) SCRIPT_ERR_UNSATISFIED_LOCKTIME

/-- `OP_NOP2` and `OP_NOP3` where their flag is not set. -/
def opNopUnless (mask : VerifyFlags) (check : Except ScriptError Unit) (s : ScriptState) :
    Except ScriptError ScriptState := do
  onFlag flags mask check
  .ok s

def opNop (s : ScriptState) : Except ScriptError ScriptState := do
  failIf (hasFlag flags SCRIPT_VERIFY_DISCOURAGE_UPGRADABLE_NOPS)
    SCRIPT_ERR_DISCOURAGE_UPGRADABLE_NOPS
  .ok s

def opIf (negate fExec : Bool) (s : ScriptState) : Except ScriptError ScriptState :=
  if fExec then
    match s.stack with
    | [] => .error SCRIPT_ERR_UNBALANCED_CONDITIONAL
    | vch :: stack => do
      failIf (hasFlag flags SCRIPT_VERIFY_MINIMALIF && (sigversion == .WITNESS_V0 &&
        (decide (1 < vch.length) || vch.length == 1 && vch.getD 0 0 != 1)))
        SCRIPT_ERR_MINIMALIF
      .ok { s with stack := stack, vfExec := (castToBool vch != negate) :: s.vfExec }
  else .ok { s with vfExec := false :: s.vfExec }

def opPick (roll : Bool) (s : ScriptState) : Except ScriptError ScriptState :=
  match s.stack with
  | top :: next :: rest => do
    let n := CScriptNum.getint (← scriptNum flags CScriptNum.nDefaultMaxNumSize top)
    let stack := next :: rest
    failIf (decide (n < 0) || decide ((stack.length : Int) ≤ n))
      SCRIPT_ERR_INVALID_STACK_OPERATION
    let vch := stack.getD n.toNat []
    .ok (s.setStack (vch :: if roll then stack.eraseIdx n.toNat else stack))
  | _ => .error SCRIPT_ERR_INVALID_STACK_OPERATION

def opUnary (f : Int → Int) (s : ScriptState) : Except ScriptError ScriptState :=
  match s.stack with
  | [] => .error SCRIPT_ERR_INVALID_STACK_OPERATION
  | vch :: stack => do
    let bn ← scriptNum flags CScriptNum.nDefaultMaxNumSize vch
    .ok (s.setStack (CScriptNum.serialize (f bn) :: stack))

def opBinary (f : Int → Int → Int) (s : ScriptState) : Except ScriptError ScriptState :=
  match s.stack with
  | vch2 :: vch1 :: stack => do
    let bn1 ← scriptNum flags CScriptNum.nDefaultMaxNumSize vch1
    let bn2 ← scriptNum flags CScriptNum.nDefaultMaxNumSize vch2
    .ok (s.setStack (CScriptNum.serialize (f bn1 bn2) :: stack))
  | _ => .error SCRIPT_ERR_INVALID_STACK_OPERATION

def opWithin (s : ScriptState) : Except ScriptError ScriptState :=
  match s.stack with
  | vch3 :: vch2 :: vch1 :: stack => do
    let bn1 ← scriptNum flags CScriptNum.nDefaultMaxNumSize vch1
    let bn2 ← scriptNum flags CScriptNum.nDefaultMaxNumSize vch2
    let bn3 ← scriptNum flags CScriptNum.nDefaultMaxNumSize vch3
    .ok (s.setStack (vchOfBool (decide (bn2 ≤ bn1) && decide (bn1 < bn3)) :: stack))
  | _ => .error SCRIPT_ERR_INVALID_STACK_OPERATION

def dropSignature (scriptCode : CScript) (vchSig : valtype) : Except ScriptError CScript :=
  match sigversion with
  | .WITNESS_V0 => .ok scriptCode
  | .BASE => do
    failIf (hasFlag flags SCRIPT_VERIFY_CONST_SCRIPTCODE &&
      decide (0 < (findAndDelete scriptCode (pushData vchSig)).2)) SCRIPT_ERR_SIG_FINDANDDELETE
    .ok (findAndDelete scriptCode (pushData vchSig)).1

def opCheckSig (verify : Option ScriptError) (s : ScriptState) :
    Except ScriptError ScriptState :=
  match s.stack with
  | vchPubKey :: vchSig :: stack => do
    let scriptCode ← dropSignature sigversion flags s.pbegincodehash vchSig
    checkSignatureEncoding crypto flags vchSig
    checkPubKeyEncoding flags sigversion vchPubKey
    let fSuccess := checker.checkSig vchSig vchPubKey scriptCode sigversion
    failIf (hasFlag flags SCRIPT_VERIFY_NULLFAIL && (!fSuccess && vchSig.length != 0))
      SCRIPT_ERR_SIG_NULLFAIL
    let stack ← pushOrVerify verify fSuccess stack
    .ok (s.setStack stack)
  | _ => .error SCRIPT_ERR_INVALID_STACK_OPERATION

def dropSignatures (scriptCode : CScript) : List valtype → Except ScriptError CScript
  | [] => .ok scriptCode
  | vchSig :: sigs => do
    let scriptCode ← dropSignature sigversion flags scriptCode vchSig
    dropSignatures scriptCode sigs

/-- The loop over signatures and keys: a key that does not match is skipped, and
the loop ends early when more signatures than keys are left. -/
def checkMultisigLoop (scriptCode : CScript) :
    List valtype → List valtype → Except ScriptError Bool
  | _, [] => .ok true
  | [], _ :: _ => .ok false
  | vchPubKey :: keys, vchSig :: sigs => do
    checkSignatureEncoding crypto flags vchSig
    checkPubKeyEncoding flags sigversion vchPubKey
    let left :=
      if checker.checkSig vchSig vchPubKey scriptCode sigversion then sigs else vchSig :: sigs
    if keys.length < left.length then .ok false else checkMultisigLoop scriptCode keys left

/-- The pops at the end of `OP_CHECKMULTISIG`; `ikey2` elements are not signatures. -/
def cleanUp (fSuccess : Bool) : Nat → Nat → List valtype → Except ScriptError (List valtype)
  | 0, _, stack => .ok stack
  | i + 1, ikey2, stack => do
    failIf (hasFlag flags SCRIPT_VERIFY_NULLFAIL &&
      (!fSuccess && ikey2 == 0 && (stack.headD []).length != 0)) SCRIPT_ERR_SIG_NULLFAIL
    cleanUp fSuccess i (ikey2 - 1) stack.tail

def opCheckMultisig (verify : Option ScriptError) (s : ScriptState) :
    Except ScriptError ScriptState := do
  failIf (decide (s.stack.length < 1)) SCRIPT_ERR_INVALID_STACK_OPERATION
  let nKeysCount := CScriptNum.getint
    (← scriptNum flags CScriptNum.nDefaultMaxNumSize (s.stack.getD 0 []))
  failIf (decide (nKeysCount < 0) || decide ((MAX_PUBKEYS_PER_MULTISIG : Int) < nKeysCount))
    SCRIPT_ERR_PUBKEY_COUNT
  let nKeys := nKeysCount.toNat
  failIf (decide (MAX_OPS_PER_SCRIPT < s.nOpCount + nKeys)) SCRIPT_ERR_OP_COUNT
  failIf (decide (s.stack.length < 2 + nKeys)) SCRIPT_ERR_INVALID_STACK_OPERATION
  let nSigsCount := CScriptNum.getint
    (← scriptNum flags CScriptNum.nDefaultMaxNumSize (s.stack.getD (1 + nKeys) []))
  failIf (decide (nSigsCount < 0) || decide (nKeysCount < nSigsCount)) SCRIPT_ERR_SIG_COUNT
  let nSigs := nSigsCount.toNat
  failIf (decide (s.stack.length < 3 + nKeys + nSigs)) SCRIPT_ERR_INVALID_STACK_OPERATION
  let keys := (s.stack.drop 1).take nKeys
  let sigs := (s.stack.drop (2 + nKeys)).take nSigs
  let scriptCode ← dropSignatures sigversion flags s.pbegincodehash sigs
  let fSuccess ← checkMultisigLoop crypto checker sigversion flags scriptCode keys sigs
  let stack ← cleanUp flags fSuccess (2 + nKeys + nSigs) (nKeys + 2) s.stack
  -- the extra argument, of which the check above has made sure
  failIf (hasFlag flags SCRIPT_VERIFY_NULLDUMMY && (stack.headD []).length != 0)
    SCRIPT_ERR_SIG_NULLDUMMY
  let stack ← pushOrVerify verify fSuccess stack.tail
  .ok { s with stack := stack, nOpCount := s.nOpCount + nKeys }

def boolNum (b : Bool) : Int := if b then 1 else 0

/-- The `switch` of `EvalScript`; `pc` is the position after the opcode. -/
def execOp (pc : CScript) (fExec : Bool) (s : ScriptState) :
    opcodetype → Except ScriptError ScriptState
  | .OP_1NEGATE => s.pushNum (-1)
  | .OP_1 => s.pushNum 1
  | .OP_2 => s.pushNum 2
  | .OP_3 => s.pushNum 3
  | .OP_4 => s.pushNum 4
  | .OP_5 => s.pushNum 5
  | .OP_6 => s.pushNum 6
  | .OP_7 => s.pushNum 7
  | .OP_8 => s.pushNum 8
  | .OP_9 => s.pushNum 9
  | .OP_10 => s.pushNum 10
  | .OP_11 => s.pushNum 11
  | .OP_12 => s.pushNum 12
  | .OP_13 => s.pushNum 13
  | .OP_14 => s.pushNum 14
  | .OP_15 => s.pushNum 15
  | .OP_16 => s.pushNum 16
  | .OP_NOP => .ok s
  | .OP_CHECKLOCKTIMEVERIFY =>
    opNopUnless flags SCRIPT_VERIFY_CHECKLOCKTIMEVERIFY (checkLockTimeVerify checker flags s) s
  | .OP_CHECKSEQUENCEVERIFY =>
    opNopUnless flags SCRIPT_VERIFY_CHECKSEQUENCEVERIFY (checkSequenceVerify checker flags s) s
  | .OP_NOP1 | .OP_NOP4 | .OP_NOP5 | .OP_NOP6 | .OP_NOP7 | .OP_NOP8 | .OP_NOP9 | .OP_NOP10 =>
    opNop flags s
  | .OP_IF => opIf sigversion flags false fExec s
  | .OP_NOTIF => opIf sigversion flags true fExec s
  | .OP_ELSE => s.opElse
  | .OP_ENDIF => s.opEndIf
  | .OP_VERIFY => s.opVerify SCRIPT_ERR_VERIFY
  | .OP_RETURN => .error SCRIPT_ERR_OP_RETURN
  | .OP_TOALTSTACK => s.toAltStack
  | .OP_FROMALTSTACK => s.fromAltStack
  | .OP_2DROP => s.on2 fun _ _ stack => stack
  | .OP_2DUP => s.on2 fun x1 x2 stack => x2 :: x1 :: x2 :: x1 :: stack
  | .OP_3DUP => s.on3 fun x1 x2 x3 stack => x3 :: x2 :: x1 :: x3 :: x2 :: x1 :: stack
  | .OP_2OVER => s.on4 fun x1 x2 x3 x4 stack => x2 :: x1 :: x4 :: x3 :: x2 :: x1 :: stack
  | .OP_2ROT => s.twoRot
  | .OP_2SWAP => s.on4 fun x1 x2 x3 x4 stack => x2 :: x1 :: x4 :: x3 :: stack
  | .OP_IFDUP => s.on1 fun x stack => if castToBool x then x :: x :: stack else x :: stack
  | .OP_DEPTH => s.pushNum s.stack.length
  | .OP_DROP => s.on1 fun _ stack => stack
  | .OP_DUP => s.on1 fun x stack => x :: x :: stack
  | .OP_NIP => s.on2 fun _ x2 stack => x2 :: stack
  | .OP_OVER => s.on2 fun x1 x2 stack => x1 :: x2 :: x1 :: stack
  | .OP_PICK => opPick flags false s
  | .OP_ROLL => opPick flags true s
  | .OP_ROT => s.on3 fun x1 x2 x3 stack => x1 :: x3 :: x2 :: stack
  | .OP_SWAP => s.on2 fun x1 x2 stack => x1 :: x2 :: stack
  | .OP_TUCK => s.on2 fun x1 x2 stack => x2 :: x1 :: x2 :: stack
  | .OP_SIZE => s.on1 fun x stack => CScriptNum.serialize x.length :: x :: stack
  | .OP_EQUAL => s.opEqual none
  | .OP_EQUALVERIFY => s.opEqual (some SCRIPT_ERR_EQUALVERIFY)
  | .OP_1ADD => opUnary flags (· + 1) s
  | .OP_1SUB => opUnary flags (· - 1) s
  | .OP_NEGATE => opUnary flags (- ·) s
  | .OP_ABS => opUnary flags (fun bn => if bn < 0 then -bn else bn) s
  | .OP_NOT => opUnary flags (fun bn => boolNum (bn == 0)) s
  | .OP_0NOTEQUAL => opUnary flags (fun bn => boolNum (bn != 0)) s
  | .OP_ADD => opBinary flags (· + ·) s
  | .OP_SUB => opBinary flags (· - ·) s
  | .OP_BOOLAND => opBinary flags (fun bn1 bn2 => boolNum (bn1 != 0 && bn2 != 0)) s
  | .OP_BOOLOR => opBinary flags (fun bn1 bn2 => boolNum (bn1 != 0 || bn2 != 0)) s
  | .OP_NUMEQUAL => opBinary flags (fun bn1 bn2 => boolNum (bn1 == bn2)) s
  | .OP_NUMEQUALVERIFY => do
    let s ← opBinary flags (fun bn1 bn2 => boolNum (bn1 == bn2)) s
    s.opVerify SCRIPT_ERR_NUMEQUALVERIFY
  | .OP_NUMNOTEQUAL => opBinary flags (fun bn1 bn2 => boolNum (bn1 != bn2)) s
  | .OP_LESSTHAN => opBinary flags (fun bn1 bn2 => boolNum (decide (bn1 < bn2))) s
  | .OP_GREATERTHAN => opBinary flags (fun bn1 bn2 => boolNum (decide (bn2 < bn1))) s
  | .OP_LESSTHANOREQUAL => opBinary flags (fun bn1 bn2 => boolNum (decide (bn1 ≤ bn2))) s
  | .OP_GREATERTHANOREQUAL => opBinary flags (fun bn1 bn2 => boolNum (decide (bn2 ≤ bn1))) s
  | .OP_MIN => opBinary flags (fun bn1 bn2 => if bn1 < bn2 then bn1 else bn2) s
  | .OP_MAX => opBinary flags (fun bn1 bn2 => if bn2 < bn1 then bn1 else bn2) s
  | .OP_WITHIN => opWithin flags s
  | .OP_RIPEMD160 => s.on1 fun x stack => crypto.ripemd160 x :: stack
  | .OP_SHA1 => s.on1 fun x stack => crypto.sha1 x :: stack
  | .OP_SHA256 => s.on1 fun x stack => crypto.sha256 x :: stack
  | .OP_HASH160 => s.on1 fun x stack => crypto.hash160 x :: stack
  | .OP_HASH256 => s.on1 fun x stack => crypto.hash256 x :: stack
  | .OP_CODESEPARATOR => .ok { s with pbegincodehash := pc }
  | .OP_CHECKSIG => opCheckSig crypto checker sigversion flags none s
  | .OP_CHECKSIGVERIFY =>
    opCheckSig crypto checker sigversion flags (some SCRIPT_ERR_CHECKSIGVERIFY) s
  | .OP_CHECKMULTISIG => opCheckMultisig crypto checker sigversion flags none s
  | .OP_CHECKMULTISIGVERIFY =>
    opCheckMultisig crypto checker sigversion flags (some SCRIPT_ERR_CHECKMULTISIGVERIFY) s
  | _ => .error SCRIPT_ERR_BAD_OPCODE

/-! ### The loop -/

def isDisabled : opcodetype → Bool
  | .OP_CAT | .OP_SUBSTR | .OP_LEFT | .OP_RIGHT | .OP_INVERT | .OP_AND | .OP_OR | .OP_XOR
  | .OP_2MUL | .OP_2DIV | .OP_MUL | .OP_DIV | .OP_MOD | .OP_LSHIFT | .OP_RSHIFT => true
  | _ => false

def dispatch (opcode : UInt8) (vchPushValue : valtype) (pc : CScript) (s : ScriptState) :
    Except ScriptError ScriptState :=
  let fExec := s.vfExec.all id
  if fExec && decide (opcode ≤ 0x4e) then do
    failIf (hasFlag flags SCRIPT_VERIFY_MINIMALDATA && !checkMinimalPush vchPushValue opcode)
      SCRIPT_ERR_MINIMALDATA
    .ok (s.setStack (vchPushValue :: s.stack))
  else if fExec || decide (0x63 ≤ opcode ∧ opcode ≤ 0x68) then
    execOp crypto checker sigversion flags pc fExec s (opcodetype.ofByte opcode)
  else .ok s

def execInstruction (opcode : UInt8) (vchPushValue : valtype) (pc : CScript) (s : ScriptState) :
    Except ScriptError ScriptState := do
  failIf (decide (MAX_SCRIPT_ELEMENT_SIZE < vchPushValue.length)) SCRIPT_ERR_PUSH_SIZE
  let s := if 0x60 < opcode then { s with nOpCount := s.nOpCount + 1 } else s
  failIf (decide (0x60 < opcode) && decide (MAX_OPS_PER_SCRIPT < s.nOpCount)) SCRIPT_ERR_OP_COUNT
  failIf (isDisabled (opcodetype.ofByte opcode)) SCRIPT_ERR_DISABLED_OPCODE
  failIf (hasFlag flags SCRIPT_VERIFY_CONST_SCRIPTCODE &&
    (opcodetype.ofByte opcode == .OP_CODESEPARATOR && sigversion == .BASE))
    SCRIPT_ERR_OP_CODESEPARATOR
  let s ← dispatch crypto checker sigversion flags opcode vchPushValue pc s
  failIf (decide (MAX_STACK_SIZE < s.stack.length + s.altstack.length)) SCRIPT_ERR_STACK_SIZE
  .ok s

/-- The loop over the instructions; every round moves `pc` forward, so the length
of the script is enough fuel. -/
def evalLoop : Nat → CScript → ScriptState → Except ScriptError ScriptState
  | _, [], s => .ok s
  | 0, _ :: _, _ => .error SCRIPT_ERR_UNKNOWN_ERROR
  | fuel + 1, pc, s =>
    match getScriptOp pc with
    | none => .error SCRIPT_ERR_BAD_OPCODE
    | some (opcode, vchPushValue, pc) => do
      let s ← execInstruction crypto checker sigversion flags opcode vchPushValue pc s
      evalLoop fuel pc s

theorem evalLoop_fuel {fuel fuel' : Nat} {pc : CScript} (hfuel : pc.length ≤ fuel)
    (hfuel' : pc.length ≤ fuel') (s : ScriptState) :
    evalLoop crypto checker sigversion flags fuel pc s =
      evalLoop crypto checker sigversion flags fuel' pc s := by
  induction fuel generalizing fuel' pc s with
  | zero =>
    rw [List.length_eq_zero_iff.mp (Nat.le_zero.mp hfuel)]
    simp [evalLoop]
  | succ fuel ih =>
    cases pc with
    | nil => simp [evalLoop]
    | cons b pc =>
      cases fuel' with
      | zero => simp at hfuel'
      | succ fuel' =>
        simp only [evalLoop]
        split
        · rfl
        case h_2 opcode vchPushValue next hop =>
          have hlt := getScriptOp_length_lt hop
          congr 1
          funext s
          exact ih (by omega) (by omega) s

end Flags

end ScriptState

/-! ## Verification -/

section Verify

variable (crypto : ScriptCrypto) (checker : BaseSignatureChecker) (flags : VerifyFlags)

def evalScript (sigversion : SigVersion) (stack : List valtype) (script : CScript) :
    Except ScriptError (List valtype) := do
  failIf (decide (MAX_SCRIPT_SIZE < script.length)) SCRIPT_ERR_SCRIPT_SIZE
  let s ← ScriptState.evalLoop crypto checker sigversion flags script.length script
    ⟨stack, [], [], 0, script⟩
  failIf (!s.vfExec.isEmpty) SCRIPT_ERR_UNBALANCED_CONDITIONAL
  .ok s.stack

def checkTop (stack : List valtype) : Except ScriptError Unit :=
  failIf (!castToBool (stack.headD [])) SCRIPT_ERR_EVAL_FALSE

def WITNESS_V0_SCRIPTHASH_SIZE : Nat := 32

def WITNESS_V0_KEYHASH_SIZE : Nat := 20

def witnessScript (witness : List valtype) (program : valtype) :
    Except ScriptError (CScript × List valtype) :=
  if program.length = WITNESS_V0_SCRIPTHASH_SIZE then
    match witness.reverse with
    | [] => .error SCRIPT_ERR_WITNESS_PROGRAM_WITNESS_EMPTY
    | scriptPubKey :: stack => do
      failIf (crypto.sha256 scriptPubKey != program) SCRIPT_ERR_WITNESS_PROGRAM_MISMATCH
      .ok (scriptPubKey, stack)
  else if program.length = WITNESS_V0_KEYHASH_SIZE then do
    failIf (witness.length != 2) SCRIPT_ERR_WITNESS_PROGRAM_MISMATCH
    .ok ([0x76, 0xa9] ++ pushData program ++ [0x88, 0xac], witness.reverse)
  else .error SCRIPT_ERR_WITNESS_PROGRAM_WRONG_LENGTH

def verifyWitnessProgram (witness : List valtype) (witversion : Nat) (program : valtype) :
    Except ScriptError Unit :=
  if witversion = 0 then do
    let (scriptPubKey, stack) ← witnessScript crypto witness program
    failIf (stack.any fun vch => decide (MAX_SCRIPT_ELEMENT_SIZE < vch.length))
      SCRIPT_ERR_PUSH_SIZE
    let stack ← evalScript crypto checker flags .WITNESS_V0 stack scriptPubKey
    failIf (stack.length != 1) SCRIPT_ERR_CLEANSTACK
    checkTop stack
  else
    failIf (hasFlag flags SCRIPT_VERIFY_DISCOURAGE_UPGRADABLE_WITNESS_PROGRAM)
      SCRIPT_ERR_DISCOURAGE_UPGRADABLE_WITNESS_PROGRAM

/-- Why `VerifyScript` does not return true: an error code, or an assertion. -/
inductive VerifyFault where
  | serror (e : ScriptError)
  | assertion (expression : String)
  deriving DecidableEq, Repr

def orFault {α : Type} : Except ScriptError α → Except VerifyFault α
  | .ok a => .ok a
  | .error e => .error (.serror e)

def assertThat (condition : Bool) (expression : String) : Except VerifyFault Unit :=
  failIf (!condition) (.assertion expression)

/-- The check of a witness program that `script` may be: whether it was one, and the stack,
of which a witness program leaves the first element (the last of the list). -/
def checkWitness (witness : List valtype) (script scriptSig expectedSig : CScript)
    (malleated : ScriptError) (stack : List valtype) :
    Except ScriptError (List valtype × Bool) :=
  if hasFlag flags SCRIPT_VERIFY_WITNESS then
    match isWitnessProgram script with
    | none => .ok (stack, false)
    | some (witnessversion, witnessprogram) => do
      failIf (scriptSig != expectedSig) malleated
      verifyWitnessProgram crypto checker flags witness witnessversion witnessprogram
      .ok (stack.drop (stack.length - 1), true)
  else .ok (stack, false)

/-- The validation of a script hash; `bare` is what the check of a bare witness
program left. -/
def checkScriptHash (witness : List valtype) (scriptSig scriptPubKey : CScript)
    (stackCopy : List valtype) (bare : List valtype × Bool) :
    Except VerifyFault (List valtype × Bool) :=
  if hasFlag flags SCRIPT_VERIFY_P2SH && isPayToScriptHash scriptPubKey then do
    orFault (failIf (!isPushOnly scriptSig) SCRIPT_ERR_SIG_PUSHONLY)
    match stackCopy with
    | [] => .error (.assertion "!stack.empty()")
    | pubKey2 :: stack => do
      let stack ← orFault (evalScript crypto checker flags .BASE stack pubKey2)
      orFault (checkTop stack)
      let (stack, hadWitness) ← orFault (checkWitness crypto checker flags witness pubKey2
        scriptSig (pushData pubKey2) SCRIPT_ERR_WITNESS_MALLEATED_P2SH stack)
      .ok (stack, bare.2 || hadWitness)
  else .ok bare

def checkCleanStack (stack : List valtype) : Except VerifyFault Unit :=
  if hasFlag flags SCRIPT_VERIFY_CLEANSTACK then do
    assertThat (hasFlag flags SCRIPT_VERIFY_P2SH) "(flags & SCRIPT_VERIFY_P2SH) != 0"
    assertThat (hasFlag flags SCRIPT_VERIFY_WITNESS) "(flags & SCRIPT_VERIFY_WITNESS) != 0"
    failIf (stack.length != 1) (.serror SCRIPT_ERR_CLEANSTACK)
  else .ok ()

def checkUnexpectedWitness (witness : List valtype) (hadWitness : Bool) :
    Except VerifyFault Unit :=
  if hasFlag flags SCRIPT_VERIFY_WITNESS then do
    assertThat (hasFlag flags SCRIPT_VERIFY_P2SH) "(flags & SCRIPT_VERIFY_P2SH) != 0"
    failIf (!hadWitness && !witness.isEmpty) (.serror SCRIPT_ERR_WITNESS_UNEXPECTED)
  else .ok ()

def verifyScript (scriptSig scriptPubKey : CScript) (witness : List valtype) :
    Except VerifyFault Unit := do
  orFault (onFlag flags SCRIPT_VERIFY_SIGPUSHONLY
    (failIf (!isPushOnly scriptSig) SCRIPT_ERR_SIG_PUSHONLY))
  let stackCopy ← orFault (evalScript crypto checker flags .BASE [] scriptSig)
  let stack ← orFault (evalScript crypto checker flags .BASE stackCopy scriptPubKey)
  orFault (checkTop stack)
  let bare ← orFault (checkWitness crypto checker flags witness scriptPubKey scriptSig []
    SCRIPT_ERR_WITNESS_MALLEATED stack)
  let last ← checkScriptHash crypto checker flags witness scriptSig scriptPubKey stackCopy bare
  checkCleanStack flags last.1
  checkUnexpectedWitness flags witness last.2

end Verify

end Verge
