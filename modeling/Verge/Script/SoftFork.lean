import Verge.Script.Interpreter

/-!
# Verification flags are soft forks

A script that verifies under some flags verifies under fewer.  Each function of
the interpreter under the larger set `strict` restricts itself under the smaller
set `loose`: the same checks are made, and some that `loose` leaves out.
-/

namespace Verge

open Foundation ScriptError

def FlagsSubset (loose strict : VerifyFlags) : Prop := loose &&& strict = loose

instance (loose strict : VerifyFlags) : Decidable (FlagsSubset loose strict) :=
  inferInstanceAs (Decidable (_ = _))

def FlagsConsistent (flags : VerifyFlags) : Prop :=
  (hasFlag flags SCRIPT_VERIFY_WITNESS → hasFlag flags SCRIPT_VERIFY_P2SH) ∧
    (hasFlag flags SCRIPT_VERIFY_CLEANSTACK →
      hasFlag flags SCRIPT_VERIFY_P2SH ∧ hasFlag flags SCRIPT_VERIFY_WITNESS)

instance (flags : VerifyFlags) : Decidable (FlagsConsistent flags) :=
  inferInstanceAs (Decidable (_ ∧ _))

section Flags

variable {loose strict : VerifyFlags} (h : FlagsSubset loose strict)

include h

theorem FlagsSubset.hasFlag {mask : VerifyFlags} (hmask : hasFlag loose mask = true) :
    hasFlag strict mask = true := by
  simp only [Verge.hasFlag, bne_iff_ne] at hmask ⊢
  intro hzero
  apply hmask
  calc loose &&& mask = loose &&& strict &&& mask := by rw [h]
    _ = loose &&& (strict &&& mask) := BitVec.and_assoc ..
    _ = 0 := by rw [hzero]; exact BitVec.and_zero

theorem FlagsSubset.failIf {mask : VerifyFlags} {bad : Bool} {e : ScriptError} :
    Restricts (failIf (Verge.hasFlag strict mask && bad) e)
      (failIf (Verge.hasFlag loose mask && bad) e) := by
  refine Restricts.failIf fun hbad => ?_
  rw [Bool.and_eq_true] at hbad ⊢
  exact ⟨h.hasFlag hbad.1, hbad.2⟩

theorem FlagsSubset.onFlag {mask : VerifyFlags} {x y : Except ScriptError Unit}
    (hxy : Restricts x y) : Restricts (onFlag strict mask x) (onFlag loose mask y) := by
  unfold Verge.onFlag
  intro u hu
  split
  case isTrue hloose =>
    rw [if_pos (h.hasFlag hloose)] at hu
    exact hxy u hu
  case isFalse => rfl

end Flags

section Interpreter

variable {loose strict : VerifyFlags} (h : FlagsSubset loose strict) {crypto : ScriptCrypto}
  {checker : BaseSignatureChecker} {sigversion : SigVersion} {vchSig vchPubKey : valtype}
  {scriptCode scriptSig scriptPubKey pc : CScript} {witness stack stackCopy : List valtype}

include h

theorem restricts_checkSignatureEncoding :
    Restricts (checkSignatureEncoding crypto strict vchSig)
      (checkSignatureEncoding crypto loose vchSig) := by
  unfold checkSignatureEncoding
  refine .ite (fun _ => .refl) fun _ => ?_
  refine .bind h.failIf fun _ => ?_
  refine .bind (h.onFlag (.refl)) fun _ => ?_
  exact h.failIf

theorem restricts_checkPubKeyEncoding :
    Restricts (checkPubKeyEncoding strict sigversion vchPubKey)
      (checkPubKeyEncoding loose sigversion vchPubKey) :=
  .bind h.failIf fun _ => h.failIf

theorem restricts_scriptNum {nMaxNumSize : Nat} {vch : valtype} :
    Restricts (scriptNum strict nMaxNumSize vch) (scriptNum loose nMaxNumSize vch) := by
  intro n hn
  simp only [scriptNum, CScriptNum.ofVch] at hn ⊢
  split at hn
  case h_2 => cases hn
  case h_1 heq =>
    split at heq
    case isTrue => cases heq
    split at heq
    case isTrue => cases heq
    case isFalse hlen hminimal =>
      have hloose : ¬(hasFlag loose SCRIPT_VERIFY_MINIMALDATA && !CScriptNum.isMinimal vch) = true := by
        intro hbad
        rw [Bool.and_eq_true] at hbad hminimal
        exact hminimal ⟨h.hasFlag hbad.1, hbad.2⟩
      rw [if_neg hlen, if_neg hloose]
      cases heq
      exact hn

namespace ScriptState

variable {s : ScriptState}

theorem restricts_checkLockTimeVerify :
    Restricts (checkLockTimeVerify checker strict s) (checkLockTimeVerify checker loose s) := by
  unfold checkLockTimeVerify
  split
  · exact .refl
  · exact .before (restricts_scriptNum h)

theorem restricts_checkSequenceVerify :
    Restricts (checkSequenceVerify checker strict s) (checkSequenceVerify checker loose s) := by
  unfold checkSequenceVerify
  split
  · exact .refl
  · exact .before (restricts_scriptNum h)

theorem restricts_opNopUnless {mask : VerifyFlags} {x y : Except ScriptError Unit}
    (hxy : Restricts x y) : Restricts (opNopUnless strict mask x s) (opNopUnless loose mask y s) :=
  .before (h.onFlag hxy)

theorem restricts_opNop : Restricts (opNop strict s) (opNop loose s) :=
  .before (.failIf h.hasFlag)

theorem restricts_opIf {negate fExec : Bool} :
    Restricts (opIf sigversion strict negate fExec s) (opIf sigversion loose negate fExec s) := by
  unfold opIf
  refine .ite (fun _ => ?_) fun _ => .refl
  split
  · exact .refl
  · exact .before h.failIf

theorem restricts_opPick {roll : Bool} :
    Restricts (opPick strict roll s) (opPick loose roll s) := by
  unfold opPick
  split
  · exact .before (restricts_scriptNum h)
  · exact .refl

theorem restricts_opUnary {f : Int → Int} :
    Restricts (opUnary strict f s) (opUnary loose f s) := by
  unfold opUnary
  split
  · exact .refl
  · exact .before (restricts_scriptNum h)

theorem restricts_opBinary {f : Int → Int → Int} :
    Restricts (opBinary strict f s) (opBinary loose f s) := by
  unfold opBinary
  split
  · refine .bind (restricts_scriptNum h) fun _ => ?_
    exact .before (restricts_scriptNum h)
  · exact .refl

theorem restricts_opWithin : Restricts (opWithin strict s) (opWithin loose s) := by
  unfold opWithin
  split
  · refine .bind (restricts_scriptNum h) fun _ => ?_
    refine .bind (restricts_scriptNum h) fun _ => ?_
    exact .before (restricts_scriptNum h)
  · exact .refl

theorem restricts_dropSignature :
    Restricts (dropSignature sigversion strict scriptCode vchSig)
      (dropSignature sigversion loose scriptCode vchSig) := by
  cases sigversion with
  | WITNESS_V0 => exact .refl
  | BASE => exact .before h.failIf

theorem restricts_opCheckSig {verify : Option ScriptError} :
    Restricts (opCheckSig crypto checker sigversion strict verify s)
      (opCheckSig crypto checker sigversion loose verify s) := by
  unfold opCheckSig
  split
  · refine .bind (restricts_dropSignature h) fun _ => ?_
    refine .bind (restricts_checkSignatureEncoding h) fun _ => ?_
    refine .bind (restricts_checkPubKeyEncoding h) fun _ => ?_
    exact .before h.failIf
  · exact .refl

theorem restricts_dropSignatures {sigs : List valtype} :
    Restricts (dropSignatures sigversion strict scriptCode sigs)
      (dropSignatures sigversion loose scriptCode sigs) := by
  induction sigs generalizing scriptCode with
  | nil => exact .refl
  | cons vchSig sigs ih => exact .bind (restricts_dropSignature h) fun _ => ih

theorem restricts_checkMultisigLoop {keys sigs : List valtype} :
    Restricts (checkMultisigLoop crypto checker sigversion strict scriptCode keys sigs)
      (checkMultisigLoop crypto checker sigversion loose scriptCode keys sigs) := by
  induction keys generalizing sigs with
  | nil => cases sigs <;> exact .refl
  | cons vchPubKey keys ih =>
    cases sigs with
    | nil => exact .refl
    | cons vchSig sigs =>
      refine .bind (restricts_checkSignatureEncoding h) fun _ => ?_
      refine .bind (restricts_checkPubKeyEncoding h) fun _ => ?_
      exact .ite (fun _ => .refl) fun _ => ih

theorem restricts_cleanUp {fSuccess : Bool} {i ikey2 : Nat} :
    Restricts (cleanUp strict fSuccess i ikey2 stack) (cleanUp loose fSuccess i ikey2 stack) := by
  induction i generalizing ikey2 stack with
  | zero => exact .refl
  | succ i ih => exact .bind h.failIf fun _ => ih

theorem restricts_opCheckMultisig {verify : Option ScriptError} :
    Restricts (opCheckMultisig crypto checker sigversion strict verify s)
      (opCheckMultisig crypto checker sigversion loose verify s) := by
  unfold opCheckMultisig
  refine .after fun _ => ?_
  refine .bind (restricts_scriptNum h) fun _ => ?_
  refine .after fun _ => .after fun _ => .after fun _ => ?_
  refine .bind (restricts_scriptNum h) fun _ => ?_
  refine .after fun _ => .after fun _ => ?_
  refine .bind (restricts_dropSignatures h) fun _ => ?_
  refine .bind (restricts_checkMultisigLoop h) fun _ => ?_
  refine .bind (restricts_cleanUp h) fun _ => ?_
  exact .before h.failIf

theorem restricts_execOp {fExec : Bool} {opcode : opcodetype} :
    Restricts (execOp crypto checker sigversion strict pc fExec s opcode)
      (execOp crypto checker sigversion loose pc fExec s opcode) := by
  cases opcode with
  | OP_CHECKLOCKTIMEVERIFY =>
    exact restricts_opNopUnless h (restricts_checkLockTimeVerify h)
  | OP_CHECKSEQUENCEVERIFY =>
    exact restricts_opNopUnless h (restricts_checkSequenceVerify h)
  | OP_NOP1 | OP_NOP4 | OP_NOP5 | OP_NOP6 | OP_NOP7 | OP_NOP8 | OP_NOP9 | OP_NOP10 =>
    exact restricts_opNop h
  | OP_IF | OP_NOTIF => exact restricts_opIf h
  | OP_PICK | OP_ROLL => exact restricts_opPick h
  | OP_1ADD | OP_1SUB | OP_NEGATE | OP_ABS | OP_NOT | OP_0NOTEQUAL =>
    exact restricts_opUnary h
  | OP_ADD | OP_SUB | OP_BOOLAND | OP_BOOLOR | OP_NUMEQUAL | OP_NUMNOTEQUAL | OP_LESSTHAN
  | OP_GREATERTHAN | OP_LESSTHANOREQUAL | OP_GREATERTHANOREQUAL | OP_MIN | OP_MAX =>
    exact restricts_opBinary h
  | OP_NUMEQUALVERIFY => exact .before (restricts_opBinary h)
  | OP_WITHIN => exact restricts_opWithin h
  | OP_CHECKSIG | OP_CHECKSIGVERIFY => exact restricts_opCheckSig h
  | OP_CHECKMULTISIG | OP_CHECKMULTISIGVERIFY =>
    exact restricts_opCheckMultisig h
  | _ => exact .refl

theorem restricts_execInstruction {opcode : UInt8} {vchPushValue : valtype} :
    Restricts (execInstruction crypto checker sigversion strict opcode vchPushValue pc s)
      (execInstruction crypto checker sigversion loose opcode vchPushValue pc s) := by
  unfold execInstruction
  refine .after fun _ => .after fun _ => .after fun _ => ?_
  refine .bind h.failIf fun _ => ?_
  refine .bind ?_ fun _ => .refl
  unfold dispatch
  refine .ite (fun _ => .before h.failIf) fun _ => ?_
  exact .ite (fun _ => restricts_execOp h) fun _ => .refl

theorem restricts_evalLoop {fuel : Nat} :
    Restricts (evalLoop crypto checker sigversion strict fuel pc s)
      (evalLoop crypto checker sigversion loose fuel pc s) := by
  induction fuel generalizing pc s with
  | zero => cases pc <;> exact .refl
  | succ fuel ih =>
    cases pc with
    | nil => exact .refl
    | cons b pc =>
      simp only [evalLoop]
      split
      · exact .refl
      · exact .bind (restricts_execInstruction h) fun _ => ih

end ScriptState

theorem restricts_evalScript {script : CScript} :
    Restricts (evalScript crypto checker strict sigversion stack script)
      (evalScript crypto checker loose sigversion stack script) := by
  unfold evalScript
  refine .after fun _ => ?_
  exact .before (ScriptState.restricts_evalLoop h)

theorem restricts_verifyWitnessProgram {witversion : Nat} {program : valtype} :
    Restricts (verifyWitnessProgram crypto checker strict witness witversion program)
      (verifyWitnessProgram crypto checker loose witness witversion program) := by
  unfold verifyWitnessProgram
  refine .ite (fun _ => ?_) fun _ => .failIf h.hasFlag
  refine .after fun _ => .after fun _ => ?_
  exact .before (restricts_evalScript h)

omit h in
theorem restricts_orFault {α : Type} {x y : Except ScriptError α} (hxy : Restricts x y) :
    Restricts (orFault x) (orFault y) := by
  intro a ha
  cases x with
  | error e => cases ha
  | ok b =>
    cases ha
    rw [hxy a rfl]
    rfl

theorem restricts_checkWitness (hwitness : hasFlag loose SCRIPT_VERIFY_WITNESS = true)
    {script expectedSig : CScript} {malleated : ScriptError} :
    Restricts
      (checkWitness crypto checker strict witness script scriptSig expectedSig malleated stack)
      (checkWitness crypto checker loose witness script scriptSig expectedSig malleated stack) := by
  unfold checkWitness
  rw [if_pos hwitness, if_pos (h.hasFlag hwitness)]
  split
  · exact .refl
  · refine .after fun _ => ?_
    exact .before (restricts_verifyWitnessProgram h)

section

variable (hp2sh : hasFlag loose SCRIPT_VERIFY_P2SH = true)
  (hwitness : hasFlag loose SCRIPT_VERIFY_WITNESS = true)

include hp2sh hwitness

theorem restricts_checkScriptHash {bare : List valtype × Bool} :
    Restricts
      (checkScriptHash crypto checker strict witness scriptSig scriptPubKey stackCopy bare)
      (checkScriptHash crypto checker loose witness scriptSig scriptPubKey stackCopy bare) := by
  unfold checkScriptHash
  rw [hp2sh, h.hasFlag hp2sh]
  refine .ite (fun _ => ?_) fun _ => .refl
  refine .after fun _ => ?_
  split
  · exact .refl
  · refine .bind (restricts_orFault (restricts_evalScript h)) fun _ => ?_
    refine .after fun _ => ?_
    exact .before (restricts_orFault (restricts_checkWitness h hwitness))

theorem restricts_checkCleanStack :
    Restricts (checkCleanStack strict stack) (checkCleanStack loose stack) := by
  unfold checkCleanStack
  rw [hwitness, hp2sh, h.hasFlag hwitness, h.hasFlag hp2sh]
  intro u hu
  split
  case isTrue hclean =>
    rw [if_pos (h.hasFlag hclean)] at hu
    exact hu
  case isFalse => rfl

theorem restricts_checkUnexpectedWitness {hadWitness : Bool} :
    Restricts (checkUnexpectedWitness strict witness hadWitness)
      (checkUnexpectedWitness loose witness hadWitness) := by
  unfold checkUnexpectedWitness
  rw [hwitness, hp2sh, h.hasFlag hwitness, h.hasFlag hp2sh]
  exact .refl

end

theorem exists_checkScriptHash_ok (hwitness : hasFlag loose SCRIPT_VERIFY_WITNESS = false)
    {bare last : List valtype × Bool}
    (hstrict : checkScriptHash crypto checker strict witness scriptSig scriptPubKey stackCopy bare =
      .ok last) (bare' : List valtype × Bool) :
    ∃ last', checkScriptHash crypto checker loose witness scriptSig scriptPubKey stackCopy bare' =
      .ok last' := by
  unfold checkScriptHash at hstrict ⊢
  split
  case isFalse => exact ⟨bare', rfl⟩
  case isTrue hloose =>
    rw [Bool.and_eq_true] at hloose
    rw [if_pos (by simp [h.hasFlag hloose.1, hloose.2])] at hstrict
    obtain ⟨_, hpush, hstrict⟩ := bind_eq_ok.mp hstrict
    rw [hpush]
    cases stackCopy with
    | nil => cases hstrict
    | cons pubKey2 stack =>
      obtain ⟨stack', heval, hstrict⟩ := bind_eq_ok.mp hstrict
      obtain ⟨_, htop, -⟩ := bind_eq_ok.mp hstrict
      have heval' := restricts_orFault (restricts_evalScript h) _ heval
      have hnone : checkWitness crypto checker loose witness pubKey2 scriptSig
          (pushData pubKey2) SCRIPT_ERR_WITNESS_MALLEATED_P2SH stack' = .ok (stack', false) := by
        unfold checkWitness
        rw [if_neg (by simp [hwitness])]
      refine ⟨(stack', bare'.2 || false), ?_⟩
      refine bind_eq_ok.mpr ⟨_, rfl, bind_eq_ok.mpr ⟨stack', heval', ?_⟩⟩
      refine bind_eq_ok.mpr ⟨_, htop, bind_eq_ok.mpr ⟨(stack', false), ?_, rfl⟩⟩
      rw [hnone]
      rfl

theorem restricts_verifyScript (hloose : FlagsConsistent loose) :
    Restricts (verifyScript crypto checker strict scriptSig scriptPubKey witness)
      (verifyScript crypto checker loose scriptSig scriptPubKey witness) := by
  unfold verifyScript
  refine .bind (restricts_orFault (h.onFlag (.refl))) fun _ => ?_
  refine .bind (restricts_orFault (restricts_evalScript h)) fun stackCopy => ?_
  refine .bind (restricts_orFault (restricts_evalScript h)) fun stack => ?_
  refine .after fun _ => ?_
  cases hwitness : hasFlag loose SCRIPT_VERIFY_WITNESS with
  | true =>
    have hp2sh := hloose.1 hwitness
    refine .bind (restricts_orFault
      (restricts_checkWitness h hwitness)) fun _ => ?_
    refine .bind (restricts_checkScriptHash h hp2sh hwitness) fun _ => ?_
    refine .bind (restricts_checkCleanStack h hp2sh hwitness) fun _ => ?_
    exact restricts_checkUnexpectedWitness h hp2sh hwitness
  | false =>
    -- `strict` may have stages that `loose` does not have
    intro u hu
    obtain ⟨bare, -, hu⟩ := bind_eq_ok.mp hu
    obtain ⟨last, hlast, -⟩ := bind_eq_ok.mp hu
    have hclean : hasFlag loose SCRIPT_VERIFY_CLEANSTACK = false := by
      cases hclean : hasFlag loose SCRIPT_VERIFY_CLEANSTACK with
      | false => rfl
      | true => simp [(hloose.2 hclean).2] at hwitness
    obtain ⟨last', hlast'⟩ :=
      exists_checkScriptHash_ok h hwitness hlast (stack, false)
    refine bind_eq_ok.mpr ⟨(stack, false), ?_, bind_eq_ok.mpr ⟨last', hlast', ?_⟩⟩
    · unfold checkWitness
      rw [if_neg (by simp [hwitness])]
      rfl
    · unfold checkCleanStack checkUnexpectedWitness
      rw [if_neg (by simp [hclean]), if_neg (by simp [hwitness])]
      rfl

end Interpreter

end Verge
