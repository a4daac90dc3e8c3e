import Verge.Script.SoftFork
import Verge.Coins.Layer

/-!
# Script checks on the way into the memory pool

`CheckInputs` with the script execution cache, `CheckInputsFromMempoolAndCache`
and the script checks of `AcceptToMemoryPoolWorker`.  A coins view here answers
`AccessCoin`, with `none` for a spent coin.  The key of the cache is the digest of
a nonce, the witness hash and the flags.  It is taken as the transaction and the
flags themselves, which is finer: transactions of one witness hash share a key in
the source, so that no two of them may collide.  The signature checker of an input may depend on the
transaction, the input and the amount.
-/

namespace Verge

open Foundation ScriptError List Option

/-! ## Flags -/

def MANDATORY_SCRIPT_VERIFY_FLAGS : VerifyFlags := SCRIPT_VERIFY_P2SH

def STANDARD_SCRIPT_VERIFY_FLAGS : VerifyFlags :=
  MANDATORY_SCRIPT_VERIFY_FLAGS ||| SCRIPT_VERIFY_DERSIG ||| SCRIPT_VERIFY_STRICTENC |||
    SCRIPT_VERIFY_MINIMALDATA ||| SCRIPT_VERIFY_NULLDUMMY |||
    SCRIPT_VERIFY_DISCOURAGE_UPGRADABLE_NOPS ||| SCRIPT_VERIFY_MINIMALIF |||
    SCRIPT_VERIFY_NULLFAIL ||| SCRIPT_VERIFY_CHECKLOCKTIMEVERIFY |||
    SCRIPT_VERIFY_CHECKSEQUENCEVERIFY ||| SCRIPT_VERIFY_LOW_S

def STANDARD_NOT_MANDATORY_VERIFY_FLAGS : VerifyFlags :=
  STANDARD_SCRIPT_VERIFY_FLAGS &&& ~~~MANDATORY_SCRIPT_VERIFY_FLAGS

/-- What `GetBlockScriptFlags` asks about the block and the chain. -/
structure BlockScriptRules where
  nHeight : Nat
  BIP66Height : Nat
  BIP65Height : Nat
  fCSVActive : Bool
  fNullDummyEnabled : Bool

def isScriptWitnessEnabled : Bool := false

def flagIf (condition : Bool) (flag : VerifyFlags) : VerifyFlags :=
  if condition then flag else SCRIPT_VERIFY_NONE

def getBlockScriptFlags (rules : BlockScriptRules) : VerifyFlags :=
  SCRIPT_VERIFY_NONE ||| SCRIPT_VERIFY_P2SH |||
    flagIf isScriptWitnessEnabled SCRIPT_VERIFY_WITNESS |||
    flagIf (decide (rules.BIP66Height ≤ rules.nHeight)) SCRIPT_VERIFY_DERSIG |||
    flagIf (decide (rules.BIP65Height ≤ rules.nHeight)) SCRIPT_VERIFY_CHECKLOCKTIMEVERIFY |||
    flagIf rules.fCSVActive SCRIPT_VERIFY_CHECKSEQUENCEVERIFY |||
    flagIf rules.fNullDummyEnabled SCRIPT_VERIFY_NULLDUMMY

theorem getBlockScriptFlags_consistent (rules : BlockScriptRules) :
    FlagsConsistent (getBlockScriptFlags rules) ∧
      FlagsSubset (getBlockScriptFlags rules) STANDARD_SCRIPT_VERIFY_FLAGS := by
  unfold getBlockScriptFlags
  generalize decide (rules.BIP66Height ≤ rules.nHeight) = bip66
  generalize decide (rules.BIP65Height ≤ rules.nHeight) = bip65
  generalize rules.fCSVActive = csv
  generalize rules.fNullDummyEnabled = nulldummy
  revert bip66 bip65 csv nulldummy
  decide

/-! ## `CheckInputs` -/

def scriptErrorString : ScriptError → String
  | SCRIPT_ERR_EVAL_FALSE =>
    "Script evaluated without error but finished with a false/empty top stack element"
  | SCRIPT_ERR_VERIFY => "Script failed an OP_VERIFY operation"
  | SCRIPT_ERR_EQUALVERIFY => "Script failed an OP_EQUALVERIFY operation"
  | SCRIPT_ERR_CHECKMULTISIGVERIFY => "Script failed an OP_CHECKMULTISIGVERIFY operation"
  | SCRIPT_ERR_CHECKSIGVERIFY => "Script failed an OP_CHECKSIGVERIFY operation"
  | SCRIPT_ERR_NUMEQUALVERIFY => "Script failed an OP_NUMEQUALVERIFY operation"
  | SCRIPT_ERR_SCRIPT_SIZE => "Script is too big"
  | SCRIPT_ERR_PUSH_SIZE => "Push value size limit exceeded"
  | SCRIPT_ERR_OP_COUNT => "Operation limit exceeded"
  | SCRIPT_ERR_STACK_SIZE => "Stack size limit exceeded"
  | SCRIPT_ERR_SIG_COUNT => "Signature count negative or greater than pubkey count"
  | SCRIPT_ERR_PUBKEY_COUNT => "Pubkey count negative or limit exceeded"
  | SCRIPT_ERR_BAD_OPCODE => "Opcode missing or not understood"
  | SCRIPT_ERR_DISABLED_OPCODE => "Attempted to use a disabled opcode"
  | SCRIPT_ERR_INVALID_STACK_OPERATION => "Operation not valid with the current stack size"
  | SCRIPT_ERR_INVALID_ALTSTACK_OPERATION =>
    "Operation not valid with the current altstack size"
  | SCRIPT_ERR_OP_RETURN => "OP_RETURN was encountered"
  | SCRIPT_ERR_UNBALANCED_CONDITIONAL => "Invalid OP_IF construction"
  | SCRIPT_ERR_NEGATIVE_LOCKTIME => "Negative locktime"
  | SCRIPT_ERR_UNSATISFIED_LOCKTIME => "Locktime requirement not satisfied"
  | SCRIPT_ERR_SIG_HASHTYPE => "Signature hash type missing or not understood"
  | SCRIPT_ERR_SIG_DER => "Non-canonical DER signature"
  | SCRIPT_ERR_MINIMALDATA => "Data push larger than necessary"
  | SCRIPT_ERR_SIG_PUSHONLY => "Only non-push operators allowed in signatures"
  | SCRIPT_ERR_SIG_HIGH_S => "Non-canonical signature: S value is unnecessarily high"
  | SCRIPT_ERR_SIG_NULLDUMMY => "Dummy CHECKMULTISIG argument must be zero"
  | SCRIPT_ERR_MINIMALIF => "OP_IF/NOTIF argument must be minimal"
  | SCRIPT_ERR_SIG_NULLFAIL => "Signature must be zero for failed CHECK(MULTI)SIG operation"
  | SCRIPT_ERR_DISCOURAGE_UPGRADABLE_NOPS => "NOPx reserved for soft-fork upgrades"
  | SCRIPT_ERR_DISCOURAGE_UPGRADABLE_WITNESS_PROGRAM =>
    "Witness version reserved for soft-fork upgrades"
  | SCRIPT_ERR_PUBKEYTYPE => "Public key is neither compressed or uncompressed"
  | SCRIPT_ERR_CLEANSTACK => "Extra items left on stack after execution"
  | SCRIPT_ERR_WITNESS_PROGRAM_WRONG_LENGTH => "Witness program has incorrect length"
  | SCRIPT_ERR_WITNESS_PROGRAM_WITNESS_EMPTY => "Witness program was passed an empty witness"
  | SCRIPT_ERR_WITNESS_PROGRAM_MISMATCH => "Witness program hash mismatch"
  | SCRIPT_ERR_WITNESS_MALLEATED => "Witness requires empty scriptSig"
  | SCRIPT_ERR_WITNESS_MALLEATED_P2SH => "Witness requires only-redeemscript scriptSig"
  | SCRIPT_ERR_WITNESS_UNEXPECTED => "Witness provided for non-witness script"
  | SCRIPT_ERR_WITNESS_PUBKEYTYPE => "Using non-compressed keys in segwit"
  | SCRIPT_ERR_OP_CODESEPARATOR => "Using OP_CODESEPARATOR in non-witness script"
  | SCRIPT_ERR_SIG_FINDANDDELETE => "Signature is found in scriptCode"
  | SCRIPT_ERR_UNKNOWN_ERROR => "unknown error"

def REJECT_INVALID : UInt8 := 0x10

def REJECT_NONSTANDARD : UInt8 := 0x40

/-- How a check of inputs ends without success: an assertion, a verdict in the
`CValidationState`, or false without one. -/
inductive InputsFault where
  | assertion (expression : String)
  | reject (nDoS : Nat) (chRejectCode : UInt8) (strRejectReason : String)
  | missing
  deriving DecidableEq, Repr

structure ScriptEnv where
  crypto : ScriptCrypto
  checker : CTransaction → Nat → Int → BaseSignatureChecker

abbrev ScriptExecutionCache := List (CTransaction × VerifyFlags)

section CheckInputs

variable (env : ScriptEnv)

def scriptCheck (tx : CTransaction) (nIn : Nat) (txin : CTxIn) (out : CTxOut)
    (flags : VerifyFlags) : Except VerifyFault Unit :=
  verifyScript env.crypto (env.checker tx nIn out.nValue) flags txin.scriptSig out.scriptPubKey
    txin.scriptWitness

def scriptVerdict (tx : CTransaction) (nIn : Nat) (txin : CTxIn) (out : CTxOut)
    (flags : VerifyFlags) (e : ScriptError) : InputsFault :=
  let mandatory := InputsFault.reject 100 REJECT_INVALID
    ("mandatory-script-verify-flag-failed (" ++ scriptErrorString e ++ ")")
  if hasFlag flags STANDARD_NOT_MANDATORY_VERIFY_FLAGS then
    match scriptCheck env tx nIn txin out (flags &&& ~~~STANDARD_NOT_MANDATORY_VERIFY_FLAGS) with
    | .ok _ =>
      .reject 0 REJECT_NONSTANDARD
        ("non-mandatory-script-verify-flag (" ++ scriptErrorString e ++ ")")
    | .error (.assertion expression) => .assertion expression
    | .error (.serror _) => mandatory
  else mandatory

def checkInputScripts (inputs : CoinsMap) (tx : CTransaction) (flags : VerifyFlags) :
    Nat → List CTxIn → Except InputsFault Unit
  | _, [] => .ok ()
  | i, txin :: vin =>
    match inputs txin.prevout with
    | none => .error (.assertion "!coin.IsSpent()")
    | some coin =>
      match scriptCheck env tx i txin coin.out flags with
      | .ok _ => checkInputScripts inputs tx flags (i + 1) vin
      | .error (.assertion expression) => .error (.assertion expression)
      | .error (.serror e) => .error (scriptVerdict env tx i txin coin.out flags e)

/-- `CheckInputs` with script checks made at once.  A hit that may erase its entry
only lets the cache drop it later. -/
def checkInputs (cache : ScriptExecutionCache) (inputs : CoinsMap) (tx : CTransaction)
    (flags : VerifyFlags) (cacheFullScriptStore : Bool) :
    Except InputsFault Unit × ScriptExecutionCache :=
  if tx.isCoinBase then (.ok (), cache)
  else if (tx, flags) ∈ cache then (.ok (), cache)
  else
    match checkInputScripts env inputs tx flags 0 tx.vin with
    | .error fault => (.error fault, cache)
    | .ok _ => (.ok (), if cacheFullScriptStore then (tx, flags) :: cache else cache)

/-! ## The memory pool -/

/-- The comparison of one coin of the view with the pool or the coins of the tip. -/
def compareCoin (pool : uint256 → Option CTransaction) (pcoinsTip : CoinsMap) (txin : CTxIn)
    (coin : Coin) : Except InputsFault Unit :=
  match pool txin.prevout.hash with
  | some txFrom => do
    failIf (txFrom.hash != txin.prevout.hash)
      (.assertion "txFrom->GetHash() == txin.prevout.hash")
    failIf (decide (txFrom.vout.length ≤ txin.prevout.n))
      (.assertion "txFrom->vout.size() > txin.prevout.n")
    failIf (txFrom.vout[txin.prevout.n]? != some coin.out)
      (.assertion "txFrom->vout[txin.prevout.n] == coin.out")
  | none =>
    match pcoinsTip txin.prevout with
    | none => .error (.assertion "!coinFromDisk.IsSpent()")
    | some coinFromDisk =>
      failIf (coinFromDisk.out != coin.out) (.assertion "coinFromDisk.out == coin.out")

def compareCoins (view : CoinsMap) (pool : uint256 → Option CTransaction)
    (pcoinsTip : CoinsMap) : List CTxIn → Except InputsFault Unit
  | [] => .ok ()
  | txin :: vin =>
    match view txin.prevout with
    | none => .error .missing
    | some coin => do
      compareCoin pool pcoinsTip txin coin
      compareCoins view pool pcoinsTip vin

def checkInputsFromMempoolAndCache (cache : ScriptExecutionCache) (view : CoinsMap)
    (pool : uint256 → Option CTransaction) (pcoinsTip : CoinsMap) (tx : CTransaction)
    (flags : VerifyFlags) : Except InputsFault Unit × ScriptExecutionCache :=
  if tx.isCoinBase then (.error (.assertion "!tx.IsCoinBase()"), cache)
  else
    match compareCoins view pool pcoinsTip tx.vin with
    | .error fault => (.error fault, cache)
    | .ok _ => checkInputs env cache view tx flags true

inductive AcceptOutcome where
  | aborted (expression : String)
  | rejected (fault : InputsFault)
  -- "BUG! PLEASE REPORT THIS! ConnectInputs failed against latest-block but not STANDARD flags"
  | bug (fault : InputsFault)
  -- "ConnectInputs failed against MANDATORY but not STANDARD flags due to promiscuous mempool"
  | promiscuous (fault : InputsFault)
  | passed
  deriving DecidableEq, Repr

/-- `AcceptToMemoryPoolWorker` once all inputs were found: the scripts are checked with
`scriptVerifyFlags` and again with the flags of the tip. -/
def acceptScripts (cache : ScriptExecutionCache) (view : CoinsMap)
    (pool : uint256 → Option CTransaction) (pcoinsTip : CoinsMap) (tx : CTransaction)
    (scriptVerifyFlags currentBlockScriptVerifyFlags : VerifyFlags) :
    AcceptOutcome × ScriptExecutionCache :=
  if tx.isCoinBase then (.rejected (.reject 100 REJECT_INVALID "coinbase"), cache)
  else if tx.vin.any fun txin => (view txin.prevout).isNone then (.rejected .missing, cache)
  else
    match checkInputs env cache view tx scriptVerifyFlags false with
    | (.error (.assertion expression), cache) => (.aborted expression, cache)
    | (.error fault, cache) => (.rejected fault, cache)
    | (.ok _, cache) =>
      match checkInputsFromMempoolAndCache env cache view pool pcoinsTip tx
        currentBlockScriptVerifyFlags with
      | (.ok _, cache) => (.passed, cache)
      | (.error (.assertion expression), cache) => (.aborted expression, cache)
      | (.error fault, cache) =>
        if ~~~scriptVerifyFlags &&& currentBlockScriptVerifyFlags = 0 then (.bug fault, cache)
        else
          match checkInputs env cache view tx MANDATORY_SCRIPT_VERIFY_FLAGS false with
          | (.ok _, cache) => (.passed, cache)
          | (.error (.assertion expression), cache) => (.aborted expression, cache)
          | (.error fault, cache) => (.promiscuous fault, cache)

end CheckInputs

/-! ## The cache is sound -/

inductive CacheEvent where
  | check (inputs : CoinsMap) (tx : CTransaction) (flags : VerifyFlags)
      (cacheFullScriptStore : Bool)
  | evict (keep : CTransaction × VerifyFlags → Bool)

def cacheStep (env : ScriptEnv) (cache : ScriptExecutionCache) :
    CacheEvent → ScriptExecutionCache
  | .check inputs tx flags cacheFullScriptStore =>
    (checkInputs env cache inputs tx flags cacheFullScriptStore).2
  | .evict keep => cache.filter keep

def runCache (env : ScriptEnv) (events : List CacheEvent) : ScriptExecutionCache :=
  events.foldl (cacheStep env) []

def ViewAgrees (outputs : COutPoint → CTxOut) (view : CoinsMap) : Prop :=
  ∀ o coin, view o = some coin → coin.out = outputs o

def CacheEvent.Agrees (outputs : COutPoint → CTxOut) : CacheEvent → Prop
  | .check inputs _ _ _ => ViewAgrees outputs inputs
  | .evict _ => True

def InputsVerify (env : ScriptEnv) (outputs : COutPoint → CTxOut) (tx : CTransaction)
    (flags : VerifyFlags) : Prop :=
  ∀ i txin, tx.vin[i]? = some txin →
    scriptCheck env tx i txin (outputs txin.prevout) flags = .ok ()

def CacheSound (env : ScriptEnv) (outputs : COutPoint → CTxOut)
    (cache : ScriptExecutionCache) : Prop := ∀ e ∈ cache, InputsVerify env outputs e.1 e.2

section Sound

variable {env : ScriptEnv} {outputs : COutPoint → CTxOut} {cache : ScriptExecutionCache}
  {inputs : CoinsMap} {tx : CTransaction} {flags : VerifyFlags}

theorem checkInputScripts_eq_ok {i : Nat} {vin : List CTxIn} :
    checkInputScripts env inputs tx flags i vin = .ok () ↔
      ∀ j txin, vin[j]? = some txin → ∃ coin, inputs txin.prevout = some coin ∧
        scriptCheck env tx (i + j) txin coin.out flags = .ok () := by
  induction vin generalizing i with
  | nil => simp [checkInputScripts]
  | cons txin vin ih =>
    have hsplit : (∀ j t, (txin :: vin)[j]? = some t → ∃ coin, inputs t.prevout = some coin ∧
          scriptCheck env tx (i + j) t coin.out flags = .ok ()) ↔
        (∃ coin, inputs txin.prevout = some coin ∧
          scriptCheck env tx i txin coin.out flags = .ok ()) ∧
        ∀ j t, vin[j]? = some t → ∃ coin, inputs t.prevout = some coin ∧
          scriptCheck env tx (i + 1 + j) t coin.out flags = .ok () := by
      constructor
      · intro h
        refine ⟨h 0 txin rfl, fun j t ht => ?_⟩
        have := h (j + 1) t (by simpa using ht)
        rwa [Nat.add_assoc, Nat.add_comm 1 j]
      · rintro ⟨hhead, htail⟩ j t ht
        cases j with
        | zero =>
          cases ht
          exact hhead
        | succ j =>
          have := htail j t (by simpa using ht)
          rwa [Nat.add_assoc, Nat.add_comm 1 j] at this
    rw [hsplit, ← ih]
    simp only [checkInputScripts]
    split
    case h_1 hnone => simp [hnone]
    case h_2 coin hcoin =>
      simp only [hcoin, Option.some.injEq, exists_eq_left']
      cases hcheck : scriptCheck env tx i txin coin.out flags with
      | ok u => simp
      | error fault => cases fault <;> simp

section

variable (hview : ViewAgrees outputs inputs)

include hview

theorem inputsVerify_of_checkInputScripts
    (hscripts : checkInputScripts env inputs tx flags 0 tx.vin = .ok ()) :
    InputsVerify env outputs tx flags := by
  intro i txin htxin
  obtain ⟨coin, hcoin, hcheck⟩ := checkInputScripts_eq_ok.mp hscripts i txin htxin
  rwa [Nat.zero_add, hview _ _ hcoin] at hcheck

theorem inputsVerify_of_checkInputs (hcache : CacheSound env outputs cache)
    (htx : tx.isCoinBase = false) {store : Bool}
    (hok : (checkInputs env cache inputs tx flags store).1 = .ok ()) :
    InputsVerify env outputs tx flags := by
  simp only [checkInputs, htx, Bool.false_eq_true, if_false] at hok
  split at hok
  case isTrue hmem => exact hcache _ hmem
  case isFalse =>
    split at hok
    case h_1 => simp at hok
    case h_2 hscripts => exact inputsVerify_of_checkInputScripts hview hscripts

theorem checkInputs_of_inputsVerify (hhave : ∀ txin ∈ tx.vin, (inputs txin.prevout).isSome)
    (hverify : InputsVerify env outputs tx flags) (store : Bool) :
    (checkInputs env cache inputs tx flags store).1 = .ok () := by
  have hscripts : checkInputScripts env inputs tx flags 0 tx.vin = .ok () := by
    refine checkInputScripts_eq_ok.mpr fun i txin htxin => ?_
    obtain ⟨coin, hcoin⟩ := isSome_iff_exists.mp (hhave txin (mem_of_getElem? htxin))
    refine ⟨coin, hcoin, ?_⟩
    rw [Nat.zero_add, hview _ _ hcoin]
    exact hverify i txin htxin
  simp only [checkInputs, hscripts]
  split
  · rfl
  · split <;> rfl

theorem CacheSound.checkInputs (hcache : CacheSound env outputs cache) (store : Bool) :
    CacheSound env outputs (checkInputs env cache inputs tx flags store).2 := by
  simp only [Verge.checkInputs]
  split
  case isTrue => exact hcache
  split
  case isTrue => exact hcache
  split
  case h_1 => exact hcache
  case h_2 hscripts =>
    cases store with
    | false => exact hcache
    | true =>
      exact forall_mem_cons.mpr ⟨inputsVerify_of_checkInputScripts hview hscripts, hcache⟩

end

theorem cacheSound_runCache (env : ScriptEnv) {events : List CacheEvent}
    (hevents : ∀ e ∈ events, e.Agrees outputs) : CacheSound env outputs (runCache env events) := by
  have key : ∀ cache, CacheSound env outputs cache →
      CacheSound env outputs (events.foldl (cacheStep env) cache) := by
    induction events with
    | nil => exact fun _ h => h
    | cons e events ih =>
      intro cache hcache
      refine ih (fun e' he' => hevents e' (mem_cons_of_mem _ he')) _ ?_
      cases e with
      | check inputs tx flags store =>
        exact hcache.checkInputs (hevents _ mem_cons_self) store
      | evict keep => exact fun e he => hcache e (mem_of_mem_filter he)
  exact key [] (by simp [CacheSound])

/-! ## The second check -/

variable {loose strict : VerifyFlags}

theorem InputsVerify.mono (h : FlagsSubset loose strict) (hloose : FlagsConsistent loose)
    (hverify : InputsVerify env outputs tx strict) :
    InputsVerify env outputs tx loose := fun i txin htxin =>
  restricts_verifyScript h hloose () (hverify i txin htxin)

theorem flagsSubset_of_and_not (h : ~~~strict &&& loose = 0) :
    FlagsSubset loose strict := by
  refine BitVec.eq_of_getLsbD_eq fun i hi => ?_
  have hbit := congrArg (fun v : VerifyFlags => v.getLsbD i) h
  simp only [BitVec.getLsbD_and, BitVec.getLsbD_not, hi, decide_true, Bool.true_and] at hbit
  rw [BitVec.getLsbD_and]
  cases hl : loose.getLsbD i with
  | false => rfl
  | true => simpa [hl] using hbit

variable {pool : uint256 → Option CTransaction} {pcoinsTip : CoinsMap} {fault : InputsFault}

theorem assertion_of_compareCoin {txin : CTxIn} {coin : Coin}
    (h : compareCoin pool pcoinsTip txin coin = .error fault) :
    ∃ expression, fault = .assertion expression := by
  have hfail : ∀ (bad : Bool) (expression : String) (rest : Unit → Except InputsFault Unit),
      (failIf bad (.assertion expression) >>= rest) = .error fault →
        (∃ expression, fault = .assertion expression) ∨ rest () = .error fault := by
    intro bad expression rest hbind
    cases bad with
    | true =>
      cases hbind
      exact .inl ⟨_, rfl⟩
    | false => exact .inr hbind
  unfold compareCoin at h
  split at h
  case h_1 =>
    rcases hfail _ _ _ h with h | h
    · exact h
    rcases hfail _ _ _ h with h | h
    · exact h
    rcases hfail _ _ pure (by rw [bind_pure]; exact h) with h | h
    · exact h
    · cases h
  case h_2 =>
    split at h
    · cases h
      exact ⟨_, rfl⟩
    · rcases hfail _ _ pure (by rw [bind_pure]; exact h) with h | h
      · exact h
      · cases h

theorem assertion_of_compareCoins {view : CoinsMap} {vin : List CTxIn}
    (hhave : ∀ txin ∈ vin, (view txin.prevout).isSome)
    (h : compareCoins view pool pcoinsTip vin = .error fault) :
    ∃ expression, fault = .assertion expression := by
  induction vin with
  | nil => cases h
  | cons txin vin ih =>
    obtain ⟨coin, hcoin⟩ := isSome_iff_exists.mp (hhave txin mem_cons_self)
    simp only [compareCoins, hcoin] at h
    cases hcompare : compareCoin pool pcoinsTip txin coin with
    | error fault' =>
      rw [hcompare] at h
      cases h
      exact assertion_of_compareCoin hcompare
    | ok u =>
      rw [hcompare] at h
      exact ih (fun t ht => hhave t (mem_cons_of_mem _ ht)) h

variable (hloose : FlagsConsistent loose) (hcache : CacheSound env outputs cache)
  (hview : ViewAgrees outputs inputs)

include hloose hcache hview

theorem checkInputs_ok_of_strict (h : FlagsSubset loose strict)
    (hhave : ∀ txin ∈ tx.vin, (inputs txin.prevout).isSome) {store : Bool}
    (hstrict : (checkInputs env cache inputs tx strict store).1 = .ok ())
    (cache' : ScriptExecutionCache) (store' : Bool) :
    (checkInputs env cache' inputs tx loose store').1 = .ok () := by
  cases htx : tx.isCoinBase with
  | true => simp [checkInputs, htx]
  | false =>
    have hverify := inputsVerify_of_checkInputs hview hcache htx hstrict
    exact checkInputs_of_inputsVerify hview hhave (hverify.mono h hloose) store'

theorem acceptScripts_ne_bug :
    (acceptScripts env cache inputs pool pcoinsTip tx strict loose).1 ≠ .bug fault := by
  intro hbug
  simp only [acceptScripts] at hbug
  split at hbug
  case isTrue => cases hbug
  split at hbug
  case isTrue => cases hbug
  case isFalse hcoinbase hmissing =>
    have hhave : ∀ txin ∈ tx.vin, (inputs txin.prevout).isSome := by
      simpa [isNone_iff_eq_none, isSome_iff_ne_none] using hmissing
    split at hbug
    case h_1 => cases hbug
    case h_2 => cases hbug
    case h_3 u cache' hfirst =>
      have hstrict : (checkInputs env cache inputs tx strict false).1 = .ok () := by rw [hfirst]
      have hcheck : ∀ cache fault, compareCoins inputs pool pcoinsTip tx.vin = .ok () →
          FlagsSubset loose strict → (checkInputs env cache' inputs tx loose true) ≠
            (.error fault, cache) := by
        intro cache'' fault' _ hsubset heq
        have hok := checkInputs_ok_of_strict hloose hcache hview hsubset hhave hstrict cache' true
        rw [heq] at hok
        cases hok
      split at hbug
      case h_1 => cases hbug
      case h_2 => cases hbug
      case h_3 fault' cache'' hnot hsecond =>
        split at hbug
        case isFalse =>
          split at hbug <;> cases hbug
        case isTrue hflags =>
          have hsubset := flagsSubset_of_and_not hflags
          simp only [checkInputsFromMempoolAndCache, hcoinbase, Bool.false_eq_true,
            if_false] at hsecond
          split at hsecond
          case h_1 fault'' hcompare =>
            obtain ⟨expression, hassert⟩ := assertion_of_compareCoins hhave hcompare
            cases hsecond
            exact hnot expression hassert
          case h_2 hcompare => exact hcheck _ _ hcompare hsubset hsecond

end Sound

/-- Script verification flags are soft forks, so the memory pool never finds that a
transaction it has accepted fails under fewer flags. -/
theorem verifyScript_mono_flags {loose strict : VerifyFlags} (h : FlagsSubset loose strict)
    (hloose : FlagsConsistent loose) :
    (∀ crypto checker scriptSig scriptPubKey witness,
      verifyScript crypto checker strict scriptSig scriptPubKey witness = .ok () →
        verifyScript crypto checker loose scriptSig scriptPubKey witness = .ok ()) ∧
    ∀ (env : ScriptEnv) (outputs : COutPoint → CTxOut) (events : List CacheEvent)
      (view : CoinsMap) (tx : CTransaction),
      (∀ e ∈ events, e.Agrees outputs) → ViewAgrees outputs view →
      ((∀ txin ∈ tx.vin, (view txin.prevout).isSome) →
        (checkInputs env (runCache env events) view tx strict false).1 = .ok () →
          (checkInputs env (runCache env events) view tx loose true).1 = .ok ()) ∧
      ∀ pool pcoinsTip scriptVerifyFlags fault,
        (acceptScripts env (runCache env events) view pool pcoinsTip tx scriptVerifyFlags
          loose).1 ≠ .bug fault := by
  refine ⟨fun crypto checker scriptSig scriptPubKey witness => ?_, ?_⟩
  · exact restricts_verifyScript h hloose ()
  · intro env outputs events view tx hevents hview
    have hcache := cacheSound_runCache env hevents
    refine ⟨fun hhave hstrict => ?_, fun pool pcoinsTip scriptVerifyFlags fault => ?_⟩
    · exact checkInputs_ok_of_strict hloose hcache hview h hhave hstrict _ true
    · exact acceptScripts_ne_bug hloose hcache hview

def plainCrypto : ScriptCrypto := ⟨id, id, id, fun _ => true⟩

def trustingChecker : BaseSignatureChecker := ⟨fun _ _ _ _ => true, fun _ => true, fun _ => true⟩

def compressedKey : valtype := 0x02 :: List.replicate 32 7

theorem verifyScript_mono_flags_payToKey :
    verifyScript plainCrypto trustingChecker STANDARD_SCRIPT_VERIFY_FLAGS
        (pushData [] ++ pushData compressedKey)
        ([0x76, 0xa9] ++ pushData compressedKey ++ [0x88, 0xac]) [] = .ok () ∧
      verifyScript plainCrypto trustingChecker (getBlockScriptFlags ⟨5, 3, 4, true, true⟩)
        (pushData [] ++ pushData compressedKey)
        ([0x76, 0xa9] ++ pushData compressedKey ++ [0x88, 0xac]) [] = .ok () := by
  have hstandard : verifyScript plainCrypto trustingChecker STANDARD_SCRIPT_VERIFY_FLAGS
      (pushData [] ++ pushData compressedKey)
      ([0x76, 0xa9] ++ pushData compressedKey ++ [0x88, 0xac]) [] = .ok () := by decide +kernel
  have hrules := getBlockScriptFlags_consistent ⟨5, 3, 4, true, true⟩
  exact ⟨hstandard, (verifyScript_mono_flags hrules.2 hrules.1).1 _ _ _ _ _ hstandard⟩

end Verge
