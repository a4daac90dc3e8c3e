import Verge.Smsg.Requests
import Verge.Smsg.SecureMessage
import Verge.Smsg.Withheld

/-!
# When an exchange adds nothing

Two nodes tell each other about one bucket.  A node asks for the contents if the other
one has more tokens than it has, expired ones included, or as many with another hash;
the answer lists the tokens that are not expired.  So an exchange can end with nothing
learned and different contents: a node with many expired tokens never asks, and the other
one asks and already has what it is shown.
-/

namespace Verge

open Foundation List

namespace SmsgNode

def tokensAt (n : SmsgNode) (time : Int) : List SecMsgToken := (n.bucketAt time).setTokens

def keysAt (n : SmsgNode) (time : Int) : List (Int × List UInt8) :=
  (n.tokensAt time).map fun token => (token.timestamp, token.sample)

def activeKeys (day : Nat) (now : Int) (n : SmsgNode) (time : Int) : List (Int × List UInt8) :=
  ((n.tokensAt time).filter fun token => !token.expired day now).map
    fun token => (token.timestamp, token.sample)

/-! ## The exchange -/

section Exchange

variable (day : Nat) (now : Int) (fValid : SecMsgToken → Bool)

def header (n : SmsgNode) (time : Int) : List SmsgCommand :=
  if (n.tokensAt time).length < 1 then []
  else [.smsgInv [⟨time, (n.tokensAt time).length, (n.bucketAt time).hash⟩]]

def handleAll : SmsgNode → List SmsgCommand → SmsgNode × List SmsgCommand
  | n, [] => (n, [])
  | n, command :: commands =>
    let (n, answer) := n.handle day now true fValid command
    let (n, rest) := handleAll n commands
    (n, answer ++ rest)

/-- The first node handles the commands, the second one the answers to them, and so on. -/
def converse : Nat → SmsgNode → SmsgNode → List SmsgCommand → SmsgNode × SmsgNode
  | 0, x, y, _ => (x, y)
  | rounds + 1, x, y, commands =>
    let (x, answers) := x.handleAll day now fValid commands
    let (y, x) := converse rounds y x answers
    (x, y)

/-- `smsgInv`, `smsgShow`, `smsgHave`, `smsgWant` and `smsgMsg` about one bucket of the
second node. -/
def pull (time : Int) (x y : SmsgNode) : SmsgNode × SmsgNode :=
  converse day now fValid 5 x y (y.header time)

def exchange (time : Int) (x y : SmsgNode) : SmsgNode × SmsgNode :=
  let (x, y) := pull day now fValid time x y
  let (y, x) := pull day now fValid time y x
  (x, y)

def Quiescent (time : Int) (x y : SmsgNode) : Prop :=
  (exchange day now fValid time x y).1.tokensAt time = x.tokensAt time ∧
    (exchange day now fValid time x y).2.tokensAt time = y.tokensAt time

def SameActive (time : Int) (x y : SmsgNode) : Prop :=
  ∀ key, key ∈ x.activeKeys day now time ↔ key ∈ y.activeKeys day now time

end Exchange

def Asks (time : Int) (x y : SmsgNode) : Prop :=
  (x.tokensAt time).length < (y.tokensAt time).length ∨
    (x.tokensAt time).length = (y.tokensAt time).length ∧
      (x.bucketAt time).hash ≠ (y.bucketAt time).hash

def Learns (day : Nat) (now time : Int) (x y : SmsgNode) : Prop :=
  Asks time x y ∧ ∃ key ∈ y.activeKeys day now time, key ∉ x.keysAt time

/-- The second node has more tokens, expired ones counted, and its unexpired ones are a
proper part of those of the first. -/
def HoldsPart (day : Nat) (now time : Int) (x y : SmsgNode) : Prop :=
  (x.tokensAt time).length < (y.tokensAt time).length ∧
    y.activeKeys day now time ⊆ x.activeKeys day now time ∧
    ∃ key ∈ x.activeKeys day now time, key ∉ y.activeKeys day now time

instance (day : Nat) (now : Int) (fValid : SecMsgToken → Bool) (time : Int) (x y : SmsgNode) :
    Decidable (Quiescent day now fValid time x y) :=
  inferInstanceAs (Decidable (_ ∧ _))

/-! ## Storing -/

variable {day : Nat} {now time : Int} {fValid : SecMsgToken → Bool} {n x y : SmsgNode}

theorem tokensAt_setBucket (n : SmsgNode) (time t : Int) (b : SecMsgBucket) :
    (n.setBucket time b).tokensAt t = if t = time then b.setTokens else n.tokensAt t := by
  simp only [tokensAt, bucketAt, lookup_setBucket]
  split <;> rfl

variable {token : SecMsgToken} {key : Int × List UInt8}

@[simp] theorem tokensAt_rehash (n : SmsgNode) (time t : Int) :
    (n.rehash day now time).tokensAt t = n.tokensAt t := by
  simp only [tokensAt, bucketAt, lookup_rehash]
  split
  case isTrue heq =>
    subst heq
    cases n.buckets.lookup t <;> simp
  case isFalse => rfl

theorem tokensAt_store (hfuture : token.timestamp ≤ now + SMSG_TIME_LEEWAY)
    (hold : now - SMSG_RETENTION ≤ token.timestamp) (hactive : token.expired day now = false)
    (hnew : (n.bucketAt (bucketTime token)).hasToken token = false) (fHashBucket : Bool) :
    (n.store day now token true fHashBucket).2 = true ∧
      (n.store day now token true fHashBucket).1.tokensAt (bucketTime token) =
        token.insert (n.tokensAt (bucketTime token)) := by
  have hadded : (n.setBucket (bucketTime token)
      ((n.bucketAt (bucketTime token)).addToken token)).tokensAt (bucketTime token) =
        token.insert (n.tokensAt (bucketTime token)) := by
    rw [tokensAt_setBucket, if_pos rfl]
    rfl
  rw [store, if_neg (by omega), if_neg (by omega), if_neg (by simp [hactive])]
  simp only [hnew, Bool.false_eq_true, if_false, Bool.not_true]
  cases fHashBucket with
  | true => exact ⟨trivial, (tokensAt_rehash _ _ _).trans hadded⟩
  | false => exact ⟨trivial, hadded⟩

theorem mem_tokensAt_receiveMsg_of_storeBunch {messages : List SecMsgToken} {fSpace : Bool}
    (hsize : 12 + (messages.map fun token => SMSG_HDR_LEN + token.nPayload).sum ≤
      SMSG_MAX_MSG_PAYLOAD_BYTES)
    (htime : validBucketTime now time = true) (hwanted : (n.peer.wantedIn time).isEmpty = false)
    (hne : messages ≠ []) (hlength : messages.length ≤ 500) {t : SecMsgToken}
    (h : t ∈ (storeBunch day now time fSpace fValid messages n).1.tokensAt time) :
    t ∈ (n.receiveMsg day now time messages fSpace fValid).tokensAt time := by
  have hcount : ¬ (messages = [] ∨ 500 < messages.length) := by
    rintro (hnil | hlt)
    · exact hne hnil
    · omega
  rw [receiveMsg, if_neg (by omega), if_neg (by simp [htime]), if_neg (by simp [hwanted]),
    if_neg hcount]
  generalize storeBunch day now time fSpace fValid messages n = r at h
  obtain ⟨n', fMalformedBunch⟩ := r
  simp only
  split
  case h_1 => exact h
  case h_2 b hb =>
    split
    · exact h
    · split
      · rwa [tokensAt_rehash]
      · show t ∈ ((n'.setBucket time { b with nLockCount := 0, nLockPeerId := 0 }).rehash day now
          time).tokensAt time
        rw [tokensAt_rehash, tokensAt_setBucket, if_pos rfl]
        rwa [tokensAt, bucketAt_of_lookup hb] at h

/-! ## The node that is asked -/

def ToSender : SmsgCommand → Prop
  | .smsgShow _ | .smsgMatch _ | .smsgWant _ _ => True
  | _ => False

def ToAsker : SmsgCommand → Prop
  | .smsgInv _ | .smsgHave _ _ | .smsgMsg _ _ => True
  | _ => False

structure Unchanged (n n' : SmsgNode) : Prop where
  buckets : n'.buckets = n.buckets
  room : n.peer.HasRoom → n'.peer.HasRoom

theorem Unchanged.refl (n : SmsgNode) : Unchanged n n := ⟨rfl, id⟩

theorem Unchanged.trans {n₁ n₂ n₃ : SmsgNode} (h : Unchanged n₁ n₂) (h' : Unchanged n₂ n₃) :
    Unchanged n₁ n₃ :=
  ⟨h'.buckets.trans h.buckets, fun hroom => h'.room (h.room hroom)⟩

theorem unchanged_markSmsgRelayValidated (n : SmsgNode) :
    Unchanged n { n with peer := n.peer.markSmsgRelayValidated } :=
  ⟨rfl, fun hroom => hroom.markSmsgRelayValidated⟩

theorem handle_toSender {command : SmsgCommand} (h : ToSender command) (n : SmsgNode) :
    Unchanged n (n.handle day now true fValid command).1 ∧
      ∀ answer ∈ (n.handle day now true fValid command).2, ToAsker answer := by
  cases command with
  | smsgShow times =>
    simp only [handle, receiveShow]
    split
    · exact ⟨.refl n, forall_mem_nil _⟩
    · refine ⟨unchanged_markSmsgRelayValidated n, fun answer hanswer => ?_⟩
      obtain ⟨time, -, b, -, rfl⟩ := by
        simpa only [mem_filterMap, Option.map_eq_some_iff] using hanswer
      trivial
  | smsgWant time keys =>
    simp only [handle, receiveWant]
    split_ifs
    · exact ⟨.refl n, forall_mem_nil _⟩
    · exact ⟨.refl n, forall_mem_nil _⟩
    · split
      · exact ⟨.refl n, forall_mem_nil _⟩
      · split
        · exact ⟨.refl n, forall_mem_nil _⟩
        · refine ⟨.refl n, fun answer hanswer => ?_⟩
          rw [mem_singleton.mp hanswer]
          trivial
  | smsgMatch time =>
    simp only [handle, receiveMatch]
    split
    · exact ⟨unchanged_markSmsgRelayValidated n, forall_mem_nil _⟩
    · exact ⟨⟨rfl, fun hroom => hroom.congr rfl rfl⟩, forall_mem_nil _⟩
  | smsgPing | smsgPong | smsgInv | smsgHave | smsgMsg | smsgIgnore => cases h

theorem handle_toAsker {command : SmsgCommand} (h : ToAsker command) (n : SmsgNode) :
    ∀ answer ∈ (n.handle day now true fValid command).2, ToSender answer := by
  intro answer hanswer
  cases command with
  | smsgInv entries =>
    simp only [handle, receiveInv] at hanswer
    split_ifs at hanswer
    all_goals first
      | cases hanswer; done
      | rw [mem_singleton.mp hanswer]; trivial
  | smsgHave time keys =>
    simp only [handle, receiveHave] at hanswer
    split_ifs at hanswer
    all_goals first
      | cases hanswer; done
      | rw [mem_singleton.mp hanswer]; trivial
  | smsgMsg time messages => cases hanswer
  | smsgPing | smsgPong | smsgShow | smsgWant | smsgMatch | smsgIgnore => cases h

theorem handleAll_toSender {commands : List SmsgCommand}
    (h : ∀ command ∈ commands, ToSender command) (n : SmsgNode) :
    Unchanged n (n.handleAll day now fValid commands).1 ∧
      ∀ answer ∈ (n.handleAll day now fValid commands).2, ToAsker answer := by
  induction commands generalizing n with
  | nil => exact ⟨.refl n, forall_mem_nil _⟩
  | cons command commands ih =>
    obtain ⟨hsame, hanswers⟩ := handle_toSender (h command mem_cons_self) n
    obtain ⟨hsame', hanswers'⟩ := ih (fun c hc => h c (mem_cons_of_mem _ hc))
      (n.handle day now true fValid command).1
    refine ⟨hsame.trans hsame', fun answer hanswer => ?_⟩
    obtain hanswer | hanswer := mem_append.mp hanswer
    · exact hanswers answer hanswer
    · exact hanswers' answer hanswer

theorem handleAll_toAsker {commands : List SmsgCommand}
    (h : ∀ command ∈ commands, ToAsker command) (n : SmsgNode) :
    ∀ answer ∈ (n.handleAll day now fValid commands).2, ToSender answer := by
  induction commands generalizing n with
  | nil => exact forall_mem_nil _
  | cons command commands ih =>
    intro answer hanswer
    obtain hanswer | hanswer := mem_append.mp hanswer
    · exact handle_toAsker (h command mem_cons_self) n answer hanswer
    · exact ih (fun c hc => h c (mem_cons_of_mem _ hc)) _ answer hanswer

theorem converse_unchanged (rounds : Nat) (x y : SmsgNode) (commands : List SmsgCommand) :
    ((∀ command ∈ commands, ToAsker command) →
      Unchanged y (converse day now fValid rounds x y commands).2) ∧
    ((∀ command ∈ commands, ToSender command) →
      Unchanged x (converse day now fValid rounds x y commands).1) := by
  induction rounds generalizing x y commands with
  | zero => exact ⟨fun _ => .refl y, fun _ => .refl x⟩
  | succ rounds ih =>
    refine ⟨fun h => ?_, fun h => ?_⟩
    · exact (ih y _ _).2 (handleAll_toAsker h x)
    · obtain ⟨hsame, hanswers⟩ := handleAll_toSender h x
      exact hsame.trans ((ih y _ _).1 hanswers)

theorem pull_unchanged (time : Int) (x y : SmsgNode) :
    Unchanged y (pull day now fValid time x y).2 := by
  apply (converse_unchanged 5 x y (y.header time)).1
  intro command hcommand
  rw [header] at hcommand
  split at hcommand
  · cases hcommand
  · rw [mem_singleton.mp hcommand]
    trivial

/-! ## One direction -/

/-- A bucket as `Store` leaves it, with its lock free and few tokens.  `Validate` accepts
what the bucket shows. -/
structure Ready (day : Nat) (now time : Int) (fValid : SecMsgToken → Bool) (n : SmsgNode) :
    Prop where
  lock : (n.bucketAt time).nLockCount = 0
  length_le : (n.tokensAt time).length ≤ SMSG_MAX_WANT_TOKENS
  nodup : (n.keysAt time).Nodup
  bucketTime_eq : ∀ token ∈ n.tokensAt time, bucketTime token = time
  timestamp_nonneg : ∀ token ∈ n.tokensAt time, 0 ≤ token.timestamp
  timestamp_le : ∀ token ∈ n.tokensAt time, token.timestamp ≤ now + SMSG_TIME_LEEWAY
  le_nPayload : ∀ token ∈ n.tokensAt time, 8 ≤ token.nPayload
  nPayload_le : ∀ token ∈ n.tokensAt time, token.nPayload ≤ SMSG_MAX_MSG_WORST_PAID_ENCRYPTED
  valid : ∀ token ∈ n.tokensAt time, token.expired day now = false → fValid token = true

theorem Ready.length_le_have (h : n.Ready day now time fValid) :
    (n.tokensAt time).length ≤ SMSG_MAX_HAVE_TOKENS :=
  h.length_le.trans (by decide)

theorem converse_nil (rounds : Nat) (x y : SmsgNode) :
    converse day now fValid rounds x y [] = (x, y) := by
  induction rounds generalizing x y with
  | zero => rfl
  | succ rounds ih => simp [converse, handleAll, ih]

theorem converse_single (rounds : Nat) (x y : SmsgNode) (command : SmsgCommand) :
    converse day now fValid (rounds + 1) x y [command] =
      ((converse day now fValid rounds y (x.handle day now true fValid command).1
          (x.handle day now true fValid command).2).2,
        (converse day now fValid rounds y (x.handle day now true fValid command).1
          (x.handle day now true fValid command).2).1) := by
  simp [converse, handleAll]

theorem hasKey_iff {n : SmsgNode} {time : Int} :
    SecMsgBucket.hasKey (n.bucketAt time) key = true ↔ key ∈ n.keysAt time := by
  obtain ⟨timestamp, sample⟩ := key
  simp [SecMsgBucket.hasKey, keysAt, tokensAt]

instance (time : Int) (x y : SmsgNode) : Decidable (Asks time x y) :=
  inferInstanceAs (Decidable (_ ∨ _))

theorem exists_lookup (hne : n.tokensAt time ≠ []) :
    n.buckets.lookup time = some (n.bucketAt time) := by
  cases hlookup : n.buckets.lookup time with
  | none => simp [tokensAt, bucketAt, hlookup, SecMsgBucket.new] at hne
  | some b => rw [bucketAt_of_lookup hlookup]

theorem length_activeKeys_le (day : Nat) (now : Int) (n : SmsgNode) (time : Int) :
    (n.activeKeys day now time).length ≤ (n.tokensAt time).length := by
  rw [activeKeys, length_map]
  exact length_filter_le _ _

def wantedKeys (day : Nat) (now time : Int) (x y : SmsgNode) : List (Int × List UInt8) :=
  (y.activeKeys day now time).filter fun key => !SecMsgBucket.hasKey (x.bucketAt time) key

theorem mem_wantedKeys :
    key ∈ wantedKeys day now time x y ↔
      key ∈ y.activeKeys day now time ∧ key ∉ x.keysAt time := by
  rw [wantedKeys, mem_filter, Bool.not_eq_true', ← Bool.not_eq_true, hasKey_iff]

section

variable (htime : validBucketTime now time = true) (hlock : (x.bucketAt time).nLockCount = 0)
  (hne : y.tokensAt time ≠ []) (hlength : (y.tokensAt time).length ≤ SMSG_MAX_HAVE_TOKENS)

include htime hlock hne hlength

theorem answerInvEntry_header :
    x.answerInvEntry now ⟨time, (y.tokensAt time).length, (y.bucketAt time).hash⟩ =
      if Asks time x y then .request else .skip := by
  simp only [validBucketTime, Bool.and_eq_true, decide_eq_true_eq] at htime
  have hpos := length_pos_of_ne_nil hne
  simp only [answerInvEntry]
  rw [if_neg (by omega), if_neg (by omega), if_neg (by simp [htime.2]), if_neg (by omega),
    if_neg (by omega), if_neg (by omega)]
  rfl

theorem receiveInv_header :
    x.receiveInv now [⟨time, (y.tokensAt time).length, (y.bucketAt time).hash⟩] =
      if Asks time x y then
        ({ x with peer := x.peer.markSmsgRelayValidated.trackSmsgRequestedBuckets [time] },
          [.smsgShow [time]])
      else ({ x with peer := x.peer.markSmsgRelayValidated }, [.smsgMatch now]) := by
  have hanswer : answerInvEntry now { x with peer := x.peer.markSmsgRelayValidated }
      ⟨time, (y.tokensAt time).length, (y.bucketAt time).hash⟩ =
        if Asks time x y then .request else .skip :=
    answerInvEntry_header (x := x) htime hlock hne hlength
  rw [receiveInv, if_neg (by simp [SMSG_MAX_INV_BUCKETS])]
  by_cases hasks : Asks time x y <;> simp [hanswer, hasks]

omit hlock in
theorem receiveShow_header :
    y.receiveShow day now [time] =
      ({ y with peer := y.peer.markSmsgRelayValidated },
        [.smsgHave time (y.activeKeys day now time)]) := by
  have hall : ((y.bucketAt time).setTokens.filter fun token => !token.expired day now).length ≤
      SMSG_MAX_HAVE_TOKENS := (length_filter_le _ _).trans hlength
  rw [receiveShow, if_neg (by simp [SMSG_MAX_SHOW_BUCKETS, SMSG_MAX_INV_BUCKETS])]
  simp [htime, exists_lookup hne, hall, activeKeys, tokensAt]

omit hne in
theorem receiveHave_header (day : Nat) {peer : SecMsgNode}
    (hrequested : time ∈ peer.requestedBuckets) :
    ∃ peer', peer' = { peer with
        requestedBuckets := peer.requestedBuckets.erase time }.markSmsgRelayValidated ∧
      receiveHave now { x with peer := peer } time (y.activeKeys day now time) =
        if wantedKeys day now time x y = [] then ({ x with peer := peer' }, [])
        else
          ({ x.setBucket time { x.bucketAt time with nLockCount := 3, nLockPeerId := peerId } with
              peer := peer'.trackSmsgWantedTokens time
                ((wantedKeys day now time x y).map Prod.snd) },
            [.smsgWant time (wantedKeys day now time x y)]) := by
  refine ⟨_, rfl, ?_⟩
  have hcount := (length_activeKeys_le day now y time).trans hlength
  rw [receiveHave, if_neg (by omega), if_neg (by simp [htime]), if_neg (by simp [hrequested])]
  have hlock' : ¬ 0 < (x.bucketAt time).nLockCount := by omega
  exact if_neg hlock'

end

theorem find?_of_mem_activeKeys (hnodup : (y.keysAt time).Nodup)
    (h : key ∈ y.activeKeys day now time) :
    ∃ token ∈ y.tokensAt time, token.expired day now = false ∧
      (token.timestamp, token.sample) = key ∧
      (y.bucketAt time).setTokens.find?
        (fun token => token.timestamp == key.1 && token.sample == key.2) = some token := by
  obtain ⟨token, htoken, rfl⟩ := mem_map.mp h
  obtain ⟨hmem, hactive⟩ := mem_filter.mp htoken
  refine ⟨token, hmem, by simpa using hactive, rfl, ?_⟩
  cases hfind : (y.bucketAt time).setTokens.find? (fun t =>
      t.timestamp == (token.timestamp, token.sample).1 &&
        t.sample == (token.timestamp, token.sample).2) with
  | none =>
    have hno := List.find?_eq_none.mp hfind token hmem
    simp at hno
  | some t =>
    have hsome := List.find?_some hfind
    simp only [Bool.and_eq_true, beq_iff_eq] at hsome
    have hsame := inj_on_of_nodup_map hnodup (mem_of_find?_eq_some hfind) hmem
      (Prod.ext hsome.1 hsome.2)
    rw [hsame]

theorem hasToken_iff :
    (n.bucketAt time).hasToken token = true ↔ (token.timestamp, token.sample) ∈ n.keysAt time := by
  simp only [SecMsgBucket.hasToken, SecMsgToken.same, any_eq_true, Bool.and_eq_true,
    beq_iff_eq, keysAt, mem_map, tokensAt, Prod.mk.injEq]
  exact exists_congr fun t => and_congr_right fun _ => and_congr eq_comm eq_comm

theorem mem_tokensAt_receiveMsg {rest : List SecMsgToken}
    (hsize : 12 + ((token :: rest).map fun token => SMSG_HDR_LEN + token.nPayload).sum ≤
      SMSG_MAX_MSG_PAYLOAD_BYTES) (htime : validBucketTime now time = true)
    (hlength : (token :: rest).length ≤ 500) (hwanted : token.sample ∈ n.peer.wantedIn time)
    (hready : Ready day now time fValid y) (htoken : token ∈ y.tokensAt time)
    (hactive : token.expired day now = false)
    (hnew : (token.timestamp, token.sample) ∉ n.keysAt time) :
    token ∈ (n.receiveMsg day now time (token :: rest) true fValid).tokensAt time := by
  have hbucket := hready.bucketTime_eq token htoken
  have hold : now - SMSG_RETENTION ≤ token.timestamp := by
    simp only [validBucketTime, Bool.and_eq_true, decide_eq_true_eq] at htime
    have hmod := Int.tmod_nonneg SMSG_BUCKET_LEN (hready.timestamp_nonneg token htoken)
    rw [bucketTime] at hbucket
    omega
  have hfresh : (n.bucketAt time).hasToken token = false := by
    rw [← Bool.not_eq_true, hasToken_iff]
    exact hnew
  obtain ⟨hstored, htokens⟩ := tokensAt_store (n := n) (hready.timestamp_le token htoken) hold
    hactive (hbucket ▸ hfresh) false
  apply mem_tokensAt_receiveMsg_of_storeBunch hsize htime _ (cons_ne_nil _ _) hlength
  · rw [storeBunch, if_neg (Nat.not_lt.mpr (hready.le_nPayload token htoken)),
      if_neg (by simpa using hwanted),
      if_neg (by simp [hbucket, hfresh, hready.valid token htoken hactive])]
    generalize n.store day now token true false = r at hstored htokens
    obtain ⟨n', fStored⟩ := r
    subst hstored
    have hnow := (hready.timestamp_nonneg token htoken).trans (hready.timestamp_le token htoken)
    apply (storeBunch_quiet n' true fValid day hnow time rest).subset time
    rw [hbucket] at htokens
    show token ∈ n'.tokensAt time
    rw [htokens]
    exact SecMsgToken.mem_insert.mpr (.inl rfl)
  · rw [isEmpty_eq_false_iff]
    exact ne_nil_of_mem hwanted

theorem pull_of_nil (h : y.tokensAt time = []) : pull day now fValid time x y = (x, y) := by
  rw [pull, header, if_pos (by simp [h]), converse_nil]

theorem pull_of_ne_nil (h : y.tokensAt time ≠ []) :
    pull day now fValid time x y = converse day now fValid 5 x y
      [.smsgInv [⟨time, (y.tokensAt time).length, (y.bucketAt time).hash⟩]] := by
  have hpos := length_pos_of_ne_nil h
  rw [pull, header, if_neg (by omega)]

theorem receiveWant_header (htime : validBucketTime now time = true) (hne : y.tokensAt time ≠ [])
    {keys : List (Int × List UInt8)} (hlength : keys.length ≤ SMSG_MAX_WANT_TOKENS)
    (hbunch : bunch (y.bucketAt time) keys 0 12 ≠ []) (peer : SecMsgNode) :
    receiveWant now { y with peer := peer } time keys =
      ({ y with peer := peer }, [.smsgMsg time (bunch (y.bucketAt time) keys 0 12)]) := by
  simp only [receiveWant, if_neg (Nat.not_lt.mpr hlength), htime, Bool.not_true,
    Bool.false_eq_true, if_false, exists_lookup hne, if_neg hbunch]

theorem length_wantedKeys_le (hy : Ready day now time fValid y) :
    (wantedKeys day now time x y).length ≤ SMSG_MAX_WANT_TOKENS :=
  (length_filter_le _ _).trans ((length_activeKeys_le day now y time).trans hy.length_le)

theorem tokensAt_congr {n n' : SmsgNode} (h : n'.buckets = n.buckets) (time : Int) :
    n'.tokensAt time = n.tokensAt time := by
  rw [tokensAt, tokensAt, bucketAt, bucketAt, h]

theorem Ready.congr {n n' : SmsgNode} (h : Ready day now time fValid n)
    (hbuckets : n'.buckets = n.buckets) : Ready day now time fValid n' := by
  have hbucket : n'.bucketAt time = n.bucketAt time := by rw [bucketAt, bucketAt, hbuckets]
  have htokens := tokensAt_congr hbuckets time
  exact {
    lock := hbucket ▸ h.lock
    length_le := htokens ▸ h.length_le
    nodup := by
      rw [keysAt, htokens]
      exact h.nodup
    bucketTime_eq := htokens ▸ h.bucketTime_eq
    timestamp_nonneg := htokens ▸ h.timestamp_nonneg
    timestamp_le := htokens ▸ h.timestamp_le
    le_nPayload := htokens ▸ h.le_nPayload
    nPayload_le := htokens ▸ h.nPayload_le
    valid := htokens ▸ h.valid }

theorem learns_congr {x x' y y' : SmsgNode} (hx : x'.buckets = x.buckets)
    (hy : y'.buckets = y.buckets) : Learns day now time x' y' ↔ Learns day now time x y := by
  simp only [Learns, Asks, keysAt, activeKeys, tokensAt, bucketAt, hx, hy]

theorem sameActive_comm : SameActive day now time x y ↔ SameActive day now time y x :=
  ⟨fun h key => (h key).symm, fun h key => (h key).symm⟩

theorem activeKeys_subset_keysAt : n.activeKeys day now time ⊆ n.keysAt time :=
  map_subset _ (filter_subset_self _)

section

variable (hexpiry : ∀ key ∈ x.keysAt time, key ∈ y.keysAt time →
  (key ∈ x.activeKeys day now time ↔ key ∈ y.activeKeys day now time))

include hexpiry

theorem not_learns_iff (hasks : Asks time x y) : ¬ Learns day now time x y ↔
    y.activeKeys day now time ⊆ x.activeKeys day now time := by
  constructor
  · intro h key hkey
    by_contra hnew
    refine h ⟨hasks, key, hkey, fun hheld => hnew ?_⟩
    exact (hexpiry key hheld (activeKeys_subset_keysAt hkey)).mpr hkey
  · rintro h ⟨-, key, hkey, hnew⟩
    exact hnew (activeKeys_subset_keysAt (h hkey))

/-- The node with more tokens does not ask, and the other one does. -/
theorem sameActive_iff_of_length_lt
    (hlt : (x.tokensAt time).length < (y.tokensAt time).length) :
    (¬ Learns day now time x y ∧ ¬ Learns day now time y x → SameActive day now time x y) ↔
      ¬ HoldsPart day now time x y := by
  have hquiet : ¬ Learns day now time y x := by
    rintro ⟨hasks | hasks, -⟩
    · omega
    · omega
  rw [not_learns_iff hexpiry (.inl hlt)]
  constructor
  · rintro h ⟨-, hsub, key, hkey, hnew⟩
    exact hnew ((h ⟨hsub, hquiet⟩ key).mp hkey)
  · rintro h ⟨hsub, -⟩ key
    refine ⟨fun hkey => ?_, fun hkey => hsub hkey⟩
    by_contra hnew
    exact h ⟨hlt, hsub, key, hkey, hnew⟩

end

theorem sameActive_of_samples
    (hsamples : (x.activeKeys day now time).map Prod.snd = (y.activeKeys day now time).map Prod.snd)
    (hsample : ∀ key ∈ x.activeKeys day now time, ∀ key' ∈ y.activeKeys day now time,
      key.2 = key'.2 → key.1 = key'.1) : SameActive day now time x y := by
  intro key
  constructor
  · intro hkey
    obtain ⟨key', hkey', heq⟩ := mem_map.mp (hsamples ▸ mem_map_of_mem hkey :
      key.2 ∈ (y.activeKeys day now time).map Prod.snd)
    rwa [Prod.ext (hsample key hkey key' hkey' heq.symm) heq.symm]
  · intro hkey
    obtain ⟨key', hkey', heq⟩ := mem_map.mp (hsamples ▸ mem_map_of_mem hkey :
      key.2 ∈ (x.activeKeys day now time).map Prod.snd)
    rwa [← Prod.ext (hsample key' hkey' key hkey heq) heq]

theorem Learns.wantedKeys_ne_nil (h : Learns day now time x y) :
    wantedKeys day now time x y ≠ [] := by
  obtain ⟨-, key, hkey, hnew⟩ := h
  exact ne_nil_of_mem (mem_wantedKeys.mpr ⟨hkey, hnew⟩)

theorem Learns.tokensAt_ne_nil (h : Learns day now time x y) : y.tokensAt time ≠ [] := by
  obtain ⟨-, key, hkey, -⟩ := h
  intro hnil
  simp [activeKeys, hnil] at hkey

section

variable (htime : validBucketTime now time = true)
  (hx : Ready day now time fValid x) (hxroom : x.peer.HasRoom)
  (hy : Ready day now time fValid y)

include htime hx hxroom hy

omit hxroom in
theorem pull_of_not_asks (h : ¬ Asks time x y) :
    (pull day now fValid time x y).1.buckets = x.buckets := by
  by_cases hne : y.tokensAt time = []
  · rw [pull_of_nil hne]
  · have hinv := receiveInv_header htime hx.lock hne hy.length_le_have
    rw [if_neg h] at hinv
    simp only [pull_of_ne_nil hne, converse_single, converse_nil, handle, hinv]

theorem pull_of_asks (hne : y.tokensAt time ≠ []) (h : Asks time x y) :
    (wantedKeys day now time x y = [] → (pull day now fValid time x y).1.buckets = x.buckets) ∧
      (wantedKeys day now time x y ≠ [] → ∃ key ∈ (pull day now fValid time x y).1.keysAt time,
        key ∉ x.keysAt time) := by
  have hinv := receiveInv_header htime hx.lock hne hy.length_le_have
  rw [if_pos h] at hinv
  have hshow : y.receiveShow day now [time] = _ := receiveShow_header htime hne hy.length_le_have
  have hroom := hxroom.markSmsgRelayValidated
  obtain ⟨peer, hpeer, hhave⟩ := receiveHave_header htime hx.lock hy.length_le_have day
    (SecMsgNode.mem_trackSmsgRequestedBuckets hroom time)
  cases hwanted : wantedKeys day now time x y with
  | nil =>
    rw [if_pos hwanted] at hhave
    simp only [pull_of_ne_nil hne, converse_single, converse_nil, handle, hinv, hshow, hhave]
    exact ⟨fun _ => trivial, fun h => absurd rfl h⟩
  | cons key keys =>
    have hlength := length_wantedKeys_le (x := x) hy
    obtain ⟨hkey, hnew⟩ := mem_wantedKeys.mp (hwanted ▸ mem_cons_self :
      key ∈ wantedKeys day now time x y)
    obtain ⟨token, htoken, hactive, rfl, hfind⟩ := find?_of_mem_activeKeys hy.nodup hkey
    obtain ⟨rest, hbunch⟩ : ∃ rest, bunch (y.bucketAt time)
        ((token.timestamp, token.sample) :: keys) 0 12 = token :: rest :=
      exists_bunch_eq_cons hfind 0 12
    rw [hwanted, if_neg (cons_ne_nil _ _)] at hhave
    rw [hwanted] at hlength
    have hwant := receiveWant_header htime hne hlength (hbunch ▸ cons_ne_nil _ _)
      y.peer.markSmsgRelayValidated
    rw [hbunch] at hwant
    simp only [pull_of_ne_nil hne, converse_single, converse_nil, handle, hinv, hshow, hhave,
      hwant]
    refine ⟨fun hnil => absurd hnil (cons_ne_nil _ _), fun _ => ?_⟩
    refine ⟨(token.timestamp, token.sample), ?_, hnew⟩
    refine mem_map.mpr ⟨token, ?_, rfl⟩
    have hpeer' : peer.wantedTokens = x.peer.markSmsgRelayValidated.wantedTokens := by
      rw [hpeer, SecMsgNode.wantedTokens_markSmsgRelayValidated,
        SecMsgNode.wantedTokens_trackSmsgRequestedBuckets hroom]
      rw [SecMsgNode.fValidatedRelay_trackSmsgRequestedBuckets]
      exact SecMsgNode.markSmsgRelayValidated_validated x.peer
    apply mem_tokensAt_receiveMsg
    · rw [← hbunch]
      have hsize := size_bunch_le hy.nPayload_le ((token.timestamp, token.sample) :: keys) 0
        (by decide : 12 < 96000)
      exact hsize.trans (by decide)
    · exact htime
    · rw [← hbunch]
      exact (Nat.zero_add _).symm.trans_le (length_bunch_le _ 12 (by decide))
    · exact SecMsgNode.mem_wantedIn_track hroom hpeer' time (by simpa using hlength)
        (by simp)
    · exact hy
    · exact htoken
    · exact hactive
    · show (token.timestamp, token.sample) ∉ ((x.setBucket time _).tokensAt time).map _
      rw [tokensAt_setBucket, if_pos rfl]
      exact hnew

/-! ## Both directions -/

theorem pull_spec :
    (¬ Learns day now time x y → (pull day now fValid time x y).1.buckets = x.buckets) ∧
      (Learns day now time x y → (pull day now fValid time x y).1.tokensAt time ≠
        x.tokensAt time) := by
  by_cases hasks : Asks time x y
  · by_cases hne : y.tokensAt time = []
    · rw [pull_of_nil hne]
      exact ⟨fun _ => rfl, fun h => absurd hne h.tokensAt_ne_nil⟩
    · obtain ⟨hnone, hsome⟩ := pull_of_asks htime hx hxroom hy hne hasks
      refine ⟨fun h => hnone ?_, fun h heq => ?_⟩
      · rw [eq_nil_iff_forall_not_mem]
        exact fun key hkey => h ⟨hasks, key, mem_wantedKeys.mp hkey⟩
      · obtain ⟨key, hkey, hnew⟩ := hsome h.wantedKeys_ne_nil
        rw [keysAt, heq] at hkey
        exact hnew hkey
  · exact ⟨fun _ => pull_of_not_asks htime hx hy hasks, fun h => absurd h.1 hasks⟩

variable (hyroom : y.peer.HasRoom)

include hyroom

theorem quiescent_iff :
    Quiescent day now fValid time x y ↔
      ¬ Learns day now time x y ∧ ¬ Learns day now time y x := by
  obtain ⟨hnone, hsome⟩ := pull_spec htime hx hxroom hy
  obtain ⟨hy₁, hroom₁⟩ : Unchanged y (pull day now fValid time x y).2 := pull_unchanged time x y
  rw [Quiescent, exchange]
  generalize pull day now fValid time x y = r at *
  obtain ⟨x₁, y₁⟩ := r
  simp only at *
  have hx₂ : (pull day now fValid time y₁ x₁).2.tokensAt time = x₁.tokensAt time :=
    tokensAt_congr (pull_unchanged time y₁ x₁).buckets time
  by_cases hlearns : Learns day now time x y
  · exact iff_of_false (fun h => hsome hlearns (hx₂.symm.trans h.1)) fun h => h.1 hlearns
  · have hx₁ := hnone hlearns
    obtain ⟨hnone', hsome'⟩ := pull_spec htime (hy.congr hy₁) (hroom₁ hyroom) (hx.congr hx₁)
    rw [learns_congr hy₁ hx₁] at hnone' hsome'
    rw [hx₂, tokensAt_congr hx₁ time, ← tokensAt_congr hy₁ time]
    refine ⟨fun h => ⟨hlearns, fun hlearns' => hsome' hlearns' h.2⟩, fun h => ⟨rfl, ?_⟩⟩
    exact tokensAt_congr (hnone' h.2) time

variable (hexpiry : ∀ key ∈ x.keysAt time, key ∈ y.keysAt time →
    (key ∈ x.activeKeys day now time ↔ key ∈ y.activeKeys day now time))
  (hhash : (x.bucketAt time).hash = (y.bucketAt time).hash →
    (x.activeKeys day now time).map Prod.snd = (y.activeKeys day now time).map Prod.snd)
  (hsample : ∀ key ∈ x.activeKeys day now time, ∀ key' ∈ y.activeKeys day now time,
    key.2 = key'.2 → key.1 = key'.1)

include hexpiry hhash hsample

end

end SmsgNode

/-! ## A node with expired tokens -/

namespace SampleExchange

open SmsgNode

def sharedToken : SecMsgToken := ⟨7200, List.replicate 8 1, 31, 40⟩

def ownToken : SecMsgToken := ⟨7201, List.replicate 8 2, 31, 40⟩

def shortToken : SecMsgToken := ⟨7202, List.replicate 8 3, 1, 40⟩

def shortToken' : SecMsgToken := ⟨7203, List.replicate 8 4, 1, 40⟩

def later : Int := 7203 + 2 * 86400

/-- A node that stored the messages when they were sent and hashed its bucket later. -/
def nodeWith (tokens : List SecMsgToken) : SmsgNode :=
  let stored := tokens.foldl
    (fun (n : SmsgNode) token => (n.store SMSG_SECONDS_IN_DAY 7203 token true true).1) SmsgNode.new
  stored.rehash SMSG_SECONDS_IN_DAY later 7200

def fullNode : SmsgNode := nodeWith [sharedToken, shortToken, shortToken']

def otherNode : SmsgNode := nodeWith [sharedToken, ownToken]

def acceptsAll : SecMsgToken → Bool := fun _ => true

theorem ready_fullNode : Ready SMSG_SECONDS_IN_DAY later 7200 acceptsAll fullNode := by
  constructor <;> decide +kernel

theorem ready_otherNode : Ready SMSG_SECONDS_IN_DAY later 7200 acceptsAll otherNode := by
  constructor <;> decide +kernel

theorem hasRoom_fullNode : fullNode.peer.HasRoom :=
  SecMsgNode.hasRoom_cleared (by decide +kernel) (by decide +kernel)

theorem hasRoom_otherNode : otherNode.peer.HasRoom :=
  SecMsgNode.hasRoom_cleared (by decide +kernel) (by decide +kernel)

def smallNode : SmsgNode := nodeWith [sharedToken]

theorem ready_smallNode : Ready SMSG_SECONDS_IN_DAY later 7200 acceptsAll smallNode := by
  constructor <;> decide +kernel

end SampleExchange

end Verge
