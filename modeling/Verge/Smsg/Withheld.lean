import Verge.Smsg.Exchange
import Verge.Foundation.Runs

/-!
# Bucket changes that a peer is not told

`SendData` leaves out a bucket whose last change is older than the last match
with the peer.  A match carries the time at which the peer answered, so one that
answers an older inventory can be newer than a change the peer was never told.
All other traffic keeps every changed bucket in the next inventory, apart from a
bunch of which nothing was stored.
-/

namespace Verge

open Foundation List AssocMap Option

namespace SmsgNode

/-! ## The inventory -/

theorem mem_inventoryLoop (now lastMatched time : Int)
    (entries : List (Sigma fun _ : Int => SecMsgBucket)) (nBucketsShown : Nat)
    (hroom : (entries.filter fun e => decide (InWindow now e.1)).length + nBucketsShown ≤
      SMSG_MAX_INV_BUCKETS) :
    time ∈ (inventoryLoop now lastMatched entries nBucketsShown).map InvEntry.time ↔
      ∃ bkt, ⟨time, bkt⟩ ∈ entries ∧ InWindow now time ∧ lastMatched ≤ bkt.timeChanged ∧
        bkt.setTokens ≠ [] := by
  induction entries generalizing nBucketsShown with
  | nil => simp [inventoryLoop]
  | cons e entries ih =>
    obtain ⟨t, bkt⟩ := e
    have hcons : (∃ b, ⟨time, b⟩ ∈ (⟨t, bkt⟩ : Sigma fun _ => SecMsgBucket) :: entries ∧
        InWindow now time ∧ lastMatched ≤ b.timeChanged ∧ b.setTokens ≠ []) ↔
          time = t ∧ InWindow now t ∧ lastMatched ≤ bkt.timeChanged ∧ bkt.setTokens ≠ [] ∨
            ∃ b, ⟨time, b⟩ ∈ entries ∧ InWindow now time ∧ lastMatched ≤ b.timeChanged ∧
              b.setTokens ≠ [] := by
      simp only [mem_cons, Sigma.mk.injEq, heq_eq_eq, or_and_right, exists_or]
      refine or_congr_left ⟨?_, ?_⟩
      · rintro ⟨_, ⟨rfl, rfl⟩, h⟩
        exact ⟨rfl, h⟩
      · rintro ⟨rfl, h⟩
        exact ⟨bkt, ⟨rfl, rfl⟩, h⟩
    rw [hcons]
    simp only [inventoryLoop]
    split
    case isTrue hout =>
      rw [ih nBucketsShown (by simpa [hout] using hroom), or_iff_right fun h => hout h.2.1]
    case isFalse hin =>
      have hin : InWindow now t := not_not.mp hin
      simp only [hin, decide_true, filter_cons_of_pos, length_cons] at hroom
      rw [if_neg (by omega)]
      split
      case isTrue hold =>
        rw [ih nBucketsShown (by omega), or_iff_right]
        rintro ⟨-, -, hchanged, htokens⟩
        have hlen := length_pos_of_ne_nil htokens
        omega
      case isFalse hnew =>
        have hlen : 0 < bkt.setTokens.length := by omega
        rw [map_cons, mem_cons, ih (nBucketsShown + 1) (by omega)]
        exact or_congr_left (and_iff_left ⟨hin, by omega, ne_nil_of_length_pos hlen⟩).symm

variable {time t : Int} {command : SmsgCommand}

/-- An inventory never runs out of room, so it holds every bucket that is not
older than the last match and not empty. -/
theorem mem_inventory {now : Int} {n : SmsgNode} :
    time ∈ (n.inventory now).map InvEntry.time ↔
      ∃ bkt, n.buckets.lookup time = some bkt ∧ InWindow now time ∧
        n.peer.lastMatched ≤ bkt.timeChanged ∧ bkt.setTokens ≠ [] := by
  have hnodup : ((n.buckets.entries.filter fun e => decide (InWindow now e.1)).map
      Sigma.fst).Nodup := n.buckets.nodupKeys.sublist filter_sublist
  have hwindow := length_le_of_inWindow hnodup
    fun time (htime : time ∈ _) => show InWindow now time by
      obtain ⟨e, he, rfl⟩ := mem_map.mp htime
      simpa using (mem_filter.mp he).2
  rw [inventory, mem_inventoryLoop now _ time _ 0 (by simpa using hwindow)]
  simp only [AssocMap.lookup_eq_some_iff]

/-! ## What a node must list -/

/-- Every bucket that changed since it was last listed is in the inventory that
`SendData` would send now. -/
def ListsChanged (now : Int) (n : SmsgNode) : Prop :=
  ∀ time ∈ n.changed, InWindow now time → time ∈ n.buckets →
    time ∈ (n.inventory now).map InvEntry.time

def Timely (now : Int) (n : SmsgNode) (time : Int) : Prop :=
  time ∈ n.changed → InWindow now time → ∀ b, n.buckets.lookup time = some b →
    n.peer.lastMatched ≤ b.timeChanged

def Filled (now : Int) (n : SmsgNode) (time : Int) : Prop :=
  time ∈ n.changed → InWindow now time → ∀ b, n.buckets.lookup time = some b →
    b.setTokens ≠ []

theorem listsChanged_iff {now : Int} {n : SmsgNode} :
    n.ListsChanged now ↔ (∀ time, n.Timely now time) ∧ ∀ time, n.Filled now time := by
  constructor
  · intro h
    have key : ∀ time ∈ n.changed, InWindow now time → ∀ b, n.buckets.lookup time = some b →
        n.peer.lastMatched ≤ b.timeChanged ∧ b.setTokens ≠ [] := by
      intro time hmem hwin b hb
      have hkey : time ∈ n.buckets := AList.lookup_isSome.mp (by simp [hb])
      obtain ⟨b', hb', -, hdue⟩ := mem_inventory.mp (h time hmem hwin hkey)
      rw [hb] at hb'
      cases hb'
      exact hdue
    exact ⟨fun time hmem hwin b hb => (key time hmem hwin b hb).1,
      fun time hmem hwin b hb => (key time hmem hwin b hb).2⟩
  · rintro ⟨htimely, hfilled⟩ time hmem hwin hkey
    obtain ⟨b, hb⟩ := isSome_iff_exists.mp (AList.lookup_isSome.mpr hkey)
    exact mem_inventory.mpr ⟨b, hb, hwin, htimely time hmem hwin b hb, hfilled time hmem hwin b hb⟩

structure Sane (now : Int) (n : SmsgNode) : Prop where
  lastMatched_le : n.peer.lastMatched ≤ now
  timeChanged_nonneg : ∀ time b, n.buckets.lookup time = some b → 0 ≤ b.timeChanged
  time_le : ∀ time b, n.buckets.lookup time = some b → time ≤ now + SMSG_TIME_LEEWAY
  changed_mem : ∀ time ∈ n.changed, ∃ b, n.buckets.lookup time = some b

/-! ## Moves that hash no bucket -/

/-- The moves out of which the handlers are made, apart from `hashBucket`: no new match, and
no bucket loses a message. -/
inductive Quiet (now : Int) : SmsgNode → SmsgNode → Prop
  | refl (n : SmsgNode) : Quiet now n n
  | peer (n : SmsgNode) (p : SecMsgNode)
      (h : p.lastMatched = n.peer.lastMatched ∨ p.lastMatched = 0) :
      Quiet now n { n with peer := p }
  | bucket (n : SmsgNode) (time : Int) (b : SecMsgBucket)
      (htime : time ≤ now + SMSG_TIME_LEEWAY)
      (hchanged : b.timeChanged = (n.bucketAt time).timeChanged)
      (htokens : (n.bucketAt time).setTokens ⊆ b.setTokens) :
      Quiet now n (n.setBucket time b)
  | trans {n m r : SmsgNode} : Quiet now n m → Quiet now m r → Quiet now n r

theorem lookup_setBucket (n : SmsgNode) (time t : Int) (b : SecMsgBucket) :
    (n.setBucket time b).buckets.lookup t =
      if t = time then some b else n.buckets.lookup t :=
  lookup_insert_ite n.buckets t time b

theorem bucketAt_of_lookup {n : SmsgNode} {b : SecMsgBucket} (h : n.buckets.lookup time = some b) :
    n.bucketAt time = b := by
  simp [bucketAt, h]

variable {day : Nat} {now : Int} {n m r : SmsgNode}

section

variable (hnow : 0 ≤ now) (h : Quiet now n r) (hn : n.Sane now)

include hnow h hn

theorem Quiet.sane : r.Sane now := by
  induction h with
  | refl => exact hn
  | peer n p h =>
    exact { hn with lastMatched_le := by have := hn.lastMatched_le; simp only; omega }
  | bucket n time b htime hchanged htokens =>
    refine ⟨hn.lastMatched_le, ?_, ?_, ?_⟩
    · intro t b' hb'
      rw [lookup_setBucket] at hb'
      split at hb'
      case isTrue =>
        cases hb'
        rw [hchanged]
        cases hold : n.buckets.lookup time with
        | none => simp [bucketAt, hold, SecMsgBucket.new]
        | some old =>
          rw [bucketAt_of_lookup hold]
          exact hn.timeChanged_nonneg time old hold
      case isFalse => exact hn.timeChanged_nonneg t b' hb'
    · intro t b' hb'
      rw [lookup_setBucket] at hb'
      split at hb'
      case isTrue h => exact h ▸ htime
      case isFalse => exact hn.time_le t b' hb'
    · intro t ht
      rw [lookup_setBucket]
      split
      · exact ⟨b, rfl⟩
      · exact hn.changed_mem t ht
  | trans _ _ ih₁ ih₂ => exact ih₂ (ih₁ hn)

theorem Quiet.timely (ht : n.Timely now t) : r.Timely now t := by
  induction h with
  | refl => exact ht
  | peer n p h =>
    intro hmem hwin b hb
    have hold := ht hmem hwin b hb
    have hnonneg := hn.timeChanged_nonneg t b hb
    simp only
    omega
  | bucket n time b htime hchanged htokens =>
    intro hmem hwin b' hb'
    obtain ⟨old, hold⟩ := hn.changed_mem t hmem
    rw [lookup_setBucket] at hb'
    split at hb'
    case isTrue heq =>
      cases hb'
      subst heq
      rw [hchanged, bucketAt_of_lookup hold]
      exact ht hmem hwin old hold
    case isFalse => exact ht hmem hwin b' hb'
  | trans h₁ _ ih₁ ih₂ => exact ih₂ (h₁.sane hnow hn) (ih₁ hn ht)

theorem Quiet.filled (ht : n.Filled now t) : r.Filled now t := by
  induction h with
  | refl => exact ht
  | peer n p h => exact ht
  | bucket n time b htime hchanged htokens =>
    intro hmem hwin b' hb'
    obtain ⟨old, hold⟩ := hn.changed_mem t hmem
    rw [lookup_setBucket] at hb'
    split at hb'
    case isTrue heq =>
      cases hb'
      subst heq
      rw [bucketAt_of_lookup hold] at htokens
      exact fun hnil => ht hmem hwin old hold (eq_nil_of_subset_nil (hnil ▸ htokens))
    case isFalse => exact ht hmem hwin b' hb'
  | trans h₁ _ ih₁ ih₂ => exact ih₂ (h₁.sane hnow hn) (ih₁ hn ht)

end

/-! ## Hashing a bucket -/

theorem lookup_rehash (n : SmsgNode) (time t : Int) :
    (n.rehash day now time).buckets.lookup t =
      if t = time then (n.buckets.lookup time).map (SecMsgBucket.hashBucket day now)
      else n.buckets.lookup t := by
  unfold rehash
  split
  case h_1 h =>
    split
    case isTrue heq =>
      subst heq
      simp [h]
    case isFalse => rfl
  case h_2 b h => simp [lookup_insert_ite, h]

@[simp] theorem rehash_peer (n : SmsgNode) (time : Int) :
    (n.rehash day now time).peer = n.peer := by
  unfold rehash
  split <;> rfl

theorem mem_changed_rehash (h : t ∈ (n.rehash day now time).changed) :
    t ∈ n.changed ∨ t = time ∧ ∃ b, n.buckets.lookup time = some b ∧
      (b.hashBucket day now).hash ≠ b.hash := by
  unfold rehash at h
  split at h
  case h_1 => exact .inl h
  case h_2 b hb =>
    simp only at h
    split at h
    case isTrue => exact .inl h
    case isFalse hne =>
      rcases mem_cons.mp h with rfl | h
      · exact .inr ⟨rfl, b, hb, hne⟩
      · exact .inl h

theorem Sane.rehash (hnow : 0 ≤ now) (hn : n.Sane now) (time : Int) :
    (n.rehash day now time).Sane now := by
  have hlookup : ∀ t b', (n.rehash day now time).buckets.lookup t = some b' →
      ∃ b, n.buckets.lookup t = some b ∧
        (b'.timeChanged = b.timeChanged ∨ b'.timeChanged = now) := by
    intro t b' hb'
    rw [lookup_rehash] at hb'
    split at hb'
    case isTrue heq =>
      obtain ⟨b, hb, rfl⟩ := map_eq_some_iff.mp hb'
      refine ⟨b, heq ▸ hb, ?_⟩
      rw [SecMsgBucket.hashBucket_timeChanged]
      split <;> simp
    case isFalse => exact ⟨b', hb', .inl rfl⟩
  refine ⟨by simpa using hn.lastMatched_le, ?_, ?_, ?_⟩
  · intro t b' hb'
    obtain ⟨b, hb, htime⟩ := hlookup t b' hb'
    have := hn.timeChanged_nonneg t b hb
    omega
  · intro t b' hb'
    obtain ⟨b, hb, -⟩ := hlookup t b' hb'
    exact hn.time_le t b hb
  · intro t ht
    have hmem : ∃ b, n.buckets.lookup t = some b := by
      rcases mem_changed_rehash ht with h | ⟨rfl, b, hb, -⟩
      · exact hn.changed_mem t h
      · exact ⟨b, hb⟩
    obtain ⟨b, hb⟩ := hmem
    rw [lookup_rehash]
    split
    case isTrue heq =>
      subst heq
      exact ⟨b.hashBucket day now, by simp [hb]⟩
    case isFalse => exact ⟨b, hb⟩

theorem Timely.rehash (hn : n.Sane now) (ht : n.Timely now t) (time : Int) :
    (n.rehash day now time).Timely now t := by
  intro hmem hwin b' hb'
  rw [rehash_peer]
  rw [lookup_rehash] at hb'
  split at hb'
  case isFalse hne =>
    rcases mem_changed_rehash hmem with h | ⟨h, -⟩
    · exact ht h hwin b' hb'
    · exact absurd h hne
  case isTrue heq =>
    subst heq
    obtain ⟨b, hb, rfl⟩ := map_eq_some_iff.mp hb'
    rw [SecMsgBucket.hashBucket_timeChanged]
    split
    case isFalse => exact hn.lastMatched_le
    case isTrue hsame =>
      rcases mem_changed_rehash hmem with h | ⟨-, b₂, hb₂, hdiff⟩
      · exact ht h hwin b hb
      · rw [hb] at hb₂
        cases hb₂
        exact absurd hsame hdiff

theorem Filled.rehash (ht : n.Filled now t)
    (htokens : t = time → ∀ b, n.buckets.lookup time = some b → b.setTokens ≠ []) :
    (n.rehash day now time).Filled now t := by
  intro hmem hwin b' hb'
  rw [lookup_rehash] at hb'
  split at hb'
  case isFalse hne =>
    rcases mem_changed_rehash hmem with h | ⟨h, -⟩
    · exact ht h hwin b' hb'
    · exact absurd h hne
  case isTrue heq =>
    obtain ⟨b, hb, rfl⟩ := map_eq_some_iff.mp hb'
    simpa using htokens heq b hb

/-! ## The handlers -/

variable (p : SecMsgNode)

theorem markSmsgRelayValidated_lastMatched :
    p.markSmsgRelayValidated.lastMatched = p.lastMatched ∨
      p.markSmsgRelayValidated.lastMatched = 0 := by
  unfold SecMsgNode.markSmsgRelayValidated
  split <;> simp

theorem recordSmsgInventoryMismatch_lastMatched :
    (p.recordSmsgInventoryMismatch now).lastMatched = p.lastMatched := by
  unfold SecMsgNode.recordSmsgInventoryMismatch
  split <;> rfl

theorem trackSmsgRequestedBuckets_lastMatched (times : List Int) :
    (p.trackSmsgRequestedBuckets times).lastMatched = p.lastMatched := by
  simp [SecMsgNode.trackSmsgRequestedBuckets, SecMsgNode.trimTrackedSmsgRequests]

theorem trackSmsgWantedTokens_lastMatched (time : Int) (samples : List (List UInt8)) :
    (p.trackSmsgWantedTokens time samples).lastMatched = p.lastMatched := by
  simp [SecMsgNode.trackSmsgWantedTokens, SecMsgNode.trimTrackedSmsgRequests]

theorem countMessage_lastMatched (payloadBytes : Nat) :
    (p.countMessage now payloadBytes).lastMatched = p.lastMatched := by
  simp only [SecMsgNode.countMessage]
  split <;> rfl

theorem leeway_nonneg (hnow : 0 ≤ now) : 0 ≤ now + SMSG_TIME_LEEWAY := by
  unfold SMSG_TIME_LEEWAY
  omega

theorem bucketTime_le {token : SecMsgToken} (hnow : 0 ≤ now + SMSG_TIME_LEEWAY)
    (h : token.timestamp ≤ now + SMSG_TIME_LEEWAY) :
    bucketTime token ≤ now + SMSG_TIME_LEEWAY := by
  unfold bucketTime
  unfold SMSG_TIME_LEEWAY at *
  rcases Int.le_total 0 token.timestamp with hpos | hneg
  · have := Int.tmod_nonneg SMSG_BUCKET_LEN hpos
    omega
  · have htmod : token.timestamp.tmod SMSG_BUCKET_LEN = -(-token.timestamp % SMSG_BUCKET_LEN) := by
      rw [← Int.tmod_eq_emod_of_nonneg (by omega), Int.neg_tmod, Int.neg_neg]
    rw [htmod, SMSG_BUCKET_LEN]
    omega

theorem store_cases (day : Nat) (hnow : 0 ≤ now + SMSG_TIME_LEEWAY) (n : SmsgNode)
    (token : SecMsgToken) (fSpace fHashBucket : Bool) :
    ∃ m, Quiet now n m ∧ ((n.store day now token fSpace fHashBucket).1 = m ∨
      fHashBucket = true ∧
        (n.store day now token fSpace fHashBucket).1 = m.rehash day now (bucketTime token) ∧
        ∀ b, m.buckets.lookup (bucketTime token) = some b → b.setTokens ≠ []) := by
  simp only [store]
  split
  case isTrue => exact ⟨n, .refl n, .inl rfl⟩
  split
  case isTrue => exact ⟨n, .refl n, .inl rfl⟩
  split
  case isTrue => exact ⟨n, .refl n, .inl rfl⟩
  case isFalse hfuture _ _ =>
    have htime := bucketTime_le hnow (Int.not_lt.mp hfuture)
    have htouch : Quiet now n (n.setBucket (bucketTime token) (n.bucketAt (bucketTime token))) :=
      .bucket n _ _ htime rfl (Subset.refl _)
    split
    case isTrue => exact ⟨_, htouch, .inl rfl⟩
    split
    case isTrue => exact ⟨_, htouch, .inl rfl⟩
    refine ⟨n.setBucket (bucketTime token) ((n.bucketAt (bucketTime token)).addToken token),
      .bucket n _ _ htime rfl fun _ ht => SecMsgToken.mem_insert.mpr (.inr ht), ?_⟩
    cases fHashBucket with
    | false => exact .inl rfl
    | true =>
      refine .inr ⟨rfl, rfl, fun b hb => ?_⟩
      rw [lookup_setBucket, if_pos rfl] at hb
      cases hb
      exact ne_nil_of_mem (SecMsgToken.mem_insert.mpr (.inl rfl))

theorem validBucketTime_le (h : validBucketTime now time = true) :
    time ≤ now + SMSG_TIME_LEEWAY := by
  simp only [validBucketTime, Bool.and_eq_true, decide_eq_true_eq] at h
  exact h.1.2

variable (fSpace : Bool) (fValid : SecMsgToken → Bool) (n)

theorem storeBunch_quiet (day : Nat) (hnow : 0 ≤ now + SMSG_TIME_LEEWAY) (time : Int)
    (tokens : List SecMsgToken) :
    Quiet now n (storeBunch day now time fSpace fValid tokens n).1 := by
  induction tokens generalizing n with
  | nil => exact .refl n
  | cons token tokens ih =>
    simp only [storeBunch]
    split
    case isTrue => exact .refl n
    split
    case isTrue => exact .peer n _ (.inl (recordSmsgInventoryMismatch_lastMatched _))
    split
    case isTrue => exact ih n
    have hstore : Quiet now n (n.store day now token fSpace false).1 := by
      obtain ⟨m, hm, h | ⟨h, -⟩⟩ := store_cases day hnow n token fSpace false
      · exact h ▸ hm
      · simp at h
    split
    case h_1 n' h =>
      rw [h] at hstore
      exact hstore
    case h_2 n' h =>
      rw [h] at hstore
      exact hstore.trans (ih n')

omit n in
theorem Quiet.subset {n r : SmsgNode} (h : Quiet now n r) (time : Int) :
    (n.bucketAt time).setTokens ⊆ (r.bucketAt time).setTokens := by
  induction h with
  | refl => exact Subset.refl _
  | peer n p h => exact Subset.refl _
  | bucket n t b htime hchanged htokens =>
    rw [bucketAt, bucketAt, lookup_setBucket]
    split
    case isTrue heq =>
      subst heq
      exact htokens
    case isFalse => exact Subset.refl _
  | trans _ _ ih₁ ih₂ => exact fun _ ht => ih₂ (ih₁ ht)

/-- Whether `Store` takes one of the messages into an empty bucket: the first message that
the loop of `Receive` does not pass over settles it. -/
def storesOne (day : Nat) (now time : Int) (fSpace : Bool) (fValid : SecMsgToken → Bool)
    (wanted : List (List UInt8)) : List SecMsgToken → Bool
  | [] => false
  | token :: tokens =>
    if token.nPayload < 8 ∨ !wanted.contains token.sample then false
    else if bucketTime token ≠ time ∨ !fValid token then
      storesOne day now time fSpace fValid wanted tokens
    else
      decide (token.timestamp ≤ now + SMSG_TIME_LEEWAY) &&
        decide (now - SMSG_RETENTION ≤ token.timestamp) &&
        !(decide (0 < token.ttl * day) && token.expired day now) && fSpace

/-- A bunch finds messages in its bucket, or one of its own is stored. -/
def FillsBucket (day : Nat) (now : Int) (fSpace : Bool) (fValid : SecMsgToken → Bool)
    (n : SmsgNode) : SmsgCommand → Prop
  | .smsgMsg time messages =>
    (n.bucketAt time).setTokens ≠ [] ∨
      storesOne day now time fSpace fValid (n.peer.wantedIn time) messages = true
  | _ => True

instance (day : Nat) (now : Int) (fSpace : Bool) (fValid : SecMsgToken → Bool) (n : SmsgNode)
    (command : SmsgCommand) : Decidable (n.FillsBucket day now fSpace fValid command) := by
  unfold FillsBucket
  split <;> infer_instance

theorem setTokens_storeBunch (hnow : 0 ≤ now + SMSG_TIME_LEEWAY) (time : Int)
    (messages : List SecMsgToken)
    (hfills : n.FillsBucket day now fSpace fValid (.smsgMsg time messages)) :
    ((storeBunch day now time fSpace fValid messages n).1.bucketAt time).setTokens ≠ [] := by
  have hsubset messages := (storeBunch_quiet n fSpace fValid day hnow time messages).subset time
  obtain hne | hstores := hfills
  · exact fun hnil => hne (eq_nil_of_subset_nil (hnil ▸ hsubset messages))
  induction messages with
  | nil => cases hstores
  | cons token tokens ih =>
    rw [storesOne] at hstores
    split at hstores
    case isTrue => cases hstores
    case isFalse hwanted =>
      obtain ⟨hpayload, hsample⟩ := not_or.mp hwanted
      by_cases hheld : (n.bucketAt time).hasToken token = true
      · obtain ⟨held, hmem, -⟩ := any_eq_true.mp hheld
        exact ne_nil_of_mem (hsubset _ hmem)
      · rw [storeBunch, if_neg hpayload, if_neg hsample]
        split at hstores
        case isTrue hpass =>
          rw [if_pos (by tauto)]
          exact ih hstores
        case isFalse hvalid =>
          obtain ⟨hbucket, hvalid⟩ := not_or.mp hvalid
          simp only [Bool.and_eq_true, decide_eq_true_eq, Bool.not_eq_true'] at hstores
          obtain ⟨⟨⟨hfuture, hold⟩, hactive⟩, hspace⟩ := hstores
          have htime : bucketTime token = time := not_not.mp hbucket
          have hstore : n.store day now token fSpace false =
              (n.setBucket time ((n.bucketAt time).addToken token), true) := by
            rw [store, if_neg (by omega), if_neg (by omega),
              if_neg (Bool.eq_false_iff.mp hactive), htime]
            simp [hheld, hspace]
          rw [if_neg (by tauto), hstore]
          apply ne_nil_of_mem (a := token)
          apply (storeBunch_quiet _ fSpace fValid day hnow time tokens).subset time
          rw [bucketAt, lookup_setBucket, if_pos rfl]
          exact SecMsgToken.mem_insert.mpr (.inl rfl)

theorem receiveMsg_cases (hnow : 0 ≤ now + SMSG_TIME_LEEWAY) (time : Int)
    (messages : List SecMsgToken)
    (hfills : n.FillsBucket day now fSpace fValid (.smsgMsg time messages)) :
    Quiet now n (n.receiveMsg day now time messages fSpace fValid) ∨
      ∃ m, Quiet now n m ∧ (∀ b, m.buckets.lookup time = some b → b.setTokens ≠ []) ∧
        Quiet now (m.rehash day now time)
          (n.receiveMsg day now time messages fSpace fValid) := by
  simp only [receiveMsg]
  split
  case isTrue => exact .inl (.refl n)
  split
  case isTrue => exact .inl (.refl n)
  case isFalse hvalid =>
    have htime : time ≤ now + SMSG_TIME_LEEWAY := validBucketTime_le (by simpa using hvalid)
    split
    case isTrue => exact .inl (.peer n _ (.inl (recordSmsgInventoryMismatch_lastMatched _)))
    split
    case isTrue =>
      split
      case h_1 => exact .inl (.refl n)
      case h_2 b hb =>
        have hb := bucketAt_of_lookup hb
        exact .inl (.bucket n time _ htime (by simp [hb]) (by rw [hb]; exact Subset.refl _))
    have hstored := storeBunch_quiet n fSpace fValid day hnow time messages
    have hfilled := setTokens_storeBunch n fSpace fValid hnow time messages hfills
    generalize storeBunch day now time fSpace fValid messages n = stored at hstored hfilled
    obtain ⟨m, fMalformedBunch⟩ := stored
    simp only at hstored hfilled ⊢
    split
    case h_1 => exact .inl hstored
    case h_2 b hb =>
      have hlookup := hb
      have hb := bucketAt_of_lookup hb
      rw [hb] at hfilled
      split
      case isTrue =>
        exact .inl (hstored.trans (.peer m _ (.inl (recordSmsgInventoryMismatch_lastMatched _))))
      split
      case isTrue =>
        refine .inr ⟨m, hstored, fun b' hb' => ?_, .refl _⟩
        rw [hlookup] at hb'
        cases hb'
        exact hfilled
      case isFalse =>
        refine .inr ⟨m.setBucket time { b with nLockCount := 0, nLockPeerId := 0 }, ?_, ?_, ?_⟩
        · exact hstored.trans
            (.bucket m time _ htime (by simp [hb]) (by rw [hb]; exact Subset.refl _))
        · intro b' hb'
          rw [lookup_setBucket, if_pos rfl] at hb'
          cases hb'
          exact hfilled
        · apply Quiet.peer
          rw [rehash_peer]
          exact markSmsgRelayValidated_lastMatched _

theorem receiveInv_quiet (entries : List InvEntry) : Quiet now n (n.receiveInv now entries).1 := by
  simp only [receiveInv]
  have hmark : Quiet now n { n with peer := n.peer.markSmsgRelayValidated } :=
    .peer n _ (markSmsgRelayValidated_lastMatched _)
  split
  case isTrue => exact .refl n
  split
  case isTrue =>
    exact hmark.trans (.peer _ _ (.inl (trackSmsgRequestedBuckets_lastMatched _ _)))
  split <;> exact hmark

theorem receiveHave_quiet (time : Int) (tokens : List (Int × List UInt8)) :
    Quiet now n (n.receiveHave now time tokens).1 := by
  simp only [receiveHave]
  split
  case isTrue => exact .refl n
  split
  case isTrue => exact .refl n
  case isFalse hvalid =>
    have htime : time ≤ now + SMSG_TIME_LEEWAY := validBucketTime_le (by simpa using hvalid)
    split
    case isTrue => exact .peer n _ (.inl (recordSmsgInventoryMismatch_lastMatched _))
    have hmark : Quiet now n { n with
        peer := { n.peer with
          requestedBuckets := n.peer.requestedBuckets.erase time }.markSmsgRelayValidated } :=
      .peer n _ (markSmsgRelayValidated_lastMatched _)
    generalize SmsgNode.mk n.buckets _ n.changed = m at hmark ⊢
    split
    case isTrue => exact hmark
    split
    case isTrue => exact hmark
    have hlock : Quiet now m
        (m.setBucket time { m.bucketAt time with nLockCount := 3, nLockPeerId := peerId }) :=
      .bucket m time _ htime rfl (Subset.refl _)
    exact (hmark.trans hlock).trans
      (.peer _ _ (.inl (trackSmsgWantedTokens_lastMatched _ _ _)))

theorem handle_quiet (day : Nat) (hmatch : ∀ time, command ≠ .smsgMatch time)
    (hmsg : ∀ time messages, command ≠ .smsgMsg time messages) :
    Quiet now n (n.handle day now fSpace fValid command).1 := by
  cases command with
  | smsgPing => exact .refl n
  | smsgPong => exact .peer n _ (.inl rfl)
  | smsgInv entries => exact receiveInv_quiet n entries
  | smsgShow times =>
    simp only [handle, receiveShow]
    split
    · exact .refl n
    · exact .peer n _ (markSmsgRelayValidated_lastMatched _)
  | smsgHave time tokens => exact receiveHave_quiet n time tokens
  | smsgWant time tokens =>
    simp only [handle, receiveWant]
    split
    · exact .refl n
    split
    · exact .refl n
    split
    · exact .refl n
    · split <;> exact .refl n
  | smsgMsg time messages => exact absurd rfl (hmsg time messages)
  | smsgMatch time => exact absurd rfl (hmatch time)
  | smsgIgnore time =>
    simp only [handle, receiveIgnore]
    split
    · exact .refl n
    · exact .peer n _ (.inl rfl)

def counted (now : Int) (n : SmsgNode) (command : SmsgCommand) : SmsgNode :=
  { n with peer := n.peer.countMessage now (command.size + command.name.length) }

/-- `ReceiveData` gets to the handler of the command. -/
def Handles (now : Int) (n : SmsgNode) (command : SmsgCommand) : Prop :=
  command.isOversized = false ∧ n.peer.ignoreUntil ≤ now ∧
    ((n.counted now command).peer.nRateMessages ≤ SMSG_MAX_MSGS_PER_WINDOW ∧
      (n.counted now command).peer.nRateBytes ≤ SMSG_MAX_BYTES_PER_WINDOW) ∧
    ((n.counted now command).peer.fEnabled || isSmsgHandshakeCommand command) = true

instance (now : Int) (n : SmsgNode) (command : SmsgCommand) : Decidable (n.Handles now command) :=
  inferInstanceAs (Decidable (_ ∧ _ ∧ _ ∧ _))

theorem counted_quiet (command : SmsgCommand) : Quiet now n (n.counted now command) :=
  .peer n _ (.inl (countMessage_lastMatched _ _))

theorem fillsBucket_counted (command other : SmsgCommand) :
    (n.counted now command).FillsBucket day now fSpace fValid other ↔
      n.FillsBucket day now fSpace fValid other := by
  unfold counted SecMsgNode.countMessage
  dsimp only
  split <;> rfl

theorem receiveData_cases (day : Nat) (command : SmsgCommand) :
    (¬ n.Handles now command ∧ Quiet now n (n.receiveData day now command fSpace fValid).1 ∧
        ∀ time, .smsgMatch time ∉ (n.receiveData day now command fSpace fValid).2) ∨
      n.Handles now command ∧ n.receiveData day now command fSpace fValid =
        (n.counted now command).handle day now fSpace fValid command := by
  have hcount : Quiet now n _ := counted_quiet n command
  simp only [receiveData]
  split
  case isTrue hsize => exact .inl ⟨fun h => by simp [h.1] at hsize, .refl n, by simp⟩
  split
  case isTrue hignore => exact .inl ⟨fun h => absurd h.2.1 (by omega), .refl n, by simp⟩
  split
  case isTrue hrate =>
    exact .inl ⟨fun h => absurd h.2.2.1 (by simp only [counted]; omega),
      hcount.trans (.peer _ _ (.inl rfl)), by simp⟩
  split
  case isTrue hgate =>
    refine .inl ⟨fun h => absurd h.2.2.2 ?_, hcount, by simp⟩
    simpa [counted] using hgate
  case isFalse hsize hignore hrate hgate =>
    refine .inr ⟨⟨by simpa using hsize, by omega, ?_, ?_⟩, rfl⟩
    · simp only [counted]
      omega
    · rw [Bool.and_eq_true, not_and_or] at hgate
      simpa [counted] using hgate

variable {n}

theorem eq_now_of_smsgMatch_mem_handle {fSpace : Bool} {fValid : SecMsgToken → Bool}
    (h : .smsgMatch time ∈ (n.handle day now fSpace fValid command).2) : time = now := by
  cases command with
  | smsgInv entries =>
    simp only [handle, receiveInv] at h
    split at h
    · simp at h
    split at h
    · simp at h
    split at h
    · simp at h
    · simpa using h
  | smsgPong =>
    simp only [handle, receivePong] at h
    split at h <;> simp at h
  | smsgShow times =>
    simp only [handle, receiveShow] at h
    split at h <;> simp at h
  | smsgHave t tokens =>
    simp only [handle, receiveHave] at h
    split at h
    · simp at h
    split at h
    · simp at h
    split at h
    · simp at h
    split at h
    · simp at h
    split at h <;> simp at h
  | smsgWant t tokens =>
    simp only [handle, receiveWant] at h
    split at h
    · simp at h
    split at h
    · simp at h
    split at h
    · simp at h
    split at h <;> simp at h
  | smsgPing | smsgMsg | smsgMatch | smsgIgnore => simp [handle] at h

/-! ## The management thread and `SendData` -/

theorem lookup_eraseBucket {b : SecMsgBucket} (h : (n.eraseBucket time).buckets.lookup t = some b) :
    n.buckets.lookup t = some b :=
  (of_lookup_erase h).2

theorem Sane.eraseBucket (hn : n.Sane now) (time : Int) : (n.eraseBucket time).Sane now := by
  refine ⟨hn.lastMatched_le, ?_, ?_, ?_⟩
  · exact fun t b hb => hn.timeChanged_nonneg t b (lookup_eraseBucket hb)
  · exact fun t b hb => hn.time_le t b (lookup_eraseBucket hb)
  · intro t ht
    simp only [SmsgNode.eraseBucket, mem_filter, bne_iff_ne] at ht
    obtain ⟨b, hb⟩ := hn.changed_mem t ht.1
    exact ⟨b, by simp [SmsgNode.eraseBucket, ht.2, hb]⟩

theorem Timely.eraseBucket (h : n.Timely now t) (time : Int) :
    (n.eraseBucket time).Timely now t := fun hmem hwin b hb =>
  h (mem_of_mem_filter hmem) hwin b (lookup_eraseBucket hb)

theorem Filled.eraseBucket (h : t ≠ time → n.Filled now t) : (n.eraseBucket time).Filled now t := by
  intro hmem hwin b hb
  simp only [SmsgNode.eraseBucket, mem_filter, bne_iff_ne] at hmem
  exact h hmem.2 hmem.1 hwin b (lookup_eraseBucket hb)

theorem eq_smsgIgnore_of_mem_manageLoop {times : List Int}
    (h : command ∈ (manageLoop day now times n).2) :
    command = .smsgIgnore (now + SMSG_TIME_IGNORE) := by
  induction times generalizing n with
  | nil => cases h
  | cons time times ih =>
    simp only [manageLoop, mem_append] at h
    obtain h | h := h
    · simp only [manageBucket] at h
      split at h
      case h_1 => cases h
      case h_2 b hb =>
        generalize (!decide (time < now - SMSG_RETENTION) &&
          decide (time + b.nLeastTTL * day < now)) = fExpired at h
        generalize (if fExpired = true then n.rehash day now time else n) = m at h
        split_ifs at h
        · cases h
        · cases h
        · exact mem_singleton.mp h
        · cases h
        · cases h
    · exact ih h

theorem smsgMatch_notMem_sendData (n : SmsgNode) (t : Int) :
    .smsgMatch t ∉ (n.sendData now).2 := by
  simp only [SmsgNode.sendData]
  split
  · split <;> simp
  split
  · simp
  · split <;> simp

structure Current (now : Int) (n : SmsgNode) : Prop extends n.Sane now where
  timely : ∀ time, n.Timely now time
  filled : ∀ time, n.Filled now time

section

variable (hnow : 0 ≤ now) (hn : n.Current now)

include hn

theorem Current.eraseBucket (time : Int) : (n.eraseBucket time).Current now :=
  ⟨hn.toSane.eraseBucket time, fun t => (hn.timely t).eraseBucket time,
    fun t => Filled.eraseBucket fun _ => hn.filled t⟩

theorem Current.later {later : Int} (hle : now ≤ later) : n.Current later := by
  have hwin : ∀ t b, n.buckets.lookup t = some b → InWindow later t → InWindow now t := by
    rintro t b hb ⟨haligned, hlow, -⟩
    exact ⟨haligned, by omega, hn.time_le t b hb⟩
  refine ⟨⟨by have := hn.lastMatched_le; omega, hn.timeChanged_nonneg, ?_, hn.changed_mem⟩, ?_, ?_⟩
  · intro t b hb
    have := hn.time_le t b hb
    omega
  · exact fun t hmem hw b hb => hn.timely t hmem (hwin t b hb hw) b hb
  · exact fun t hmem hw b hb => hn.filled t hmem (hwin t b hb hw) b hb

theorem Current.listsChanged : n.ListsChanged now :=
  listsChanged_iff.mpr ⟨hn.timely, hn.filled⟩

include hnow

theorem Current.quiet (h : Quiet now n r) : r.Current now :=
  ⟨h.sane hnow hn.toSane, fun t => h.timely hnow hn.toSane (hn.timely t),
    fun t => h.filled hnow hn.toSane (hn.filled t)⟩

theorem Current.rehash (htokens : ∀ b, n.buckets.lookup time = some b → b.setTokens ≠ []) :
    (n.rehash day now time).Current now :=
  ⟨hn.toSane.rehash hnow time, fun t => (hn.timely t).rehash hn.toSane time,
    fun t => (hn.filled t).rehash fun _ => htokens⟩

theorem Current.rehash_eraseBucket (time : Int) :
    ((n.rehash day now time).eraseBucket time).Current now :=
  ⟨(hn.toSane.rehash hnow time).eraseBucket time,
    fun t => ((hn.timely t).rehash hn.toSane time).eraseBucket time,
    fun t => Filled.eraseBucket fun hne => (hn.filled t).rehash fun heq => absurd heq hne⟩

theorem Current.store (day : Nat) (token : SecMsgToken) (fSpace fHashBucket : Bool) :
    (n.store day now token fSpace fHashBucket).1.Current now := by
  obtain ⟨m, hm, h | ⟨-, h, htokens⟩⟩ :=
    store_cases day (leeway_nonneg hnow) n token fSpace fHashBucket
  · rw [h]
    exact hn.quiet hnow hm
  · rw [h]
    exact (hn.quiet hnow hm).rehash hnow htokens

theorem Current.manageBucket (time : Int) : (n.manageBucket day now time).1.Current now := by
  simp only [SmsgNode.manageBucket]
  split
  case h_1 => exact hn
  case h_2 b hb =>
    generalize hexpired : (!decide (time < now - SMSG_RETENTION) &&
      decide (time + b.nLeastTTL * day < now)) = fExpired
    generalize hm : (if fExpired = true then n.rehash day now time else n) = m
    split
    case isTrue =>
      cases fExpired with
      | false => exact hm ▸ hn.eraseBucket time
      | true => exact hm ▸ hn.rehash_eraseBucket hnow time
    case isFalse hkeep =>
      have hactive : fExpired = true → 0 < (m.bucketAt time).nActive := by
        intro h
        simp only [h, Bool.true_and, Bool.or_eq_true, decide_eq_true_eq] at hkeep
        omega
      have hcurrent : m.Current now := by
        cases fExpired with
        | false => exact hm ▸ hn
        | true =>
          -- a bucket with an active message is not empty
          subst hm
          refine hn.rehash hnow fun b' hb' htokens => ?_
          have hlookup : (n.rehash day now time).buckets.lookup time =
              some (b'.hashBucket day now) := by
            rw [lookup_rehash, if_pos rfl, hb']
            rfl
          have hnone := hactive rfl
          rw [if_pos rfl, bucketAt_of_lookup hlookup,
            SecMsgBucket.hashBucket_nActive_of_nil htokens] at hnone
          exact Nat.lt_irrefl 0 hnone
      have hlock : ∀ nLockCount nLockPeerId, (m.setBucket time { m.bucketAt time with
          nLockCount := nLockCount, nLockPeerId := nLockPeerId }).Current now :=
        fun _ _ => hcurrent.quiet hnow (.bucket m time _ (hn.time_le time b hb) rfl (Subset.refl _))
      split
      case isTrue => exact hcurrent
      split
      case isTrue =>
        split
        · exact (hlock 0 0).quiet hnow (.peer _ _ (.inl rfl))
        · exact hlock 0 0
      exact hlock _ _

theorem Current.manageLoop (day : Nat) (times : List Int) :
    (manageLoop day now times n).1.Current now := by
  induction times generalizing n with
  | nil => exact hn
  | cons time times ih => exact ih (hn.manageBucket hnow time)

theorem Current.sendData : (n.sendData now).1.Current now := by
  simp only [SmsgNode.sendData]
  split
  case isTrue => exact hn.quiet hnow (.peer n _ (.inl rfl))
  split
  case isTrue => exact hn
  exact ⟨⟨hn.lastMatched_le, hn.timeChanged_nonneg, hn.time_le,
      fun t ht => hn.changed_mem t (mem_of_mem_filter ht)⟩,
    fun t ht => hn.timely t (mem_of_mem_filter ht),
    fun t ht => hn.filled t (mem_of_mem_filter ht)⟩

/-! ## Matches and bunches -/

/-- A match is not later than any change that was not listed.  The answer to a probe sets no
time. -/
def MatchTimely (now : Int) (n : SmsgNode) : SmsgCommand → Prop
  | .smsgMatch time =>
    (n.peer.fSentValidationProbe && !n.peer.fValidatedRelay) = true ∨
      ∀ t ∈ n.changed, InWindow now t →
        (if now + SMSG_TIME_LEEWAY < time then now else time) ≤ (n.bucketAt t).timeChanged
  | _ => True

instance (now : Int) (n : SmsgNode) (command : SmsgCommand) :
    Decidable (n.MatchTimely now command) := by
  unfold MatchTimely
  split <;> infer_instance

omit hn hnow in
theorem matchTimely_counted (command other : SmsgCommand) :
    (n.counted now command).MatchTimely now other ↔ n.MatchTimely now other := by
  unfold counted SecMsgNode.countMessage
  dsimp only
  split <;> rfl

theorem Current.receiveMatch (htime : time ≤ now) :
    (n.receiveMatch now time).Sane now ∧ ((n.receiveMatch now time).ListsChanged now ↔
      n.MatchTimely now (.smsgMatch time)) := by
  simp only [SmsgNode.receiveMatch]
  split
  case isTrue hprobe =>
    have h := hn.quiet hnow (.peer n _ (markSmsgRelayValidated_lastMatched _))
    exact ⟨h.toSane, iff_of_true h.listsChanged (.inl hprobe)⟩
  case isFalse hprobe =>
    refine ⟨⟨?_, hn.timeChanged_nonneg, hn.time_le, hn.changed_mem⟩, ?_⟩
    · simp only
      split <;> omega
    · rw [listsChanged_iff, MatchTimely, or_iff_right hprobe]
      refine ⟨fun h t ht hwin => ?_, fun h => ⟨fun t ht hwin b hb => ?_, hn.filled⟩⟩
      · obtain ⟨b, hb⟩ := hn.changed_mem t ht
        rw [bucketAt_of_lookup hb]
        exact h.1 t ht hwin b hb
      · have htimely := h t ht hwin
        rwa [show n.bucketAt t = b from bucketAt_of_lookup hb] at htimely

theorem Current.receiveMsg (time : Int) (messages : List SecMsgToken)
    (hfills : n.FillsBucket day now fSpace fValid (.smsgMsg time messages)) :
    (n.receiveMsg day now time messages fSpace fValid).Current now := by
  rcases receiveMsg_cases n fSpace fValid (leeway_nonneg hnow) time messages hfills with
    h | ⟨m, hm, htokens, h⟩
  · exact hn.quiet hnow h
  · exact ((hn.quiet hnow hm).rehash hnow htokens).quiet hnow h

variable (hpast : ∀ time, command = .smsgMatch time → time ≤ now)

include hpast

theorem Current.handle (hfills : n.FillsBucket day now fSpace fValid command) :
    (n.handle day now fSpace fValid command).1.Sane now ∧
      ((n.handle day now fSpace fValid command).1.ListsChanged now ↔
        n.MatchTimely now command) := by
  by_cases hmatch : ∃ time, command = .smsgMatch time
  · obtain ⟨time, rfl⟩ := hmatch
    exact hn.receiveMatch hnow (hpast time rfl)
  have htimely : n.MatchTimely now command := by
    cases command with
    | smsgMatch time => exact absurd ⟨time, rfl⟩ hmatch
    | _ => trivial
  have h : (n.handle day now fSpace fValid command).1.Current now := by
    by_cases hmsg : ∃ time messages, command = .smsgMsg time messages
    · obtain ⟨time, messages, rfl⟩ := hmsg
      exact hn.receiveMsg fSpace fValid hnow time messages hfills
    · exact hn.quiet hnow (handle_quiet n fSpace fValid day (fun time h => hmatch ⟨time, h⟩)
        fun time messages h => hmsg ⟨time, messages, h⟩)
  exact ⟨h.toSane, iff_of_true h.listsChanged htimely⟩

theorem Current.receiveData (day : Nat)
    (hfills : n.Handles now command → n.FillsBucket day now fSpace fValid command) :
    (n.receiveData day now command fSpace fValid).1.Sane now ∧
      (∀ time, .smsgMatch time ∈ (n.receiveData day now command fSpace fValid).2 → time ≤ now) ∧
      ((n.receiveData day now command fSpace fValid).1.ListsChanged now ↔
        (n.Handles now command → n.MatchTimely now command)) := by
  rcases receiveData_cases n fSpace fValid day command with ⟨hhandles, h, hsent⟩ | ⟨hhandles, heq⟩
  · have h := hn.quiet hnow h
    exact ⟨h.toSane, fun time ht => absurd ht (hsent time),
      iff_of_true h.listsChanged fun hhandles' => absurd hhandles' hhandles⟩
  · rw [heq]
    obtain ⟨hsane, hiff⟩ := (hn.quiet hnow (counted_quiet n command)).handle fSpace fValid hnow
      hpast ((fillsBucket_counted n fSpace fValid command command).mpr (hfills hhandles))
    rw [matchTimely_counted] at hiff
    exact ⟨hsane, fun time ht => Int.le_of_eq (eq_now_of_smsgMatch_mem_handle ht),
      hiff.trans ⟨fun h _ => h, fun h => h hhandles⟩⟩

end

end SmsgNode

/-! ## Runs -/

namespace SmsgSystem

def ListsChanged (s : SmsgSystem) : Prop := ∀ side, (s.node side).ListsChanged s.now

/-- A match that is handled is not later than a change that was not listed. -/
def MatchesTimely (s : SmsgSystem) : SmsgEvent → Prop
  | .receive side _ _ => ∀ command ∈ (s.inbox side).head?,
    (s.node side).Handles s.now command → (s.node side).MatchTimely s.now command
  | _ => True

/-- A bunch that is handled finds messages in its bucket or brings one that is stored. -/
def BunchesFill (day : Nat) (s : SmsgSystem) : SmsgEvent → Prop
  | .receive side fSpace fValid => ∀ command ∈ (s.inbox side).head?,
    (s.node side).Handles s.now command →
      (s.node side).FillsBucket day s.now fSpace fValid command
  | _ => True

instance (s : SmsgSystem) (e : SmsgEvent) : Decidable (s.MatchesTimely e) := by
  unfold MatchesTimely
  split <;> infer_instance

instance (day : Nat) (s : SmsgSystem) (e : SmsgEvent) : Decidable (s.BunchesFill day e) := by
  unfold BunchesFill
  split <;> infer_instance

structure Sane (s : SmsgSystem) : Prop where
  node : ∀ side, (s.node side).Sane s.now
  inbox : ∀ side, ∀ time : Int, .smsgMatch time ∈ s.inbox side → time ≤ s.now

variable {day : Nat} {s : SmsgSystem}

theorem listsChanged_iff_current (hs : s.Sane) :
    s.ListsChanged ↔ ∀ side, (s.node side).Current s.now := by
  refine forall_congr' fun side => ?_
  rw [SmsgNode.listsChanged_iff]
  exact ⟨fun ⟨ht, hf⟩ => ⟨hs.node side, ht, hf⟩, fun h => ⟨h.timely, h.filled⟩⟩

variable {side : Bool} {r : SmsgNode × List SmsgCommand} {inbox : Bool → List SmsgCommand}

theorem node_move {P : SmsgNode → Prop} (hs : ∀ side, P (s.node side)) (hr : P r.1) (other : Bool) :
    P ((s.move side r inbox).node other) := by
  by_cases heq : other = side
  · subst heq
    simpa [move] using hr
  · simpa [move, heq] using hs other

theorem mem_inbox_move {other : Bool} {command : SmsgCommand}
    (h : command ∈ (s.move side r inbox).inbox other) : command ∈ inbox other ∨ command ∈ r.2 := by
  simp only [move, Function.update_apply] at h
  split at h
  case isTrue heq => exact heq ▸ mem_append.mp h
  case isFalse => exact .inl h

theorem mem_inbox_of_mem_rest {other : Bool} {command answer : SmsgCommand}
    {rest : List SmsgCommand} (hinbox : s.inbox side = command :: rest)
    (h : answer ∈ Function.update s.inbox side rest other) : answer ∈ s.inbox other := by
  rw [Function.update_apply] at h
  split at h
  case isTrue heq => exact heq ▸ hinbox ▸ .tail _ h
  case isFalse => exact h

theorem sane_move (hs : s.Sane) (hr : r.1.Sane s.now)
    (hinbox : ∀ side, ∀ time : Int, .smsgMatch time ∈ inbox side → time ≤ s.now)
    (hsent : ∀ time : Int, .smsgMatch time ∈ r.2 → time ≤ s.now) : (s.move side r inbox).Sane := by
  refine ⟨node_move hs.node hr, fun other time hmem => ?_⟩
  rcases mem_inbox_move hmem with h | h
  · exact hinbox other time h
  · exact hsent time h

theorem listsChanged_move_iff (hs : s.ListsChanged) :
    (s.move side r inbox).ListsChanged ↔ r.1.ListsChanged s.now := by
  constructor
  · intro h
    simpa [move] using h side
  · exact node_move (P := SmsgNode.ListsChanged s.now) hs

theorem step_of_listsChanged (hs : s.Sane) (hlists : s.ListsChanged) (e : SmsgEvent)
    (hfills : s.BunchesFill day e) :
    (s.step day e).Sane ∧ ((s.step day e).ListsChanged ↔ s.MatchesTimely e) := by
  have hnow : (0 : Int) ≤ s.now := Int.natCast_nonneg s.now
  have hcurrent := (listsChanged_iff_current hs).mp hlists
  cases e with
  | tick seconds =>
    have hlater : ∀ side, (s.node side).Current (s.now + seconds : Nat) :=
      fun side => (hcurrent side).later (by omega)
    refine ⟨⟨fun side => (hlater side).toSane, fun side time hmem => ?_⟩, ?_⟩
    · have := hs.inbox side time hmem
      simp only [step]
      omega
    · exact iff_of_true (fun side => (hlater side).listsChanged) trivial
  | store side token fSpace =>
    have h := (hcurrent side).store hnow day token fSpace true
    refine ⟨sane_move hs h.toSane hs.inbox (by simp), ?_⟩
    exact iff_of_true ((listsChanged_move_iff hlists).mpr h.listsChanged) trivial
  | manage side =>
    have h := (hcurrent side).manageLoop hnow day (s.node side).buckets.keys
    refine ⟨sane_move hs h.toSane hs.inbox fun time ht => ?_, ?_⟩
    · cases SmsgNode.eq_smsgIgnore_of_mem_manageLoop ht
    · exact iff_of_true ((listsChanged_move_iff hlists).mpr h.listsChanged) trivial
  | send side =>
    have h := (hcurrent side).sendData hnow
    refine ⟨sane_move hs h.toSane hs.inbox fun time ht => ?_, ?_⟩
    · exact absurd ht (SmsgNode.smsgMatch_notMem_sendData _ time)
    · exact iff_of_true ((listsChanged_move_iff hlists).mpr h.listsChanged) trivial
  | receive side fSpace fValid =>
    cases hinbox : s.inbox side with
    | nil => simp [step, MatchesTimely, hinbox, hs, hlists]
    | cons command rest =>
      simp only [BunchesFill, hinbox, head?_cons, Option.mem_some_iff, forall_eq'] at hfills
      simp only [step, MatchesTimely, hinbox, head?_cons, Option.mem_some_iff, forall_eq']
      have hpast : ∀ time : Int, command = .smsgMatch time → time ≤ s.now :=
        fun time h => hs.inbox side time (by simp [hinbox, h])
      obtain ⟨hsane, hsent, hiff⟩ :=
        (hcurrent side).receiveData fSpace fValid hnow hpast day hfills
      refine ⟨sane_move hs hsane (fun other time hmem => ?_) hsent, ?_⟩
      · exact hs.inbox other time (mem_inbox_of_mem_rest hinbox hmem)
      · rw [listsChanged_move_iff hlists]
        exact hiff

theorem sane_init (now : Nat) : (init now).Sane := by
  refine ⟨fun side => ⟨?_, ?_, ?_, ?_⟩, fun side time h => ?_⟩
  · simp [init, SmsgNode.new, SecMsgNode.new]
  · simp [init, SmsgNode.new]
  · simp [init, SmsgNode.new]
  · simp [init, SmsgNode.new]
  · simp [init] at h

theorem listsChanged_init (now : Nat) : (init now).ListsChanged := by
  intro side time h
  simp [init, SmsgNode.new] at h

/-- Along a run in which every bunch fills its bucket, every changed bucket is in the next
inventory exactly if no match is later than a change that was not listed. -/
theorem listsChanged_along_iff (day now : Nat) (events : List SmsgEvent)
    (hfills : Along (step day) (BunchesFill day) (init now) events) :
    Along (step day) (fun s e => (s.step day e).ListsChanged) (init now) events ↔
      Along (step day) MatchesTimely (init now) events := by
  have h : Along (step day) (fun s e => s.BunchesFill day e ∧ (s.step day e).ListsChanged)
      (init now) events ↔
        Along (step day) (fun s e => s.BunchesFill day e ∧ s.MatchesTimely e)
          (init now) events := by
    refine Along.iff_of_invariant (I := fun s => s.Sane ∧ s.ListsChanged) ?_ ?_
      ⟨sane_init now, listsChanged_init now⟩ events
    · rintro s e ⟨hs, hlists⟩
      exact and_congr_right fun hfills => (step_of_listsChanged hs hlists e hfills).2
    · rintro s e ⟨hs, hlists⟩ ⟨hfills, h⟩
      exact ⟨(step_of_listsChanged hs hlists e hfills).1, h⟩
  rw [Along.and, Along.and] at h
  exact and_congr_right_iff.mp h hfills

def oldToken : SecMsgToken := ⟨7200, [1, 0, 0, 0, 0, 0, 0, 0], 2, 100⟩

def newToken : SecMsgToken := ⟨7203, [2, 0, 0, 0, 0, 0, 0, 0], 2, 100⟩

def deliver (side : Bool) : SmsgEvent := .receive side true fun _ => true

def handshake : List SmsgEvent :=
  let A := true
  let B := false
  [.send A, .send B, deliver A, deliver A, deliver B, deliver B, deliver B, deliver B,
    deliver A, deliver A, deliver A, deliver B]

/-- The second node gets the bucket of the first, matches the next offer of it, and the first
node stores `newToken` afterwards. -/
def timelyMatch : List SmsgEvent :=
  let A := true
  let B := false
  handshake ++ [.store A oldToken true, .tick 2, .send A, deliver B, deliver A, deliver B,
    deliver A, deliver B, .tick 2, .send A, deliver B, deliver A, .tick 1]

theorem listsChanged_along_iff_timelyMatch :
    let s := timelyMatch.foldl (step SMSG_SECONDS_IN_DAY) (init 7200)
    let stored := s.step SMSG_SECONDS_IN_DAY (.store true newToken true)
    ((s.node false).bucketAt 7200).setTokens = [oldToken] ∧ (s.node true).peer.lastMatched = 7204 ∧
      7200 ∈ (stored.node true).changed ∧ stored.ListsChanged := by
  refine ⟨by decide +kernel, by decide +kernel, by decide +kernel, ?_⟩
  exact ((listsChanged_along_iff SMSG_SECONDS_IN_DAY 7200
    (timelyMatch ++ [.store true newToken true]) (by decide +kernel)).mpr (by decide +kernel)).last

/-- The first node offers its bucket and then stores `newToken`; the second one answers the
offer later. -/
def lateMatch : List SmsgEvent :=
  let A := true
  let B := false
  handshake ++ [.store A oldToken true, .store B oldToken true, .tick 2, .send A, .tick 1,
    .store A newToken true, .tick 1, deliver B, .tick 1, deliver A, .tick 1]

def afterLateMatch : SmsgSystem := lateMatch.foldl (step SMSG_SECONDS_IN_DAY) (init 7200)

/-- The answer marks `newToken` as matched: the second node does not have it and
`SendData`, which nothing holds back, does not list its bucket. -/
theorem match_withholds_newToken :
    (7200 ∈ (afterLateMatch.node true).changed ∧ InWindow afterLateMatch.now 7200 ∧
      ((afterLateMatch.node true).buckets.lookup 7200).map SecMsgBucket.setTokens =
        some [oldToken, newToken] ∧
      ((afterLateMatch.node false).buckets.lookup 7200).map SecMsgBucket.setTokens =
        some [oldToken]) ∧
    (0 < (afterLateMatch.node true).peer.lastSeen ∧ (afterLateMatch.node true).peer.fEnabled ∧
      SMSG_SEND_DELAY ≤ afterLateMatch.now - (afterLateMatch.node true).peer.lastSeen ∧
      (afterLateMatch.node true).peer.ignoreUntil ≤ afterLateMatch.now) ∧
    ((afterLateMatch.node true).sendData afterLateMatch.now).2 = [] ∧
    ¬ afterLateMatch.ListsChanged := by
  refine ⟨by decide +kernel, by decide +kernel, by decide +kernel, fun h => ?_⟩
  have hinventory : (afterLateMatch.node true).inventory afterLateMatch.now = [] := by
    decide +kernel
  have hbucket : 7200 ∈ (afterLateMatch.node true).buckets :=
    AList.lookup_isSome.mp (by decide +kernel)
  have hlisted := h true 7200 (by decide +kernel) (by decide +kernel) hbucket
  simp [hinventory] at hlisted

end SmsgSystem

end Verge
