import Verge.Foundation.Runs
import Verge.Smsg.Disk

/-!
# Loading the message store

A restart forgets the buckets and reads them from their files again.  What comes back
are the records with the days to live that their headers tell, so the store is the
same again exactly if every purged record has the version `0.0`.  `Remove` writes two
bytes of version from a buffer of one byte; the second is whatever follows in memory.
-/

namespace Verge

open Foundation DiskRecord List AssocMap SecureMessageCodes

def DiskRecord.loaded (r : DiskRecord) : DiskRecord := { r with ttl := r.smsg.nDaysToLiveLoaded }

namespace SmsgStore

variable {s : SmsgStore} {time : Int} {records : List DiskRecord} (hashes : SmsgHashes) (day : Nat)

theorem loadLoop_setTokens (records : List DiskRecord) (rounds ofs : Nat) (b : StoreBucket)
    (h : (records.flatMap bytes).length ≤ rounds) :
    (loadLoop rounds (records.flatMap bytes) ofs b).setTokens =
      ((placed size ofs (records.map loaded)).map token).foldl
        (fun set token => token.insert set) b.setTokens := by
  induction records generalizing rounds ofs b with
  | nil =>
    cases rounds with
    | zero => rfl
    | succ rounds => simp [loadLoop, readHeader, SMSG_HDR_LEN, placed]
  | cons r records ih =>
    have hlt := r.lt_length
    have hsize : r.size + (records.flatMap bytes).length ≤ rounds := by
      simpa [length_bytes] using h
    cases rounds with
    | zero => simp [size, SMSG_HDR_LEN] at hsize
    | succ rounds =>
      have hrest : (records.flatMap bytes).length ≤ rounds := by
        simp only [size, SMSG_HDR_LEN] at hsize
        omega
      have hread : (r :: records).flatMap bytes =
          r.smsg.data ++ (r.payload ++ records.flatMap bytes) := by simp [bytes]
      have hdrop : (r.smsg.data ++ (r.payload ++ records.flatMap bytes)).drop SMSG_HDR_LEN =
          r.payload ++ records.flatMap bytes := drop_left' r.smsg.length_data
      have hsample : (r.payload ++ records.flatMap bytes).take 8 = r.payload.take 8 :=
        take_append_of_le_length (by omega)
      have htoken : token (ofs, r.loaded) =
          ⟨⟨r.smsg.timestamp, r.payload.take 8, r.smsg.nDaysToLiveLoaded,
            r.payload.length⟩, ofs⟩ := by
        simp [token, FileToken.ofMessage, loaded, show ¬ r.payload.length < 8 by omega]
      have hnext : (r.payload ++ records.flatMap bytes).drop r.payload.length =
          records.flatMap bytes := drop_left
      have hlong : ¬ (r.payload ++ records.flatMap bytes).length < 8 := by
        rw [length_append]
        omega
      rw [hread]
      simp only [loadLoop, readHeader_data, hdrop, r.nPayload_eq, hsample, hnext,
        if_neg (show ¬ r.payload.length < 8 by omega), if_neg hlong]
      rw [ih rounds _ _ hrest, map_cons, placed, map_cons, foldl_cons, htoken]
      simp only [size, loaded, Nat.add_assoc]

theorem buckets_dropWlFiles (now : Int) (times : List Int) (s : SmsgStore) :
    (times.foldl (dropWlFile now) s).buckets = s.buckets := by
  induction times generalizing s with
  | nil => rfl
  | cons time times ih =>
    rw [foldl_cons, ih]
    unfold dropWlFile
    split <;> rfl

theorem lookup_reload (s : SmsgStore) {now : Int} (h : now - SMSG_RETENTION ≤ time) :
    (s.reload day now).buckets.lookup time = (s.files.lookup time).map fun file =>
      (loadLoop file.length file 0 .new).hashBucket day now := by
  let update (fileTime : Int) (file : List UInt8) (bucket : Option StoreBucket) :=
    if fileTime < now - SMSG_RETENTION then bucket
    else some ((loadLoop file.length file 0 (bucket.getD .new)).hashBucket day now)
  have hstep : ∀ (s : SmsgStore) (fileTime : Int) (file : List UInt8) (t : Int),
      (loadFile day now s fileTime file).buckets.lookup t =
        if t = fileTime then update fileTime file (s.buckets.lookup fileTime)
        else s.buckets.lookup t := by
    intro s fileTime file t
    simp only [loadFile, update]
    split
    case isTrue =>
      split
      case isTrue ht => rw [ht]
      case isFalse => rfl
    case isFalse => rw [setBucket, lookup_insert_ite]; rfl
  simp only [reload, buildBucketSet, buckets_dropWlFiles]
  rw [foldl_read (loadFile day now) (fun s t => s.buckets.lookup t) update hstep]
  cases s.files.lookup time with
  | none => rfl
  | some file => simp [update, show ¬ time < now - SMSG_RETENTION by omega]

theorem Layout.tokensAt_reload (h : s.Layout time records) {now : Int}
    (htime : now - SMSG_RETENTION ≤ time) :
    (s.reload day now).tokensAt time = tokens (records.map loaded) := by
  have hlookup := lookup_reload day s htime
  have hfile := h.file_eq
  unfold tokensAt bucketAt
  rw [hlookup]
  unfold fileAt at hfile
  cases hf : s.files.lookup time with
  | none =>
    rw [hf] at hfile
    cases records with
    | nil => rfl
    | cons r records =>
      have hlength := congrArg List.length hfile
      simp [length_bytes, size, SMSG_HDR_LEN] at hlength
      omega
  | some file =>
    rw [hf, Option.getD_some] at hfile
    subst hfile
    exact loadLoop_setTokens records _ 0 .new le_rfl

/-- A restart, at any time, gives every bucket in the retention window the same tokens. -/
def Reloads (s : SmsgStore) : Prop :=
  ∀ now time, now - SMSG_RETENTION ≤ time →
    (s.reload day now).tokensAt time = s.tokensAt time

/-- A restart at `now` gives every bucket in the retention window that has tokens the hash
it had before. -/
def ReloadsHashes (s : SmsgStore) (now : Int) : Prop :=
  ∀ time, now - SMSG_RETENTION ≤ time → (s.reload day now).tokensAt time ≠ [] →
    ((s.reload day now).bucketAt time).hash = (s.bucketAt time).hash

def Retrieves (s : SmsgStore) : Prop :=
  ∀ time, ∀ token ∈ s.tokensAt time, token.ttl ≠ 0 →
    ∃ message, s.stored.lookup token.key = some message ∧ s.retrieve token = some message

variable {disk : Int → List DiskRecord}

theorem Represents.retrieves (h : s.Represents disk) :
    s.Retrieves := by
  intro time t ht httl
  have hlayout := h time
  rw [hlayout.tokens_eq, mem_tokens hlayout.nodup] at ht
  obtain ⟨pos, r, hmem, rfl⟩ := ht
  refine ⟨(r.smsg, r.payload), ?_, hlayout.retrieve_token hmem⟩
  rw [key_token]
  exact (hlayout.intact r (mem_of_placed hmem) httl).2

theorem nDaysToLiveLoaded_of_purged {r : DiskRecord} (h : r.smsg.version.1 = 0) :
    r.smsg.nDaysToLiveLoaded = if r.smsg.version = (0, 0) then 0 else 2 := by
  simp [SecureMessage.nDaysToLiveLoaded, SecureMessage.nDaysToLive, h]

theorem Layout.loaded_eq (h : s.Layout time records)
    (hversion : ∀ r ∈ records, r.ttl = 0 → r.smsg.version = (0, 0)) :
    records.map loaded = records := by
  conv_rhs => rw [← map_id records]
  apply map_congr_left
  intro r hr
  have httl : r.smsg.nDaysToLiveLoaded = r.ttl := by
    by_cases hpurged : r.ttl = 0
    · rw [nDaysToLiveLoaded_of_purged (h.purged r hr hpurged), if_pos (hversion r hr hpurged),
        hpurged]
    · exact (h.intact r hr hpurged).1.symm
  simp only [loaded, httl, id]

theorem Represents.reloads_iff (h : s.Represents disk) :
    s.Reloads day ↔ ∀ time, ∀ r ∈ disk time, r.ttl = 0 → r.smsg.version = (0, 0) := by
  constructor
  case mp =>
    intro hreloads time r hr httl
    by_contra hversion
    have hlayout := h time
    obtain ⟨pos, hplaced⟩ := exists_place r hr
    have hold : token (pos, r) ∈ s.tokensAt time := by
      rw [hlayout.tokens_eq, mem_tokens hlayout.nodup]
      exact ⟨pos, r, hplaced, rfl⟩
    have hwindow : time - SMSG_RETENTION ≤ time := by
      simp only [SMSG_RETENTION]
      omega
    rw [← hreloads time time hwindow, hlayout.tokensAt_reload day hwindow] at hold
    -- the loaded token with the key of the record has two days to live
    obtain ⟨⟨pos', r'⟩, hplaced', heq⟩ := mem_map.mp (FileToken.of_mem_insertAll hold)
    obtain ⟨r₀, hr₀, rfl⟩ := mem_map.mp (mem_of_placed hplaced')
    have hkey : r₀.key = r.key := by
      have hkeys := congrArg FileToken.key heq
      rwa [key_token, key_token] at hkeys
    have hrecord : r₀ = r := inj_on_of_nodup_map hlayout.nodup hr₀ hr hkey
    subst hrecord
    have httl' : r₀.smsg.nDaysToLiveLoaded = r₀.ttl := congrArg (fun t => t.ttl) heq
    rw [nDaysToLiveLoaded_of_purged (hlayout.purged r₀ hr₀ httl), if_neg hversion, httl] at httl'
    exact absurd httl' (by decide)
  case mpr =>
    intro hversion now time htime
    rw [(h time).tokensAt_reload day htime, (h time).tokens_eq,
      (h time).loaded_eq (hversion time)]

/-- If `Purge` removes a record, the byte behind its buffer is zero as well. -/
def ClearsVersion (s : SmsgStore) : StoreEvent → Prop
  | .purge msgId _ beyond => s.findPurged hashes msgId ≠ none → beyond.version = 0
  | _ => True

theorem version_of_diskStep {e : StoreEvent} {disk' : Int → List DiskRecord}
    (hstep : DiskStep hashes disk e disk')
    (hclears : ∀ msgId now beyond, e = .purge msgId now beyond → beyond.version = 0)
    (h : ∀ time, ∀ r ∈ disk time, r.ttl = 0 → r.smsg.version = (0, 0)) :
    ∀ time, ∀ r ∈ disk' time, r.ttl = 0 → r.smsg.version = (0, 0) := by
  intro time r hr httl
  cases hstep with
  | forget hforgets =>
    cases hforgets time with
    | inl heq => exact h time r (heq ▸ hr) httl
    | inr heq => simp [heq] at hr
  | @append now fSpace fHashBucket m =>
    rw [Function.update_apply] at hr
    split at hr
    case isTrue htime =>
      cases mem_append.mp hr with
      | inl hr => exact h _ r hr httl
      | inr hr =>
        cases mem_singleton.mp hr
        exact absurd httl (nDaysToLive_accepted m)
    case isFalse => exact h time r hr httl
  | @wipe msgId now beyond wipedTime wiped hmem hid =>
    rw [Function.update_apply] at hr
    split at hr
    case isTrue htime =>
      obtain ⟨r₀, hr₀, rfl⟩ := mem_map.mp hr
      unfold wipeKey at httl ⊢
      split
      case isTrue =>
        have hzero := hclears msgId now beyond rfl
        simp [wipe, hzero]
      case isFalse hne =>
        rw [if_neg hne] at httl
        exact h _ r₀ hr₀ httl
    case isFalse => exact h time r hr httl

theorem reloads_step_iff {e : StoreEvent} (h : s.Represents disk) (hs : s.Reloads day) :
    (s.step hashes day e).Reloads day ↔ s.ClearsVersion hashes e := by
  have hversion := (h.reloads_iff day).mp hs
  have hquiet : (∀ msgId now beyond, e ≠ .purge msgId now beyond) →
      (s.step hashes day e).Reloads day := by
    intro he
    obtain ⟨disk', h', hstep⟩ := h.step hashes day e
    exact (h'.reloads_iff day).mpr (version_of_diskStep hashes hstep
      (fun msgId now beyond heq => absurd heq (he msgId now beyond)) hversion)
  cases e with
  | purge msgId now beyond =>
    obtain ⟨hnone, h'⟩ | ⟨pos, r, hmem, hfind, hid, h'⟩ := h.purge hashes msgId now beyond
    · have hreloads : (s.step hashes day (.purge msgId now beyond)).Reloads day :=
        (h'.reloads_iff day).mpr hversion
      exact iff_of_true hreloads fun hne => absurd hnone hne
    · have hreloads := h'.reloads_iff day
      constructor
      case mp =>
        intro hall _
        have hwiped : wipe beyond r ∈ (disk (bucketTimeOf (msgTime msgId))).map
            (wipeKey beyond r.key) :=
          mem_map.mpr ⟨r, mem_of_placed hmem, if_pos rfl⟩
        have hpair := hreloads.mp hall (bucketTimeOf (msgTime msgId)) (wipe beyond r)
          (by rw [Function.update_self]; exact hwiped) rfl
        exact congrArg Prod.snd hpair
      case mpr =>
        intro hclears
        have hzero : beyond.version = 0 := hclears (by simp [hfind])
        have hstep : DiskStep hashes disk (.purge msgId now beyond) _ :=
          .wipe (mem_of_placed hmem) hid
        exact hreloads.mpr (version_of_diskStep hashes hstep
          (fun _ _ _ heq => by cases heq; exact hzero) hversion)
  | store m now fSpace fHashBucket => exact iff_of_true (hquiet (by simp)) trivial
  | storeUnscanned m now fSpace => exact iff_of_true (hquiet (by simp)) trivial
  | manage now wall => exact iff_of_true (hquiet (by simp)) trivial
  | buildPurgedSets now => exact iff_of_true (hquiet (by simp)) trivial
  | smsgShow time now => exact iff_of_true (hquiet (by simp)) trivial
  | smsgWant time now keys => exact iff_of_true (hquiet (by simp)) trivial

/-! ## The hash of a bucket

`Store` hashes a bucket only if it is told to, `Purge` does not, and the management thread
does when the first of its messages may have expired. -/

/-- Whether a round of the management thread hashes the bucket. -/
def hashesExpired (now time : Int) (s : SmsgStore) : Bool :=
  (s.buckets.lookup time).any fun b =>
    !decide (time < now - SMSG_RETENTION) && decide (time + b.nLeastTTL * day < now)

/-- When the bucket was last hashed, or `none` if a message was stored without hashing or
purged since. -/
def hashedBy (time : Int) (s : SmsgStore) (last : Option Int) : StoreEvent → Option Int
  | .store m now fSpace fHashBucket =>
    if bucketTimeOf m.smsg.timestamp = time ∧
        (s.store hashes day now m.smsg m.payload fSpace fHashBucket).2 = SMSG_NO_ERROR then
      if fHashBucket then some now else none
    else last
  | .purge msgId _ _ =>
    if bucketTimeOf (msgTime msgId) = time ∧ s.findPurged hashes msgId ≠ none then none else last
  | .manage now _ => if s.hashesExpired day now time then some now else last
  | _ => last

def hashedAt (time : Int) : SmsgStore → Option Int → List StoreEvent → Option Int
  | _, last, [] => last
  | s, last, e :: events =>
    hashedAt time (s.step hashes day e) (s.hashedBy hashes day time last e) events

/-- Every bucket in the window that has messages was hashed with the messages it has, and none
of them expired between then and `now`. -/
def UpToDate (events : List StoreEvent) (now : Int) : Prop :=
  ∀ time, now - SMSG_RETENTION ≤ time →
    (events.foldl (step hashes day) new).tokensAt time ≠ [] →
      ∃ t, hashedAt hashes day time new none events = some t ∧
        ∀ token ∈ (events.foldl (step hashes day) new).tokensAt time,
          token.expired day t = token.expired day now

def HashKept (s : SmsgStore) (time : Int) (last : Option Int) : Prop :=
  ∀ t, last = some t → s.tokensAt time ≠ [] →
    (s.bucketAt time).hash = ((s.bucketAt time).hashBucket day t).hash

theorem HashKept.congr {s s' : SmsgStore} {last : Option Int} (h : s.HashKept day time last)
    (hhash : (s'.bucketAt time).hash = (s.bucketAt time).hash)
    (htokens : s'.tokensAt time = s.tokensAt time) : s'.HashKept day time last := by
  intro t ht hne
  rw [hhash, h t ht (htokens ▸ hne)]
  exact StoreBucket.hashBucket_hash_congr day t htokens.symm

theorem HashKept.congr_bucket {s s' : SmsgStore} {last : Option Int} (h : s.HashKept day time last)
    (hbucket : s'.bucketAt time = s.bucketAt time) : s'.HashKept day time last :=
  h.congr day (by rw [hbucket]) (by rw [tokensAt, tokensAt, hbucket])

theorem tickLock_hash (b : StoreBucket) : (tickLock b).hash = b.hash := by
  unfold tickLock
  split <;> rfl

theorem hashKept_hashBucket {b : StoreBucket} {now : Int} {last : Option Int}
    (hbucket : s.bucketAt time = tickLock (b.hashBucket day now)) (hlast : last = some now) :
    s.HashKept day time last := by
  rintro t ht -
  cases hlast.symm.trans ht
  rw [hbucket, tickLock_hash]
  exact StoreBucket.hashBucket_hash_congr day now (b := b)
    (tickLock_setTokens (b.hashBucket day now)).symm

theorem bucketAt_of_lookup {b : StoreBucket} (h : s.buckets.lookup time = some b) :
    s.bucketAt time = b := by
  rw [bucketAt, h]
  rfl

theorem hashKept_of_lookup_none {last : Option Int} (h : s.buckets.lookup time = none) :
    s.HashKept day time last := by
  refine fun t ht hne => absurd ?_ hne
  rw [tokensAt, bucketAt, h]
  rfl

theorem bucketAt_setBucket_self (s : SmsgStore) (time t : Int) :
    (s.setBucket time (s.bucketAt time)).bucketAt t = s.bucketAt t := by
  rw [bucketAt_setBucket]
  split
  case isTrue heq => rw [heq]
  case isFalse => rfl

theorem bucketAt_store (s : SmsgStore) (m : AcceptedMessage) (now : Int)
    (fSpace fHashBucket : Bool) :
    let r := s.store hashes day now m.smsg m.payload fSpace fHashBucket
    (r.2 ≠ SMSG_NO_ERROR ∧ ∀ t, r.1.bucketAt t = s.bucketAt t) ∨
      (r.2 = SMSG_NO_ERROR ∧ ∃ b : StoreBucket, ∀ t, r.1.bucketAt t =
        if t = bucketTimeOf m.smsg.timestamp then
          if fHashBucket then b.hashBucket day now else b
        else s.bucketAt t) := by
  obtain ⟨set, hset⟩ := exists_checkStorable hashes day now s m.smsg m.payload
  have hsame : ∀ t, { s with setPurged := set }.bucketAt t = s.bucketAt t := fun _ => rfl
  simp only [store, hset]
  generalize { s with setPurged := set } = checked at hsame
  by_cases hcode : (s.checkStorable hashes day now m.smsg m.payload).2 = SMSG_NO_ERROR
  · rw [if_neg (not_not.mpr hcode)]
    by_cases hkey : (checked.bucketAt (bucketTimeOf m.smsg.timestamp)).hasKey
        (FileToken.ofMessage m.smsg m.payload 0 m.smsg.nDaysToLive).key = true
    · rw [if_pos hkey]
      exact .inl ⟨by simp, fun t => (bucketAt_setBucket_self _ _ t).trans (hsame t)⟩
    · rw [if_neg hkey]
      cases fSpace with
      | false => exact .inl ⟨by simp, fun t => (bucketAt_setBucket_self _ _ t).trans (hsame t)⟩
      | true =>
        refine .inr ⟨rfl, (checked.bucketAt (bucketTimeOf m.smsg.timestamp)).addToken
          (FileToken.ofMessage m.smsg m.payload
            (checked.fileAt (bucketTimeOf m.smsg.timestamp)).length m.smsg.nDaysToLive), ?_⟩
        intro t
        rw [← hsame t]
        exact bucketAt_setBucket checked _ t _
  · rw [if_pos hcode]
    exact .inl ⟨hcode, hsame⟩

theorem bucketAt_purge (s : SmsgStore) (msgId : MsgId) (now : Int) (beyond : Beyond)
    (h : ¬ (bucketTimeOf (msgTime msgId) = time ∧ s.findPurged hashes msgId ≠ none)) :
    (s.purge hashes now msgId beyond).bucketAt time = s.bucketAt time := by
  have hmade := bucketAt_setBucket_self s (bucketTimeOf (msgTime msgId)) time
  simp only [purge, findPurged_setBucket]
  cases hfind : s.findPurged hashes msgId with
  | none => exact hmade
  | some token =>
    have hne : time ≠ bucketTimeOf (msgTime msgId) := fun heq => h ⟨heq.symm, by simp [hfind]⟩
    have htime : token.timestamp = msgTime msgId := by
      have hsome := List.find?_some hfind
      simp only [Bool.and_eq_true, beq_iff_eq] at hsome
      exact hsome.1
    simp only [purgeToken, remove, htime]
    split
    · exact (bucketAt_setBucket _ _ _ _).trans ((if_neg hne).trans hmade)
    · exact hmade

theorem buckets_buildPurgedSets (s : SmsgStore) (now : Int) :
    (s.buildPurgedSets day now).buckets = s.buckets := by
  have hfold : ∀ (entries : List (Sigma fun _ : MsgId => SecMsgPurged)) (s : SmsgStore),
      (entries.foldl (fun s e => buildPurgedStep day now s e.1 e.2) s).buckets = s.buckets := by
    intro entries
    induction entries with
    | nil => exact fun s => rfl
    | cons e entries ih =>
      intro s
      rw [foldl_cons, ih]
      unfold buildPurgedStep
      split <;> rfl
  exact hfold _ _

/-- What a round of the management thread makes of one bucket. -/
def managed (now time : Int) (b : StoreBucket) : Option StoreBucket :=
  let fOld := decide (time < now - SMSG_RETENTION)
  let fExpired := !fOld && decide (time + b.nLeastTTL * day < now)
  let b := if fExpired then b.hashBucket day now else b
  if fOld || fExpired && decide (b.nActive < 1) then none else some (tickLock b)

theorem lookup_manage (s : SmsgStore) (now wall time : Int) :
    (s.manage day now wall).buckets.lookup time =
      (s.buckets.lookup time).bind (managed day now time) := by
  have hstep : ∀ (s : SmsgStore) (time : Int) (_ : StoreBucket) (t : Int),
      (manageBucket day now s time).buckets.lookup t =
        if t = time then (s.buckets.lookup time).bind (managed day now time)
        else s.buckets.lookup t := by
    intro s time _ t
    unfold manageBucket
    cases hlookup : s.buckets.lookup time with
    | none =>
      by_cases heq : t = time
      · rw [if_pos heq, heq]
        exact hlookup
      · rw [if_neg heq]
    | some b =>
      simp only [Option.bind_some, managed]
      generalize (!decide (time < now - SMSG_RETENTION) &&
        decide (time + b.nLeastTTL * day < now)) = fExpired
      generalize (if fExpired = true then b.hashBucket day now else b) = c
      generalize (decide (time < now - SMSG_RETENTION) || fExpired && decide (c.nActive < 1)) =
        fErase
      cases fErase with
      | true => exact lookup_erase_ite _ _ _
      | false => exact lookup_insert_ite _ _ _ _
  have hbuckets : (s.manage day now wall).buckets =
      (s.buckets.keys.foldl (manageBucket day now) s).buckets := by
    simp only [manage]
    split
    · exact buckets_buildPurgedSets day _ _
    · rfl
  have hread := foldl_read (fun s time (_ : StoreBucket) => manageBucket day now s time)
    (fun s t => s.buckets.lookup t) (fun t _ bucket => bucket.bind (managed day now t)) hstep
    s.buckets s time
  rw [hbuckets, AList.keys, List.keys, foldl_map, hread]
  cases s.buckets.lookup time <;> rfl

section Step

variable {last : Option Int} (h : s.HashKept day time last)

include h

theorem HashKept.store (m : AcceptedMessage) (now : Int) (fSpace fHashBucket : Bool) :
    (s.step hashes day (.store m now fSpace fHashBucket)).HashKept day time
      (s.hashedBy hashes day time last (.store m now fSpace fHashBucket)) := by
  rw [hashedBy]
  obtain ⟨hcode, hsame⟩ | ⟨hcode, b, hbucket⟩ :=
    bucketAt_store hashes day s m now fSpace fHashBucket
  · rw [if_neg fun hstored => hcode hstored.2]
    exact h.congr_bucket day (hsame time)
  · by_cases htime : bucketTimeOf m.smsg.timestamp = time
    · rw [if_pos ⟨htime, hcode⟩]
      have hbucket := hbucket time
      rw [if_pos htime.symm] at hbucket
      cases fHashBucket with
      | false => exact fun t ht => by cases ht
      | true =>
        rintro t ht -
        cases ht
        rw [step, hbucket, if_pos rfl]
        exact StoreBucket.hashBucket_hash_congr day now (b := b) rfl
    · rw [if_neg fun hstored => htime hstored.1]
      exact h.congr_bucket day ((hbucket time).trans (if_neg (Ne.symm htime)))

theorem HashKept.manage (now wall : Int) :
    (s.step hashes day (.manage now wall)).HashKept day time
      (s.hashedBy hashes day time last (.manage now wall)) := by
  have hlookup := lookup_manage day s now wall time
  show (s.manage day now wall).HashKept day time
    (if s.hashesExpired day now time then some now else last)
  obtain hb | ⟨b, hb⟩ := Option.eq_none_or_eq_some (s.buckets.lookup time)
  · rw [hb] at hlookup
    exact hashKept_of_lookup_none day hlookup
  · have hexpired : s.hashesExpired day now time = (!decide (time < now - SMSG_RETENTION) &&
        decide (time + b.nLeastTTL * day < now)) := by
      rw [hashesExpired, hb]
      rfl
    rw [hexpired]
    simp only [hb, Option.bind_some, managed] at hlookup
    generalize (!decide (time < now - SMSG_RETENTION) &&
      decide (time + b.nLeastTTL * day < now)) = fExpired at hlookup ⊢
    -- a bucket that is dropped holds nothing; one that stays is hashed again when it has expired
    cases fExpired with
    | false =>
      simp only [Bool.false_and, Bool.or_false, Bool.false_eq_true, if_false] at hlookup
      split at hlookup
      case isTrue => exact hashKept_of_lookup_none day hlookup
      case isFalse =>
        have hold : s.bucketAt time = b := bucketAt_of_lookup hb
        have hnew := bucketAt_of_lookup hlookup
        refine h.congr day ?_ ?_
        · rw [hnew, hold, tickLock_hash]
        · rw [tokensAt, tokensAt, hnew, hold, tickLock_setTokens]
    | true =>
      simp only [Bool.true_and, if_true] at hlookup
      split at hlookup
      case isTrue => exact hashKept_of_lookup_none day hlookup
      case isFalse => exact hashKept_hashBucket day (bucketAt_of_lookup hlookup) rfl

theorem HashKept.step (e : StoreEvent) :
    (s.step hashes day e).HashKept day time (s.hashedBy hashes day time last e) := by
  cases e with
  | store m now fSpace fHashBucket => exact h.store hashes day m now fSpace fHashBucket
  | storeUnscanned m now fSpace =>
    obtain ⟨set, hset⟩ := exists_checkStorable hashes day now s m.smsg m.payload
    refine h.congr_bucket day ?_
    simp only [SmsgStore.step, storeUnscanned, hset]
    split_ifs <;> rfl
  | purge msgId now beyond =>
    rw [hashedBy]
    split
    case isTrue => exact fun t ht => by cases ht
    case isFalse hkeep => exact h.congr_bucket day (bucketAt_purge hashes s msgId now beyond hkeep)
  | manage now wall => exact h.manage hashes day now wall
  | buildPurgedSets now =>
    refine h.congr_bucket day ?_
    rw [SmsgStore.step, bucketAt, buckets_buildPurgedSets]
    rfl
  | smsgShow time now => exact h
  | smsgWant time now keys => exact h

theorem HashKept.run (events : List StoreEvent) :
    (events.foldl (SmsgStore.step hashes day) s).HashKept day time
      (hashedAt hashes day time s last events) := by
  induction events generalizing s last with
  | nil => exact h
  | cons e events ih => exact ih (h.step hashes day e)

end Step

/-- The loaded bucket is hashed when it is loaded; the hash in memory is older, but over the
same unexpired messages. -/
theorem reloadsHashes_of_upToDate {events : List StoreEvent} {now : Int}
    (hreloads : (events.foldl (step hashes day) new).Reloads day)
    (hfresh : UpToDate hashes day events now) :
    (events.foldl (step hashes day) new).ReloadsHashes day now := by
  intro time htime hne
  have htokens := hreloads now time htime
  have hkept : new.HashKept day time none := fun t ht => by cases ht
  rw [htokens] at hne
  obtain ⟨t, hlast, hexpired⟩ := hfresh time htime hne
  have hrun := hkept.run hashes day events t hlast hne
  rw [hrun, StoreBucket.hashBucket_hash_of_expired day now _ hexpired]
  have hlookup := lookup_reload day (events.foldl (step hashes day) new) htime
  cases hfile : (events.foldl (step hashes day) new).files.lookup time with
  | none =>
    rw [hfile] at hlookup
    refine absurd ?_ hne
    rw [← htokens, tokensAt, bucketAt, hlookup]
    rfl
  | some file =>
    rw [hfile] at hlookup
    rw [tokensAt, bucketAt, hlookup] at htokens
    rw [bucketAt, hlookup]
    exact StoreBucket.hashBucket_hash_congr day now htokens

/-- After every event of a run a restart gives the same tokens exactly if no removal leaves a
byte other than zero behind its version; the hashes are the same as well if they are up to
date. -/
theorem reloads_along_iff (events : List StoreEvent) :
    (Along (step hashes day)
        (fun s e => (s.step hashes day e).Reloads day ∧ (s.step hashes day e).Retrieves)
        new events ↔
      Along (step hashes day) (fun s e => s.ClearsVersion hashes e) new events) ∧
    (Along (step hashes day) (fun s e => s.ClearsVersion hashes e) new events →
      ∀ now, UpToDate hashes day events now →
        (events.foldl (step hashes day) new).ReloadsHashes day now) := by
  have hnew : new.Reloads day := (represents_new.reloads_iff day).mpr (by simp)
  have hiff : Along (step hashes day)
      (fun s e => (s.step hashes day e).Reloads day ∧ (s.step hashes day e).Retrieves)
      new events ↔ Along (step hashes day) (fun s e => s.ClearsVersion hashes e) new events := by
    apply Along.iff_of_invariant (I := fun s => (∃ disk, s.Represents disk) ∧ s.Reloads day)
    · rintro s e ⟨⟨disk, h⟩, hs⟩
      obtain ⟨disk', h', -⟩ := h.step hashes day e
      rw [reloads_step_iff hashes day h hs]
      exact and_iff_left h'.retrieves
    · rintro s e ⟨⟨disk, h⟩, hs⟩ ⟨hreloads, -⟩
      obtain ⟨disk', h', -⟩ := h.step hashes day e
      exact ⟨⟨disk', h'⟩, hreloads⟩
    · exact ⟨⟨_, represents_new⟩, hnew⟩
  refine ⟨hiff, fun hclears now hfresh => reloadsHashes_of_upToDate hashes day ?_ hfresh⟩
  rcases eq_nil_or_concat' events with rfl | ⟨front, e, rfl⟩
  · exact hnew
  · rw [foldl_concat]
    exact (hiff.mpr hclears).last.1

end SmsgStore

namespace SampleStore

def hashes : SmsgHashes where
  sha256 := fun _ => List.replicate 32 0
  length_sha256 := fun _ => List.length_replicate
  ripemd160 := fun bytes => (bytes.drop SMSG_HDR_LEN ++ List.replicate 20 0).take 20
  length_ripemd160 := fun bytes => by simp

def header : SecureMessage :=
  { SecureMessage.newPaid 1 with
    timestamp := 7200
    nPayload := 40
    timestamp_ge := by decide
    timestamp_lt := by decide
    nPayload_lt := by decide }

def message : AcceptedMessage where
  smsg := header
  payload := List.replicate 40 7
  nPayload_eq := rfl
  version_eq := rfl
  lt_length := by decide
  one_le_days := by decide
  days_le := by decide

def messageId : MsgId := hashes.getMsgID message.smsg message.payload

def events : List StoreEvent :=
  [.store message 7200 true true, .purge messageId 7200 ⟨1, fun _ => 0⟩]

def purgedStore : SmsgStore := events.foldl (SmsgStore.step hashes SMSG_SECONDS_IN_DAY) .new

theorem ttl_purgedStore :
    (purgedStore.tokensAt 7200).map (fun token => token.ttl) = [0] ∧
      ((purgedStore.reload SMSG_SECONDS_IN_DAY 7200).tokensAt 7200).map (fun token => token.ttl) =
        [2] := by
  decide +kernel

theorem purged_reloads_alive : ¬ purgedStore.Reloads SMSG_SECONDS_IN_DAY := by
  intro h
  obtain ⟨hold, hnew⟩ := ttl_purgedStore
  rw [h 7200 7200 (by decide), hold] at hnew
  exact absurd hnew (by decide)

def shortMessage : AcceptedMessage :=
  { message with
    payload := List.replicate 40 8
    nPayload_eq := rfl
    lt_length := by decide }

/-- The first message is purged with a zero behind the buffer, and a later one hashes the
bucket again. -/
def clearedEvents : List StoreEvent :=
  [.store message 7200 true true, .purge messageId 7200 ⟨0, fun _ => 9⟩,
    .store shortMessage 7201 true true]

def clearedStore : SmsgStore :=
  clearedEvents.foldl (SmsgStore.step hashes SMSG_SECONDS_IN_DAY) .new

theorem ttl_clearedStore :
    (clearedStore.tokensAt 7200).map (fun token => token.ttl) = [0, 1] ∧
      clearedStore.buckets.keys = [7200] := by
  decide +kernel

theorem upToDate_clearedEvents :
    SmsgStore.UpToDate hashes SMSG_SECONDS_IN_DAY clearedEvents 7300 := by
  intro time _ hne
  by_cases htime : time = 7200
  · subst htime
    exact ⟨7201, by decide +kernel, by decide +kernel⟩
  · refine absurd ?_ hne
    have hlookup : clearedStore.buckets.lookup time = none := by
      rw [AList.lookup_eq_none, AList.mem_keys, ttl_clearedStore.2, mem_singleton]
      exact htime
    show (clearedStore.bucketAt time).setTokens = []
    rw [SmsgStore.bucketAt, hlookup]
    rfl

theorem reloads_along_iff_cleared :
    (clearedStore.tokensAt 7200).map (fun token => token.ttl) = [0, 1] ∧
      clearedStore.Reloads SMSG_SECONDS_IN_DAY ∧ clearedStore.Retrieves ∧
      clearedStore.ReloadsHashes SMSG_SECONDS_IN_DAY 7300 := by
  obtain ⟨hiff, hhashes⟩ :=
    SmsgStore.reloads_along_iff hashes SMSG_SECONDS_IN_DAY clearedEvents
  have hclears : Along (SmsgStore.step hashes SMSG_SECONDS_IN_DAY)
      (fun s e => s.ClearsVersion hashes e) .new clearedEvents :=
    ⟨trivial, fun _ => rfl, trivial, trivial⟩
  obtain ⟨-, -, ⟨hreloads, hretrieves⟩, -⟩ := hiff.mpr hclears
  exact ⟨ttl_clearedStore.1, hreloads, hretrieves,
    hhashes hclears 7300 upToDate_clearedEvents⟩

end SampleStore

end Verge
