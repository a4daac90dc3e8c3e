import Mathlib.Data.List.Induction
import Verge.Smsg.Store

/-!
# The records behind the message store

What a store is for: every bucket is a list of records in the order in which they
were stored, and a purged record stays in its place.  `Represents` ties a store to
such lists: the file of a bucket is the concatenation of its records, the tokens are
those of the records at their places, and a record that was not purged is what was
last stored under its time stamp and sample.
-/

namespace Verge

open Foundation List AssocMap

/-! ## Sets of tokens -/

namespace FileToken

variable {f : FileToken → FileToken} {token t : FileToken} {tokens : List FileToken}

theorem lt_congr {x x' y y' : FileToken} (hx : x.key = x'.key) (hy : y.key = y'.key) :
    x.lt y.toSecMsgToken = x'.lt y'.toSecMsgToken := by
  simp only [key, Prod.mk.injEq] at hx hy
  simp only [SecMsgToken.lt, hx.1, hx.2, hy.1, hy.2]

theorem map_insert (hf : ∀ t, (f t).key = t.key) (token : FileToken) (tokens : List FileToken) :
    (insert token tokens).map f = insert (f token) (tokens.map f) := by
  induction tokens with
  | nil => rfl
  | cons t tokens ih =>
    have hlt : (f token).lt (f t).toSecMsgToken = token.lt t.toSecMsgToken :=
      lt_congr (hf token) (hf t)
    simp only [insert, map_cons, hf, hlt]
    split_ifs <;> simp [ih]

theorem map_insertAll (hf : ∀ t, (f t).key = t.key) (tokens : List FileToken) :
    (insertAll tokens).map f = insertAll (tokens.map f) := by
  induction tokens using List.reverseRecOn with
  | nil => rfl
  | append_singleton tokens token ih =>
    simp only [insertAll, map_append, map_cons, map_nil, foldl_append,
      foldl_cons, foldl_nil] at ih ⊢
    rw [map_insert hf, ih]

theorem insertAll_concat (tokens : List FileToken) (token : FileToken) :
    insertAll (tokens ++ [token]) = insert token (insertAll tokens) := by
  simp [insertAll]

theorem of_mem_insert (h : t ∈ insert token tokens) : t = token ∨ t ∈ tokens := by
  induction tokens with
  | nil => simpa [insert] using h
  | cons first tokens ih =>
    simp only [insert] at h
    split_ifs at h
    · exact .inr h
    · simpa using h
    · cases mem_cons.mp h with
      | inl h => simp [h]
      | inr h => exact (ih h).imp_right (mem_cons_of_mem first)

theorem of_mem_insertAll (h : t ∈ insertAll tokens) : t ∈ tokens := by
  induction tokens using List.reverseRecOn with
  | nil => simp [insertAll] at h
  | append_singleton tokens token ih =>
    rw [insertAll_concat] at h
    cases of_mem_insert h with
    | inl h => simp [h]
    | inr h => simp [ih h]

theorem mem_insert_of_mem (h : t ∈ tokens) : t ∈ insert token tokens := by
  induction tokens with
  | nil => cases h
  | cons first tokens ih =>
    simp only [insert]
    split_ifs
    · exact h
    · simp [mem_cons.mp h]
    · cases mem_cons.mp h with
      | inl h => simp [h]
      | inr h => simp [ih h]

theorem mem_insert_self (h : token.key ∉ tokens.map key) : token ∈ insert token tokens := by
  induction tokens with
  | nil => simp [insert]
  | cons first tokens ih =>
    simp only [map_cons, mem_cons, not_or] at h
    simp only [insert, h.1, if_false]
    split_ifs
    · simp
    · simp [ih h.2]

theorem mem_insertAll (hnodup : (tokens.map key).Nodup) : t ∈ insertAll tokens ↔ t ∈ tokens := by
  refine ⟨of_mem_insertAll, fun h => ?_⟩
  induction tokens using List.reverseRecOn with
  | nil => cases h
  | append_singleton tokens token ih =>
    simp only [map_append, map_cons, map_nil] at hnodup
    obtain ⟨hfront, -, hnew⟩ := nodup_append.mp hnodup
    rw [insertAll_concat]
    cases mem_append.mp h with
    | inl h => exact mem_insert_of_mem (ih hfront h)
    | inr h =>
      cases mem_singleton.mp h
      apply mem_insert_self
      intro hmem
      obtain ⟨u, hu, hkey⟩ := mem_map.mp hmem
      exact hnew u.key (mem_map_of_mem (of_mem_insertAll hu)) t.key (by simp) hkey

end FileToken

/-! ## Records -/

/-- A message in a file, with the days to live that its token has in memory. -/
@[ext] structure DiskRecord where
  smsg : SecureMessage
  payload : List UInt8
  ttl : Nat
  nPayload_eq : smsg.nPayload = payload.length
  lt_length : 8 < payload.length

namespace DiskRecord

def bytes (r : DiskRecord) : List UInt8 := r.smsg.data ++ r.payload

def size (r : DiskRecord) : Nat := SMSG_HDR_LEN + r.payload.length

def key (r : DiskRecord) : Int × List UInt8 := (r.smsg.timestamp, r.payload.take 8)

def token (placed : Nat × DiskRecord) : FileToken :=
  .ofMessage placed.2.smsg placed.2.payload placed.1 placed.2.ttl

def tokens (records : List DiskRecord) : List FileToken :=
  FileToken.insertAll ((placed size 0 records).map token)

def ofAccepted (m : AcceptedMessage) : DiskRecord :=
  ⟨m.smsg, m.payload, m.smsg.nDaysToLive, m.nPayload_eq, by have := m.lt_length; omega⟩

theorem length_payloadBytes (beyond : Beyond) (zlen : Nat) (h : 0 < zlen) :
    (beyond.payloadBytes zlen).length = zlen := by
  simp only [Beyond.payloadBytes, length_cons, length_map, length_range]
  omega

def wipe (beyond : Beyond) (r : DiskRecord) : DiskRecord where
  smsg := { r.smsg with version := (0, beyond.version) }
  payload := r.payload.take 8 ++ beyond.payloadBytes (r.payload.length - 8)
  ttl := 0
  nPayload_eq := by
    have h := r.lt_length
    have hlength := length_payloadBytes beyond (r.payload.length - 8) (by omega)
    simp only [List.length_append, List.length_take, hlength, r.nPayload_eq]
    omega
  lt_length := by
    have h := r.lt_length
    have hlength := length_payloadBytes beyond (r.payload.length - 8) (by omega)
    simp only [List.length_append, List.length_take, hlength]
    omega

variable (r : DiskRecord) (beyond : Beyond)

theorem key_token (pos : Nat) : (token (pos, r)).key = r.key := by
  have h := r.lt_length
  simp [token, FileToken.ofMessage, FileToken.key, key, show ¬ r.payload.length < 8 by omega]

theorem length_bytes : r.bytes.length = r.size := by simp [bytes, size]

theorem length_flatMap_bytes (records : List DiskRecord) :
    (records.flatMap bytes).length = (records.map size).sum := by
  simp [length_flatMap, length_bytes]

@[simp] theorem wipe_timestamp : (wipe beyond r).smsg.timestamp = r.smsg.timestamp := rfl

theorem length_wipe_payload : (wipe beyond r).payload.length = r.payload.length := by
  rw [← (wipe beyond r).nPayload_eq, ← r.nPayload_eq]
  rfl

theorem size_wipe : (wipe beyond r).size = r.size := by
  rw [size, size, length_wipe_payload]

theorem key_wipe : (wipe beyond r).key = r.key := by
  have h := r.lt_length
  have hsample : (r.payload.take 8).length = 8 := by rw [length_take]; omega
  simp only [key, wipe, Prod.mk.injEq, true_and]
  exact take_left' hsample

/-! ### Reading and writing a record -/

theorem readHeader_data (smsg : SecureMessage) (rest : List UInt8) :
    readHeader (smsg.data ++ rest) = some smsg := by
  have h : SMSG_HDR_LEN ≤ (smsg.data ++ rest).length := by simp
  rw [readHeader, dif_pos h, SecureMessage.ofData_data]

theorem readRecord_bytes (front back : List UInt8) :
    readRecord (front ++ (r.bytes ++ back)) front.length = some (r.smsg, r.payload) := by
  have hpayload : ((front ++ (r.bytes ++ back)).drop (front.length + SMSG_HDR_LEN)).take
      r.smsg.nPayload = r.payload := by
    rw [drop_length_add_append, bytes, append_assoc,
      drop_left' r.smsg.length_data, r.nPayload_eq, take_left]
  simp only [readRecord, drop_left, bytes, append_assoc, readHeader_data]
  simp only [bytes, append_assoc] at hpayload
  rw [hpayload, if_pos r.nPayload_eq.symm]

theorem overwrite_version (smsg : SecureMessage) (version : UInt8 × UInt8) :
    overwrite smsg.data 4 [version.1, version.2] = { smsg with version := version }.data := by
  simp only [SecureMessage.data, SecureMessage.fields, flatten_cons, overwrite,
    take_left' smsg.length_hash, append_assoc]
  rw [length_cons, length_singleton, ← drop_drop, drop_left' smsg.length_hash]
  rfl

theorem removeRecord_bytes (front back : List UInt8) :
    removeRecord (front ++ (r.bytes ++ back)) front.length beyond =
      (front ++ ((wipe beyond r).bytes ++ back), true) := by
  have hlt := r.lt_length
  have hzlen := length_payloadBytes beyond (r.payload.length - 8) (by omega)
  have hversion : overwrite (front ++ (r.bytes ++ back)) (front.length + 4) [0, beyond.version] =
      front ++ ((wipe beyond r).smsg.data ++ (r.payload ++ back)) := by
    rw [overwrite_append_right, bytes, append_assoc,
      overwrite_append_left (r.payload ++ back) (by simp [SMSG_HDR_LEN])]
    exact congrArg (fun data => front ++ (data ++ _)) (overwrite_version r.smsg (0, beyond.version))
  have hpayload : overwrite r.payload 8 (beyond.payloadBytes (r.payload.length - 8)) =
      (wipe beyond r).payload := by
    have hend : r.payload.drop (8 + (r.payload.length - 8)) = [] :=
      drop_eq_nil_of_le (by omega)
    rw [overwrite, hzlen, hend, append_nil]
    rfl
  have hbody : overwrite (front ++ ((wipe beyond r).smsg.data ++ (r.payload ++ back)))
      (front.length + SMSG_HDR_LEN + 8) (beyond.payloadBytes (r.payload.length - 8)) =
      front ++ ((wipe beyond r).bytes ++ back) := by
    have hdata := (wipe beyond r).smsg.length_data
    rw [Nat.add_assoc, overwrite_append_right, ← hdata, overwrite_append_right,
      overwrite_append_left back (by rw [hzlen]; omega), hpayload, bytes, append_assoc]
  simp only [removeRecord, drop_left, bytes, append_assoc, readHeader_data,
    r.nPayload_eq, if_neg (show ¬ r.payload.length ≤ 8 by omega)]
  simp only [bytes, append_assoc] at hversion hbody
  rw [hversion, hbody]

/-! ### Lists of records -/

variable {records : List DiskRecord} {pos : Nat}

theorem map_key_token (pos : Nat) (records : List DiskRecord) :
    ((placed size pos records).map token).map FileToken.key = records.map key := by
  induction records generalizing pos with
  | nil => rfl
  | cons r records ih => simp only [placed, map_cons, key_token, ih]

theorem mem_tokens (hnodup : (records.map key).Nodup) {t : FileToken} :
    t ∈ tokens records ↔ ∃ pos r, (pos, r) ∈ placed size 0 records ∧ token (pos, r) = t := by
  rw [tokens, FileToken.mem_insertAll (by rwa [map_key_token])]
  simp

theorem mem_map_key_tokens (hnodup : (records.map key).Nodup) {k : Int × List UInt8} :
    k ∈ (tokens records).map FileToken.key ↔ k ∈ records.map key := by
  rw [← map_key_token 0 records] at hnodup ⊢
  simp only [tokens, mem_map, FileToken.mem_insertAll hnodup]

theorem exists_place (h : r ∈ records) : ∃ pos, (pos, r) ∈ placed size 0 records := by
  rw [← map_snd_placed size 0 records, mem_map] at h
  obtain ⟨⟨pos, r'⟩, hmem, rfl⟩ := h
  exact ⟨pos, hmem⟩

variable {r} in
theorem mem_of_placed (h : (pos, r) ∈ placed size 0 records) : r ∈ records := by
  rw [← map_snd_placed size 0 records]
  exact mem_map_of_mem h

def wipeKey (key : Int × List UInt8) (r : DiskRecord) : DiskRecord :=
  if r.key = key then wipe beyond r else r

variable (k : Int × List UInt8)

theorem key_wipeKey : (wipeKey beyond k r).key = r.key := by
  unfold wipeKey
  split
  · exact key_wipe r beyond
  · rfl

theorem size_wipeKey : (wipeKey beyond k r).size = r.size := by
  unfold wipeKey
  split
  · exact size_wipe r beyond
  · rfl

theorem token_wipeKey (pos : Nat) :
    token (pos, wipeKey beyond k r) = SmsgStore.clearTTL k (token (pos, r)) := by
  have hkey := key_token r pos
  unfold wipeKey SmsgStore.clearTTL
  rw [hkey]
  split
  · have hlt := r.lt_length
    have hsample : (wipe beyond r).payload.take 8 = r.payload.take 8 :=
      congrArg Prod.snd (key_wipe r beyond)
    simp only [token, FileToken.ofMessage, length_wipe_payload, hsample, wipe_timestamp,
      if_neg (show ¬ r.payload.length < 8 by omega)]
    rfl
  · rfl

theorem tokens_wipeKey (records : List DiskRecord) :
    tokens (records.map (wipeKey beyond k)) =
      (tokens records).map (SmsgStore.clearTTL k) := by
  rw [tokens, tokens, FileToken.map_insertAll (SmsgStore.key_clearTTL k),
    placed_map size (fun r => size_wipeKey r beyond k), map_map, map_map]
  congr 1
  apply map_congr_left
  intro p _
  exact token_wipeKey p.2 beyond k p.1

theorem exists_split {r : DiskRecord} (hnodup : (records.map key).Nodup)
    (h : (pos, r) ∈ placed size 0 records) :
    ∃ front back : List UInt8, front.length = pos ∧
      records.flatMap bytes = front ++ (r.bytes ++ back) ∧
      (records.map (wipeKey beyond r.key)).flatMap bytes =
        front ++ ((wipe beyond r).bytes ++ back) := by
  obtain ⟨before, after, rfl, rfl⟩ := mem_placed h
  simp only [map_append, map_cons, nodup_append, nodup_cons] at hnodup
  obtain ⟨-, ⟨hafter, -⟩, hbefore⟩ := hnodup
  have hkeep : ∀ rest : List DiskRecord, (∀ r' ∈ rest, r'.key ≠ r.key) →
      rest.map (wipeKey beyond r.key) = rest := by
    intro rest hrest
    exact (map_congr_left fun r' hr' => if_neg (hrest r' hr')).trans (map_id rest)
  have hfront := hkeep before fun r' hr' =>
    hbefore r'.key (mem_map_of_mem hr') r.key mem_cons_self
  have hback := hkeep after fun r' hr' heq => hafter (heq ▸ mem_map_of_mem hr')
  refine ⟨before.flatMap bytes, after.flatMap bytes, ?_, by simp, ?_⟩
  · rw [length_flatMap_bytes, Nat.zero_add]
  · simp [hfront, hback, wipeKey]

end DiskRecord

/-! ## Stores and their records -/

open DiskRecord

namespace SmsgStore

variable {s s' : SmsgStore} {time : Int} {records : List DiskRecord} {disk : Int → List DiskRecord}

@[simp] theorem bucketAt_setBucket (s : SmsgStore) (time t : Int) (b : StoreBucket) :
    (s.setBucket time b).bucketAt t = if t = time then b else s.bucketAt t := by
  simp only [bucketAt, setBucket, lookup_insert_ite]
  split <;> rfl

structure Layout (s : SmsgStore) (time : Int) (records : List DiskRecord) : Prop where
  file_eq : s.fileAt time = records.flatMap bytes
  tokens_eq : s.tokensAt time = tokens records
  nodup : (records.map key).Nodup
  time_eq : ∀ r ∈ records, bucketTimeOf r.smsg.timestamp = time
  intact : ∀ r ∈ records, r.ttl ≠ 0 →
    r.ttl = r.smsg.nDaysToLiveLoaded ∧ s.stored.lookup r.key = some (r.smsg, r.payload)
  purged : ∀ r ∈ records, r.ttl = 0 → r.smsg.version.1 = 0

def Represents (s : SmsgStore) (disk : Int → List DiskRecord) : Prop :=
  ∀ time, s.Layout time (disk time)

theorem represents_new : new.Represents fun _ => [] := fun time =>
  ⟨rfl, rfl, nodup_nil, by simp, by simp, by simp⟩

namespace Layout

variable (h : s.Layout time records)

include h

theorem congr (hfile : s'.fileAt time = s.fileAt time)
    (htokens : s'.tokensAt time = s.tokensAt time)
    (hstored : ∀ key, bucketTimeOf key.1 = time → s'.stored.lookup key = s.stored.lookup key) :
    s'.Layout time records where
  file_eq := hfile.trans h.file_eq
  tokens_eq := htokens.trans h.tokens_eq
  nodup := h.nodup
  time_eq := h.time_eq
  intact := fun r hr httl => by
    rw [hstored r.key (h.time_eq r hr)]
    exact h.intact r hr httl
  purged := h.purged

theorem hasKey_iff (key : Int × List UInt8) :
    (s.bucketAt time).hasKey key = true ↔ key ∈ records.map DiskRecord.key := by
  have htokens : (s.bucketAt time).setTokens = tokens records := h.tokens_eq
  rw [StoreBucket.hasKey_iff, htokens, mem_map_key_tokens h.nodup]

theorem retrieve_token {pos : Nat} {r : DiskRecord} (hmem : (pos, r) ∈ placed size 0 records) :
    s.retrieve (token (pos, r)) = some (r.smsg, r.payload) := by
  obtain ⟨front, back, rfl, hfile, -⟩ := exists_split ⟨0, fun _ => 0⟩ h.nodup hmem
  have htime : bucketTimeOf (token (front.length, r)).timestamp = time :=
    h.time_eq r (mem_of_placed hmem)
  rw [retrieve, htime, h.file_eq, hfile]
  exact readRecord_bytes r front back

end Layout

structure SameRecords (s s' : SmsgStore) : Prop where
  file : ∀ time, s'.fileAt time = s.fileAt time
  tokens : ∀ time, s'.tokensAt time = s.tokensAt time
  stored : s'.stored = s.stored

variable (h : s.Represents disk)

include h in
theorem Represents.same (hs : SameRecords s s') : s'.Represents disk := fun time =>
  (h time).congr (hs.file time) (hs.tokens time) fun _ _ => by rw [hs.stored]

theorem sameRecords_setBucket (b : StoreBucket) (h : b.setTokens = s.tokensAt time) :
    SameRecords s (s.setBucket time b) where
  file := fun _ => rfl
  tokens := fun t => by
    simp only [tokensAt, bucketAt_setBucket]
    split
    case isTrue ht => rw [h, ht]; rfl
    case isFalse => rfl
  stored := rfl

/-! ### `Store` -/

section Store

variable (hashes : SmsgHashes) (day : Nat) (now : Int) (m : AcceptedMessage)
  (fSpace fHashBucket : Bool)

theorem key_ofMessage (m : AcceptedMessage) (offset ttl : Nat) :
    (FileToken.ofMessage m.smsg m.payload offset ttl).key = m.key := by
  have h := m.lt_length
  simp [FileToken.ofMessage, FileToken.key, AcceptedMessage.key,
    show ¬ m.payload.length < 8 by omega]

theorem nDaysToLive_accepted (m : AcceptedMessage) : m.smsg.nDaysToLive ≠ 0 := by
  have h := m.one_le_days
  rw [SecureMessage.nDaysToLive, m.version_eq, if_neg (by decide)]
  omega

theorem nDaysToLiveLoaded_accepted (m : AcceptedMessage) :
    m.smsg.nDaysToLiveLoaded = m.smsg.nDaysToLive := by
  rw [SecureMessage.nDaysToLiveLoaded, m.version_eq, if_neg (by decide)]

theorem Layout.appendMessage {m : AcceptedMessage}
    (h : s.Layout (bucketTimeOf m.smsg.timestamp) records)
    (hnew : m.key ∉ records.map DiskRecord.key) :
    (s.appendMessage day now m.smsg m.payload fHashBucket).Layout
      (bucketTimeOf m.smsg.timestamp) (records ++ [ofAccepted m]) where
  file_eq := by
    simp [fileAt, SmsgStore.appendMessage, ← h.file_eq, bytes, ofAccepted]
  tokens_eq := by
    have hlength : (s.fileAt (bucketTimeOf m.smsg.timestamp)).length = (records.map size).sum := by
      rw [h.file_eq, length_flatMap_bytes]
    have hbucket : ∀ b : StoreBucket,
        (if fHashBucket = true then b.hashBucket day now else b).setTokens = b.setTokens := by
      intro b
      split <;> rfl
    have htokens := h.tokens_eq
    simp only [SmsgStore.tokensAt, SmsgStore.bucketAt, tokens] at htokens
    simp only [SmsgStore.tokensAt, SmsgStore.bucketAt, SmsgStore.appendMessage,
      AList.lookup_insert, Option.getD_some, hbucket, StoreBucket.addToken, htokens, hlength,
      tokens, placed_append, map_append, placed, map_cons, map_nil,
      FileToken.insertAll_concat, Nat.zero_add]
    rfl
  nodup := by
    rw [map_append, nodup_append]
    refine ⟨h.nodup, nodup_singleton _, fun k hk k' hk' heq => ?_⟩
    cases mem_singleton.mp hk'
    subst heq
    exact hnew hk
  time_eq := fun r hr => by
    cases mem_append.mp hr with
    | inl hr => exact h.time_eq r hr
    | inr hr =>
      cases mem_singleton.mp hr
      rfl
  intact := fun r hr httl => by
    simp only [SmsgStore.appendMessage, lookup_insert_ite, key_ofMessage]
    cases mem_append.mp hr with
    | inl hr =>
      have hne : r.key ≠ m.key := fun heq => hnew (heq ▸ mem_map_of_mem hr)
      rw [if_neg hne]
      exact h.intact r hr httl
    | inr hr =>
      cases mem_singleton.mp hr
      have heq : (ofAccepted m).key = m.key := rfl
      rw [if_pos heq]
      exact ⟨(nDaysToLiveLoaded_accepted m).symm, rfl⟩
  purged := fun r hr httl => by
    cases mem_append.mp hr with
    | inl hr => exact h.purged r hr httl
    | inr hr =>
      cases mem_singleton.mp hr
      exact absurd httl (nDaysToLive_accepted m)

theorem Layout.appendMessage_of_ne {m : AcceptedMessage} (h : s.Layout time records)
    (hne : time ≠ bucketTimeOf m.smsg.timestamp) :
    (s.appendMessage day now m.smsg m.payload fHashBucket).Layout time records := by
  apply h.congr
  · simp [fileAt, SmsgStore.appendMessage, hne]
  · simp [tokensAt, bucketAt, SmsgStore.appendMessage, hne]
  · intro key hkey
    have hkey' : key ≠ m.key := by
      rintro rfl
      exact hne hkey.symm
    simp [SmsgStore.appendMessage, key_ofMessage, hkey']

theorem exists_checkStorable (s : SmsgStore) (smsg : SecureMessage) (payload : List UInt8) :
    ∃ set, (s.checkStorable hashes day now smsg payload).1 = { s with setPurged := set } := by
  have hcheck : ∃ set, (s.checkPurged hashes smsg payload).1 = { s with setPurged := set } := by
    unfold checkPurged
    split
    · exact ⟨s.setPurged, rfl⟩
    · split
      · exact ⟨s.setPurged, rfl⟩
      · exact ⟨_, rfl⟩
  obtain ⟨set, hset⟩ := hcheck
  refine ⟨set, ?_⟩
  simp only [checkStorable]
  split_ifs <;> exact hset

include h

theorem Represents.appendMessage {m : AcceptedMessage}
    (hnew : m.key ∉ (disk (bucketTimeOf m.smsg.timestamp)).map DiskRecord.key) :
    (s.appendMessage day now m.smsg m.payload fHashBucket).Represents
      (Function.update disk (bucketTimeOf m.smsg.timestamp)
        (disk (bucketTimeOf m.smsg.timestamp) ++ [ofAccepted m])) := by
  intro time
  by_cases htime : time = bucketTimeOf m.smsg.timestamp
  · subst htime
    rw [Function.update_self]
    exact (h _).appendMessage day now fHashBucket hnew
  · rw [Function.update_of_ne htime]
    exact (h time).appendMessage_of_ne day now fHashBucket htime

open SecureMessageCodes in
theorem Represents.store :
    ((s.store hashes day now m.smsg m.payload fSpace fHashBucket).2 ≠ SMSG_NO_ERROR ∧
      (s.store hashes day now m.smsg m.payload fSpace fHashBucket).1.Represents disk) ∨
    ((s.store hashes day now m.smsg m.payload fSpace fHashBucket).2 = SMSG_NO_ERROR ∧
      m.key ∉ (disk (bucketTimeOf m.smsg.timestamp)).map DiskRecord.key ∧
      (s.store hashes day now m.smsg m.payload fSpace fHashBucket).1.Represents
        (Function.update disk (bucketTimeOf m.smsg.timestamp)
          (disk (bucketTimeOf m.smsg.timestamp) ++ [ofAccepted m]))) := by
  obtain ⟨set, hset⟩ := exists_checkStorable hashes day now s m.smsg m.payload
  have hchecked : (s.checkStorable hashes day now m.smsg m.payload).1.Represents disk := by
    rw [hset]
    exact h.same ⟨fun _ => rfl, fun _ => rfl, rfl⟩
  have hkey := key_ofMessage m 0 m.smsg.nDaysToLive
  have hlayout := hchecked (bucketTimeOf m.smsg.timestamp)
  simp only [SmsgStore.store, hkey]
  by_cases hcode : (s.checkStorable hashes day now m.smsg m.payload).2 = SMSG_NO_ERROR
  · rw [if_neg (not_not.mpr hcode)]
    by_cases hhave : ((s.checkStorable hashes day now m.smsg m.payload).1.bucketAt
        (bucketTimeOf m.smsg.timestamp)).hasKey m.key = true
    · rw [if_pos hhave]
      exact .inl ⟨by simp, hchecked.same (sameRecords_setBucket _ rfl)⟩
    · rw [if_neg hhave]
      cases fSpace with
      | false => exact .inl ⟨by simp, hchecked.same (sameRecords_setBucket _ rfl)⟩
      | true =>
        have hnew := mt (hlayout.hasKey_iff m.key).mpr hhave
        exact .inr ⟨rfl, hnew, hchecked.appendMessage day now fHashBucket hnew⟩
  · rw [if_pos hcode]
    exact .inl ⟨hcode, hchecked⟩

theorem Represents.storeUnscanned :
    (s.storeUnscanned hashes day now m.smsg m.payload fSpace).1.Represents disk := by
  obtain ⟨set, hset⟩ := exists_checkStorable hashes day now s m.smsg m.payload
  simp only [SmsgStore.storeUnscanned, hset]
  split_ifs <;> exact h.same ⟨fun _ => rfl, fun _ => rfl, rfl⟩

end Store

/-! ### `Purge` -/

section Purge

variable (hashes : SmsgHashes) {msgId : MsgId}

theorem Layout.wipe (h : s.Layout time records) (beyond : Beyond) {pos : Nat} {r : DiskRecord}
    (hmem : (pos, r) ∈ placed size 0 records)
    (hfile : s'.fileAt time = (removeRecord (s.fileAt time) pos beyond).1)
    (htokens : s'.tokensAt time = (s.tokensAt time).map (clearTTL r.key))
    (hstored : s'.stored = s.stored) :
    s'.Layout time (records.map (wipeKey beyond r.key)) where
  file_eq := by
    obtain ⟨front, back, rfl, hsplit, hwiped⟩ := exists_split beyond h.nodup hmem
    rw [hfile, h.file_eq, hsplit, hwiped, removeRecord_bytes]
  tokens_eq := by rw [htokens, h.tokens_eq, tokens_wipeKey]
  nodup := by
    have hkeys : (records.map (wipeKey beyond r.key)).map DiskRecord.key =
        records.map DiskRecord.key := by
      rw [map_map]
      exact map_congr_left fun r' _ => key_wipeKey r' beyond r.key
    rw [hkeys]
    exact h.nodup
  time_eq := fun r' hr' => by
    obtain ⟨r₀, hr₀, rfl⟩ := mem_map.mp hr'
    have htime : (wipeKey beyond r.key r₀).smsg.timestamp = r₀.smsg.timestamp :=
      congrArg Prod.fst (key_wipeKey r₀ beyond r.key)
    rw [htime]
    exact h.time_eq r₀ hr₀
  intact := fun r' hr' httl => by
    obtain ⟨r₀, hr₀, rfl⟩ := mem_map.mp hr'
    unfold wipeKey at httl ⊢
    split at httl
    case isTrue => exact absurd rfl httl
    case isFalse hne =>
      rw [if_neg hne, hstored]
      exact h.intact r₀ hr₀ httl
  purged := fun r' hr' httl => by
    obtain ⟨r₀, hr₀, rfl⟩ := mem_map.mp hr'
    unfold wipeKey at httl ⊢
    split
    case isTrue => rfl
    case isFalse hne =>
      rw [if_neg hne] at httl
      exact h.purged r₀ hr₀ httl

theorem sameRecords_markPurged (s : SmsgStore) (msgId : MsgId) (purged : SecMsgPurged) :
    SameRecords s (s.markPurged msgId purged) := ⟨fun _ => rfl, fun _ => rfl, rfl⟩

theorem findPurged_setBucket (s : SmsgStore) (msgId : MsgId) (time : Int) :
    (s.setBucket time (s.bucketAt time)).findPurged hashes msgId = s.findPurged hashes msgId := by
  have hsame : SameRecords s (s.setBucket time (s.bucketAt time)) := sameRecords_setBucket _ rfl
  simp only [SmsgStore.findPurged, hsame.tokens]
  rfl

include h

theorem Represents.findPurged {found : FileToken} (hfind : s.findPurged hashes msgId = some found) :
    ∃ pos r, (pos, r) ∈ placed size 0 (disk (bucketTimeOf (msgTime msgId))) ∧
      found = token (pos, r) ∧ r.smsg.timestamp = msgTime msgId ∧
      hashes.getMsgID r.smsg r.payload = msgId := by
  have hlayout := h (bucketTimeOf (msgTime msgId))
  obtain ⟨hprop, hmem⟩ := And.intro (List.find?_some hfind) (mem_of_find?_eq_some hfind)
  rw [hlayout.tokens_eq, mem_tokens hlayout.nodup] at hmem
  obtain ⟨pos, r, hplaced, rfl⟩ := hmem
  simp only [hlayout.retrieve_token hplaced, Bool.and_eq_true, beq_iff_eq] at hprop
  exact ⟨pos, r, hplaced, rfl, hprop.1, hprop.2⟩

theorem Represents.purgeToken (beyond : Beyond) {pos : Nat} {r : DiskRecord}
    (hmem : (pos, r) ∈ placed size 0 (disk time)) :
    (s.purgeToken (token (pos, r)) beyond).2 = true ∧
      (s.purgeToken (token (pos, r)) beyond).1.Represents
        (Function.update disk time ((disk time).map (wipeKey beyond r.key))) := by
  have hlayout := h time
  have htime : bucketTimeOf (token (pos, r)).timestamp = time :=
    hlayout.time_eq r (mem_of_placed hmem)
  have hremoved : (removeRecord (s.fileAt time) pos beyond).2 = true := by
    obtain ⟨front, back, rfl, hsplit, -⟩ := exists_split beyond hlayout.nodup hmem
    rw [hlayout.file_eq, hsplit, removeRecord_bytes]
  have hoffset : (token (pos, r)).offset = pos := rfl
  have hkey := key_token r pos
  simp only [SmsgStore.purgeToken, SmsgStore.remove, htime, hoffset, hremoved, if_true, hkey,
    true_and]
  intro t
  by_cases ht : t = time
  · subst ht
    rw [Function.update_self]
    refine hlayout.wipe beyond hmem ?_ ?_ rfl
    · simp [fileAt, setBucket]
    · simp only [tokensAt, bucketAt_setBucket, if_true]
      rfl
  · rw [Function.update_of_ne ht]
    refine (h t).congr ?_ ?_ fun _ _ => rfl
    · simp [fileAt, setBucket, ht]
    · simp only [tokensAt, bucketAt_setBucket, if_neg ht]
      rfl

theorem Represents.purge (msgId : MsgId) (now : Int) (beyond : Beyond) :
    (s.findPurged hashes msgId = none ∧ (s.purge hashes now msgId beyond).Represents disk) ∨
    ∃ pos r, (pos, r) ∈ placed size 0 (disk (bucketTimeOf (msgTime msgId))) ∧
      s.findPurged hashes msgId = some (token (pos, r)) ∧
      hashes.getMsgID r.smsg r.payload = msgId ∧
      (s.purge hashes now msgId beyond).Represents
        (Function.update disk (bucketTimeOf (msgTime msgId))
          ((disk (bucketTimeOf (msgTime msgId))).map (wipeKey beyond r.key))) := by
  have hmade := h.same (sameRecords_setBucket (s.bucketAt (bucketTimeOf (msgTime msgId))) rfl)
  simp only [SmsgStore.purge, findPurged_setBucket]
  cases hfind : s.findPurged hashes msgId with
  | none => exact .inl ⟨rfl, hmade.same (sameRecords_markPurged _ _ _)⟩
  | some found =>
    obtain ⟨pos, r, hmem, rfl, -, hid⟩ := h.findPurged hashes hfind
    have hwiped := (hmade.purgeToken beyond hmem).2
    exact .inr ⟨pos, r, hmem, rfl, hid, hwiped.same (sameRecords_markPurged _ _ _)⟩

end Purge

/-! ### The management thread -/

section Manage

variable (day : Nat)

def Forgets (disk disk' : Int → List DiskRecord) : Prop :=
  ∀ time, disk' time = disk time ∨ disk' time = []

theorem Forgets.trans {disk' disk'' : Int → List DiskRecord} (h : Forgets disk disk')
    (h' : Forgets disk' disk'') : Forgets disk disk'' := by
  intro time
  cases h' time with
  | inl heq => rw [heq]; exact h time
  | inr heq => exact .inr heq

theorem tickLock_setTokens (b : StoreBucket) : (tickLock b).setTokens = b.setTokens := by
  unfold tickLock
  split <;> rfl

theorem sameRecords_buildPurgedSets (s : SmsgStore) (now : Int) :
    SameRecords s (s.buildPurgedSets day now) := by
  have hfold : ∀ (entries : List (Sigma fun _ : MsgId => SecMsgPurged)) (s : SmsgStore),
      SameRecords s (entries.foldl (fun s e => buildPurgedStep day now s e.1 e.2) s) := by
    intro entries
    induction entries with
    | nil => exact fun s => ⟨fun _ => rfl, fun _ => rfl, rfl⟩
    | cons e entries ih =>
      intro s
      have hstep : SameRecords s (buildPurgedStep day now s e.1 e.2) := by
        unfold buildPurgedStep
        split <;> exact ⟨fun _ => rfl, fun _ => rfl, rfl⟩
      have hrest := ih (buildPurgedStep day now s e.1 e.2)
      exact ⟨fun t => (hrest.file t).trans (hstep.file t),
        fun t => (hrest.tokens t).trans (hstep.tokens t), hrest.stored.trans hstep.stored⟩
  have hall := hfold s.purgedRecords.entries { s with setPurged := [], setPurgedTimestamps := [] }
  exact ⟨hall.file, hall.tokens, hall.stored⟩

include h

theorem Represents.eraseBucket (time : Int) :
    (s.eraseBucket time).Represents (Function.update disk time []) := by
  intro t
  by_cases ht : t = time
  · subst ht
    rw [Function.update_self]
    refine ⟨?_, ?_, nodup_nil, by simp, by simp, by simp⟩
    · simp [fileAt, SmsgStore.eraseBucket]
    · simp [tokensAt, bucketAt, SmsgStore.eraseBucket, StoreBucket.new, tokens, placed,
        FileToken.insertAll]
  · rw [Function.update_of_ne ht]
    refine (h t).congr ?_ ?_ fun _ _ => rfl
    · simp [fileAt, SmsgStore.eraseBucket, ht]
    · simp [tokensAt, bucketAt, SmsgStore.eraseBucket, ht]

theorem Represents.manageBucket (now time : Int) :
    ∃ disk', (manageBucket day now s time).Represents disk' ∧ Forgets disk disk' := by
  unfold SmsgStore.manageBucket
  cases hlookup : s.buckets.lookup time with
  | none => exact ⟨disk, h, fun _ => .inl rfl⟩
  | some b =>
    have htokens : s.tokensAt time = b.setTokens := by simp [tokensAt, bucketAt, hlookup]
    have hhashed : ∀ c : Bool,
        (if c = true then b.hashBucket day now else b).setTokens = b.setTokens := by
      intro c
      split <;> rfl
    have hpass : ∀ (fErase : Bool) (c : StoreBucket), c.setTokens = b.setTokens →
        ∃ disk', (if fErase = true then s.eraseBucket time
          else s.setBucket time (tickLock c)).Represents disk' ∧ Forgets disk disk' := by
      intro fErase c hc
      cases fErase with
      | true =>
        refine ⟨_, h.eraseBucket time, fun t => ?_⟩
        by_cases ht : t = time
        · subst ht
          exact .inr (Function.update_self _ _ _)
        · exact .inl (Function.update_of_ne ht _ _)
      | false =>
        refine ⟨disk, h.same (sameRecords_setBucket _ ?_), fun _ => .inl rfl⟩
        rw [tickLock_setTokens, hc, htokens]
    exact hpass _ _ (hhashed _)

theorem Represents.manage (now wall : Int) :
    ∃ disk', (s.manage day now wall).Represents disk' ∧ Forgets disk disk' := by
  have hloop : ∀ (times : List Int) (s : SmsgStore) (disk : Int → List DiskRecord),
      s.Represents disk → ∃ disk', (times.foldl (SmsgStore.manageBucket day now) s).Represents
        disk' ∧ Forgets disk disk' := by
    intro times
    induction times with
    | nil => exact fun s disk h => ⟨disk, h, fun _ => .inl rfl⟩
    | cons time times ih =>
      intro s disk h
      obtain ⟨disk₁, h₁, hforgets₁⟩ := h.manageBucket day now time
      obtain ⟨disk₂, h₂, hforgets₂⟩ := ih _ disk₁ h₁
      exact ⟨disk₂, h₂, hforgets₁.trans hforgets₂⟩
  obtain ⟨disk', hdisk', hforgets⟩ := hloop s.buckets.keys s disk h
  refine ⟨disk', ?_, hforgets⟩
  simp only [SmsgStore.manage]
  split
  · exact hdisk'.same (sameRecords_buildPurgedSets day _ wall)
  · exact hdisk'

end Manage

/-! ### Runs -/

section Runs

variable (hashes : SmsgHashes) (day : Nat)

/-- What an event does to the records: some buckets are given up, one record is added
or one record is wiped. -/
inductive DiskStep (disk : Int → List DiskRecord) : StoreEvent → (Int → List DiskRecord) → Prop
  | forget {e : StoreEvent} {disk' : Int → List DiskRecord} (h : Forgets disk disk') :
      DiskStep disk e disk'
  | append {now : Int} {fSpace fHashBucket : Bool} {m : AcceptedMessage} :
      DiskStep disk (.store m now fSpace fHashBucket)
        (Function.update disk (bucketTimeOf m.smsg.timestamp)
          (disk (bucketTimeOf m.smsg.timestamp) ++ [ofAccepted m]))
  | wipe {msgId : MsgId} {now : Int} {beyond : Beyond} {time : Int} {r : DiskRecord}
      (hmem : r ∈ disk time) (hid : hashes.getMsgID r.smsg r.payload = msgId) :
      DiskStep disk (.purge msgId now beyond)
        (Function.update disk time ((disk time).map (wipeKey beyond r.key)))

include h in
theorem Represents.step (e : StoreEvent) :
    ∃ disk', (s.step hashes day e).Represents disk' ∧ DiskStep hashes disk e disk' := by
  have hkeep : Forgets disk disk := fun _ => .inl rfl
  cases e with
  | store m now fSpace fHashBucket =>
    obtain ⟨-, hs⟩ | ⟨-, -, hs⟩ := h.store hashes day now m fSpace fHashBucket
    · exact ⟨disk, hs, .forget hkeep⟩
    · exact ⟨_, hs, .append⟩
  | storeUnscanned m now fSpace =>
    exact ⟨disk, h.storeUnscanned hashes day now m fSpace, .forget hkeep⟩
  | purge msgId now beyond =>
    obtain ⟨-, hs⟩ | ⟨pos, r, hmem, -, hid, hs⟩ := h.purge hashes msgId now beyond
    · exact ⟨disk, hs, .forget hkeep⟩
    · exact ⟨_, hs, .wipe (mem_of_placed hmem) hid⟩
  | manage now wall =>
    obtain ⟨disk', hs, hforgets⟩ := h.manage day now wall
    exact ⟨disk', hs, .forget hforgets⟩
  | buildPurgedSets now =>
    exact ⟨disk, h.same (sameRecords_buildPurgedSets day s now), .forget hkeep⟩
  | smsgShow time now => exact ⟨disk, h, .forget hkeep⟩
  | smsgWant time now keys => exact ⟨disk, h, .forget hkeep⟩

def Reached (s : SmsgStore) : Prop :=
  ∃ history : List StoreEvent, history.foldl (step hashes day) new = s

theorem Reached.induct {P : SmsgStore → Prop} (hnew : P new)
    (hstep : ∀ s e, P s → P (s.step hashes day e)) (h : s.Reached hashes day) : P s := by
  obtain ⟨history, rfl⟩ := h
  have hrun : ∀ (events : List StoreEvent) (s : SmsgStore), P s →
      P (events.foldl (SmsgStore.step hashes day) s) := by
    intro events
    induction events with
    | nil => exact fun s hs => hs
    | cons e events ih => exact fun s hs => ih _ (hstep s e hs)
  exact hrun history new hnew

theorem Reached.represents (h : s.Reached hashes day) : ∃ disk, s.Represents disk := by
  refine Reached.induct (P := fun s => ∃ disk, s.Represents disk) hashes day ⟨_, represents_new⟩
    (fun s e hs => ?_) h
  obtain ⟨disk, hs⟩ := hs
  obtain ⟨disk', hs', -⟩ := hs.step hashes day e
  exact ⟨disk', hs'⟩

end Runs

end SmsgStore

end Verge
