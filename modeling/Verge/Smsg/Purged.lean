import Verge.Foundation.Runs
import Verge.Smsg.Reload

/-!
# Purged messages

`Purge` overwrites a message and leaves a marker, in the database and in memory, so
that the message is not stored again.  `CheckPurged` reads the set of purged time
stamps the wrong way round: a time stamp in the set lets the message pass, and every
marker in the database has its time stamp in the set.  So no message is ever refused
as purged, and what keeps a purged message away is that it is not offered again.
-/

namespace Verge

open Foundation DiskRecord List AssocMap SecureMessageCodes

theorem SmsgHashes.msgTime_getMsgID (hashes : SmsgHashes) (smsg : SecureMessage)
    (payload : List UInt8) : SmsgStore.msgTime (hashes.getMsgID smsg payload) = smsg.timestamp := by
  have hlength : (writeInt64 smsg.timestamp).reverse.length = 8 := by simp [writeInt64]
  rw [SmsgStore.msgTime, SmsgHashes.getMsgID, take_left' hlength, reverse_reverse]
  exact readInt64_writeInt64 smsg.timestamp_ge smsg.timestamp_lt

namespace SmsgStore

variable {s s' : SmsgStore} (hashes : SmsgHashes) (day : Nat)

/-! ## The markers -/

def Marked (s : SmsgStore) : Prop :=
  ∀ msgId purged, s.purgedRecords.lookup msgId = some purged →
    purged.timestamp = msgTime msgId ∧ purged.timestamp ∈ s.setPurgedTimestamps

theorem marked_new : new.Marked := by simp [Marked, new]

theorem checkPurged_eq_false_iff (s : SmsgStore) (smsg : SecureMessage) (payload : List UInt8) :
    (s.checkPurged hashes smsg payload).2 = false ↔ smsg.timestamp ∈ s.setPurgedTimestamps ∨
      s.purgedRecords.lookup (hashes.getMsgID smsg payload) = none := by
  unfold SmsgStore.checkPurged
  split
  case isTrue htime => simp [htime]
  case isFalse htime =>
    cases s.purgedRecords.lookup (hashes.getMsgID smsg payload) <;> simp [htime]

theorem purgeToken_frame (s : SmsgStore) (token : FileToken) (beyond : Beyond) :
    (s.purgeToken token beyond).1.purgedRecords = s.purgedRecords ∧
      (s.purgeToken token beyond).1.setPurgedTimestamps = s.setPurgedTimestamps ∧
      ∀ time, ((s.purgeToken token beyond).1.tokensAt time).map FileToken.key =
        (s.tokensAt time).map FileToken.key := by
  have hkeys : ∀ (k : Int × List UInt8) (tokens : List FileToken),
      (tokens.map (clearTTL k)).map FileToken.key = tokens.map FileToken.key := by
    intro k tokens
    rw [map_map]
    exact map_congr_left fun t _ => key_clearTTL k t
  unfold purgeToken
  by_cases hremoved : (s.remove token beyond).2 = true
  · simp only [hremoved, if_true]
    refine ⟨rfl, rfl, fun time => ?_⟩
    simp only [tokensAt, bucketAt_setBucket]
    split
    case isTrue htime =>
      rw [hkeys, htime]
      rfl
    case isFalse => rfl
  · simp only [hremoved]
    exact ⟨rfl, rfl, fun _ => rfl⟩

theorem purge_frame (s : SmsgStore) (now : Int) (msgId : MsgId) (beyond : Beyond) :
    (∃ sample, (s.purge hashes now msgId beyond).purgedRecords =
        s.purgedRecords.insert msgId ⟨msgTime msgId, sample, now⟩) ∧
      (s.purge hashes now msgId beyond).setPurgedTimestamps =
        s.setPurgedTimestamps.insert (msgTime msgId) ∧
      ∀ time, ((s.purge hashes now msgId beyond).tokensAt time).map FileToken.key =
        (s.tokensAt time).map FileToken.key := by
  have hmade : SameRecords s (s.setBucket (bucketTimeOf (msgTime msgId))
      (s.bucketAt (bucketTimeOf (msgTime msgId)))) := sameRecords_setBucket _ rfl
  simp only [SmsgStore.purge]
  split
  case h_1 => exact ⟨⟨_, rfl⟩, rfl, fun time => congrArg _ (hmade.tokens time)⟩
  case h_2 found hfind =>
    obtain ⟨hrecords, htimes, hkeys⟩ := purgeToken_frame
      (s.setBucket (bucketTimeOf (msgTime msgId)) (s.bucketAt (bucketTimeOf (msgTime msgId))))
      found beyond
    generalize (s.setBucket (bucketTimeOf (msgTime msgId))
      (s.bucketAt (bucketTimeOf (msgTime msgId)))).purgeToken found beyond = removed
      at hrecords htimes hkeys ⊢
    refine ⟨⟨if removed.2 = true then found.sample else List.replicate 8 0, ?_⟩, ?_, ?_⟩
    · rw [markPurged, hrecords]
      rfl
    · rw [markPurged, htimes]
      rfl
    · exact fun time => (hkeys time).trans (congrArg _ (hmade.tokens time))

theorem markers_manageBucket (now : Int) (s : SmsgStore) (time : Int) :
    (manageBucket day now s time).purgedRecords = s.purgedRecords ∧
      (manageBucket day now s time).setPurgedTimestamps = s.setPurgedTimestamps := by
  simp only [manageBucket]
  split
  case h_1 => exact ⟨rfl, rfl⟩
  case h_2 => split_ifs <;> exact ⟨rfl, rfl⟩

theorem buildPurgedSteps_spec (now : Int)
    (entries : List (Sigma fun _ : MsgId => SecMsgPurged)) (s : SmsgStore) :
    (∀ time ∈ s.setPurgedTimestamps, time ∈ (entries.foldl
        (fun s e => buildPurgedStep day now s e.1 e.2) s).setPurgedTimestamps) ∧
      (∀ msgId purged, (entries.foldl (fun s e => buildPurgedStep day now s e.1 e.2)
          s).purgedRecords.lookup msgId = some purged →
        s.purgedRecords.lookup msgId = some purged ∧
          (⟨msgId, purged⟩ ∈ entries → purged.timestamp ∈ (entries.foldl
            (fun s e => buildPurgedStep day now s e.1 e.2) s).setPurgedTimestamps)) := by
  induction entries generalizing s with
  | nil => exact ⟨fun _ h => h, fun _ _ h => ⟨h, by simp⟩⟩
  | cons e entries ih =>
    obtain ⟨htimes, hrecords⟩ := ih (buildPurgedStep day now s e.1 e.2)
    refine ⟨fun time hmem => htimes time ?_, fun msgId purged hlookup => ?_⟩
    · unfold buildPurgedStep
      split
      · exact hmem
      · exact mem_insert_of_mem hmem
    · obtain ⟨hlookup', hread⟩ := hrecords msgId purged hlookup
      unfold buildPurgedStep at hlookup'
      split at hlookup'
      case isTrue hold =>
        rw [lookup_erase_ite] at hlookup'
        split at hlookup'
        case isTrue => cases hlookup'
        case isFalse hne =>
          refine ⟨hlookup', fun hmem => hread ?_⟩
          cases mem_cons.mp hmem with
          | inl heq => exact absurd (congrArg Sigma.fst heq) hne
          | inr hmem => exact hmem
      case isFalse hnew =>
        refine ⟨hlookup', fun hmem => ?_⟩
        cases mem_cons.mp hmem with
        | inl heq =>
          subst heq
          apply htimes
          unfold buildPurgedStep
          rw [if_neg hnew]
          exact mem_insert_self
        | inr hmem => exact hread hmem

section

variable (h : s.Marked) (now : Int) (smsg : SecureMessage) (payload : List UInt8)

include h

theorem Marked.congr (hrecords : s'.purgedRecords = s.purgedRecords)
    (htimes : s'.setPurgedTimestamps = s.setPurgedTimestamps) : s'.Marked := by
  intro msgId purged hlookup
  rw [hrecords] at hlookup
  rw [htimes]
  exact h msgId purged hlookup

theorem Marked.checkPurged : (s.checkPurged hashes smsg payload).2 = false := by
  rw [checkPurged_eq_false_iff]
  cases hlookup : s.purgedRecords.lookup (hashes.getMsgID smsg payload) with
  | none => exact .inr rfl
  | some purged =>
    obtain ⟨heq, hmem⟩ := h _ purged hlookup
    rw [heq, hashes.msgTime_getMsgID] at hmem
    exact .inl hmem

theorem Marked.checkStorable_ne :
    (s.checkStorable hashes day now smsg payload).2 ≠ SMSG_PURGED_MSG := by
  simp only [SmsgStore.checkStorable, h.checkPurged hashes smsg payload, Bool.false_eq_true,
    if_false]
  split_ifs <;> simp

theorem Marked.store_ne (fSpace fHashBucket : Bool) :
    (s.store hashes day now smsg payload fSpace fHashBucket).2 ≠ SMSG_PURGED_MSG := by
  have hcheck := h.checkStorable_ne hashes day now smsg payload
  simp only [SmsgStore.store]
  split_ifs <;> simp [hcheck]

theorem Marked.storeUnscanned_ne (fSpace : Bool) :
    (s.storeUnscanned hashes day now smsg payload fSpace).2 ≠ SMSG_PURGED_MSG := by
  have hcheck := h.checkStorable_ne hashes day now smsg payload
  simp only [SmsgStore.storeUnscanned]
  split_ifs <;> simp [hcheck]

theorem Marked.markPurged (msgId : MsgId) (sample : List UInt8) (now : Int) :
    (s.markPurged msgId ⟨msgTime msgId, sample, now⟩).Marked := by
  intro id purged hlookup
  rcases of_lookup_insert hlookup with ⟨rfl, rfl⟩ | ⟨-, hlookup⟩
  · exact ⟨rfl, mem_insert_self⟩
  · obtain ⟨heq, hmem⟩ := h id purged hlookup
    exact ⟨heq, mem_insert_of_mem hmem⟩

theorem Marked.purge (msgId : MsgId) (beyond : Beyond) :
    (s.purge hashes now msgId beyond).Marked := by
  obtain ⟨⟨sample, hrecords⟩, htimes, -⟩ := purge_frame hashes s now msgId beyond
  exact (h.markPurged msgId sample now).congr hrecords htimes

theorem Marked.buildPurgedSets : (s.buildPurgedSets day now).Marked := by
  intro msgId purged hlookup
  obtain ⟨-, hrecords⟩ := buildPurgedSteps_spec day now s.purgedRecords.entries
    { s with setPurged := [], setPurgedTimestamps := [] }
  obtain ⟨hold, hread⟩ := hrecords msgId purged hlookup
  exact ⟨(h msgId purged hold).1, hread (lookup_eq_some_iff.mp hold)⟩

theorem Marked.manage (now wall : Int) : (s.manage day now wall).Marked := by
  have hloop : ∀ (times : List Int) (s : SmsgStore), s.Marked →
      (times.foldl (manageBucket day now) s).Marked := by
    intro times
    induction times with
    | nil => exact fun s h => h
    | cons time times ih =>
      intro s h
      obtain ⟨hrecords, htimes⟩ := markers_manageBucket day now s time
      exact ih _ (h.congr hrecords htimes)
  simp only [SmsgStore.manage]
  split
  · exact (hloop _ s h).buildPurgedSets day wall
  · exact hloop _ s h

theorem Marked.step (e : StoreEvent) : (s.step hashes day e).Marked := by
  cases e with
  | store m now fSpace fHashBucket =>
    obtain ⟨set, hset⟩ := exists_checkStorable hashes day now s m.smsg m.payload
    refine h.congr ?_ ?_ <;>
      · simp only [SmsgStore.step, SmsgStore.store, hset]
        split_ifs <;> rfl
  | storeUnscanned m now fSpace =>
    obtain ⟨set, hset⟩ := exists_checkStorable hashes day now s m.smsg m.payload
    refine h.congr ?_ ?_ <;>
      · simp only [SmsgStore.step, SmsgStore.storeUnscanned, hset]
        split_ifs <;> rfl
  | purge msgId now beyond => exact h.purge hashes now msgId beyond
  | manage now wall => exact h.manage day now wall
  | buildPurgedSets now => exact h.buildPurgedSets day now
  | smsgShow time now => exact h
  | smsgWant time now keys => exact h

end

theorem Reached.marked (h : s.Reached hashes day) : s.Marked :=
  Reached.induct (P := Marked) hashes day marked_new (fun _ e hs => hs.step hashes day e) h

/-! ## Other messages -/

theorem store_eq_noError_iff (s : SmsgStore) (now : Int) (m : AcceptedMessage)
    (fSpace fHashBucket : Bool) :
    (s.store hashes day now m.smsg m.payload fSpace fHashBucket).2 = SMSG_NO_ERROR ↔
      (s.checkPurged hashes m.smsg m.payload).2 = false ∧
        m.smsg.timestamp ≤ now + SMSG_TIME_LEEWAY ∧ now - SMSG_RETENTION ≤ m.smsg.timestamp ∧
        m.smsg.isSmsgExpired day now = false ∧
        m.key ∉ (s.tokensAt (bucketTimeOf m.smsg.timestamp)).map FileToken.key ∧
        fSpace = true := by
  obtain ⟨set, hset⟩ := exists_checkStorable hashes day now s m.smsg m.payload
  have hhave : ({ s with setPurged := set }.bucketAt
      (bucketTimeOf m.smsg.timestamp)).hasKey m.key = true ↔
      m.key ∈ (s.tokensAt (bucketTimeOf m.smsg.timestamp)).map FileToken.key :=
    StoreBucket.hasKey_iff _ _
  have hcode : (s.checkStorable hashes day now m.smsg m.payload).2 = SMSG_NO_ERROR ↔
      (s.checkPurged hashes m.smsg m.payload).2 = false ∧
        m.smsg.timestamp ≤ now + SMSG_TIME_LEEWAY ∧ now - SMSG_RETENTION ≤ m.smsg.timestamp ∧
        m.smsg.isSmsgExpired day now = false := by
    simp only [checkStorable]
    split_ifs with hpurged hfuture hold hexpired
    · exact iff_of_false (by simp) fun h => by simp [hpurged] at h
    · exact iff_of_false (by simp) fun h => absurd h.2.1 (by omega)
    · exact iff_of_false (by simp) fun h => absurd h.2.2.1 (by omega)
    · exact iff_of_false (by simp) fun h => by simp [hexpired] at h
    · exact iff_of_true rfl ⟨by simpa using hpurged, by omega, by omega, by simpa using hexpired⟩
  simp only [store, hset, key_ofMessage, hhave]
  split_ifs with hno hknown hspace
  · exact iff_of_false hno fun h => hno (hcode.mpr ⟨h.1, h.2.1, h.2.2.1, h.2.2.2.1⟩)
  · exact iff_of_false (by simp) fun h => h.2.2.2.2.1 hknown
  · exact iff_of_false (by simp) fun h => by simp [h.2.2.2.2.2] at hspace
  · obtain ⟨hpurged, hfuture, hold, hexpired⟩ := hcode.mp (not_not.mp hno)
    exact iff_of_true rfl ⟨hpurged, hfuture, hold, hexpired, hknown, by simpa using hspace⟩

theorem store_purge_of_ne (s : SmsgStore) (purgeTime now : Int) {msgId : MsgId} (beyond : Beyond)
    {m : AcceptedMessage} (hid : hashes.getMsgID m.smsg m.payload ≠ msgId)
    (fSpace fHashBucket : Bool)
    (h : (s.store hashes day now m.smsg m.payload fSpace fHashBucket).2 = SMSG_NO_ERROR) :
    ((s.purge hashes purgeTime msgId beyond).store hashes day now m.smsg m.payload fSpace
      fHashBucket).2 = SMSG_NO_ERROR := by
  obtain ⟨⟨sample, hrecords⟩, htimes, hkeys⟩ := purge_frame hashes s purgeTime msgId beyond
  rw [store_eq_noError_iff] at h ⊢
  rw [hkeys]
  refine ⟨?_, h.2⟩
  have hunpurged := h.1
  rw [checkPurged_eq_false_iff] at hunpurged ⊢
  rw [hrecords, htimes, lookup_insert_ite, if_neg hid]
  exact hunpurged.imp_left mem_insert_of_mem

/-! ## The purged message -/

section Purged

variable {disk : Int → List DiskRecord} (m : AcceptedMessage)

def Holds (s : SmsgStore) (m : AcceptedMessage) : Prop :=
  ∃ token ∈ s.tokensAt (bucketTimeOf m.smsg.timestamp),
    s.retrieve token = some (m.smsg, m.payload)

def SoleWithId (s : SmsgStore) (m : AcceptedMessage) : Prop :=
  ∀ token ∈ s.tokensAt (bucketTimeOf m.smsg.timestamp), ∀ message ∈ s.retrieve token,
    hashes.getMsgID message.1 message.2 = hashes.getMsgID m.smsg m.payload →
      message = (m.smsg, m.payload)

def Absent (disk : Int → List DiskRecord) (m : AcceptedMessage) : Prop :=
  ∀ time, ∀ r ∈ disk time, (r.smsg, r.payload) ≠ (m.smsg, m.payload)

theorem wipe_ne (beyond : Beyond) (r : DiskRecord) :
    ((wipe beyond r).smsg, (wipe beyond r).payload) ≠ (m.smsg, m.payload) := by
  intro heq
  have hversion : ((0, beyond.version) : UInt8 × UInt8) = (3, 0) :=
    (congrArg (fun message => message.1.version) heq).trans m.version_eq
  have hfirst : (0 : UInt8) = 3 := congrArg Prod.fst hversion
  exact absurd hfirst (by decide)

theorem Represents.absent_purge (h : s.Represents disk) (hheld : s.Holds m)
    (hsole : s.SoleWithId hashes m) (now : Int) (beyond : Beyond) :
    ∃ disk', (s.purge hashes now (hashes.getMsgID m.smsg m.payload) beyond).Represents disk' ∧
      Absent disk' m := by
  have htime : msgTime (hashes.getMsgID m.smsg m.payload) = m.smsg.timestamp :=
    hashes.msgTime_getMsgID m.smsg m.payload
  have hlayout := h (bucketTimeOf m.smsg.timestamp)
  have hpurge := h.purge hashes (hashes.getMsgID m.smsg m.payload) now beyond
  rw [htime] at hpurge
  obtain ⟨hnone, -⟩ | ⟨pos, r, hmem, -, hid, h'⟩ := hpurge
  case inl =>
    -- the token of the message would have been found
    obtain ⟨t, ht, hread⟩ := hheld
    have hmiss := List.find?_eq_none.mp hnone t (by rw [htime]; exact ht)
    rw [hlayout.tokens_eq, mem_tokens hlayout.nodup] at ht
    obtain ⟨pos, r, hmem, rfl⟩ := ht
    have hr : r.smsg = m.smsg := by
      rw [hlayout.retrieve_token hmem] at hread
      exact congrArg Prod.fst (Option.some.inj hread)
    have hstamp : (token (pos, r)).timestamp = m.smsg.timestamp := by rw [← hr]; rfl
    simp [hread, htime, hstamp] at hmiss
  case inr =>
    have hr : (r.smsg, r.payload) = (m.smsg, m.payload) := by
      refine hsole (token (pos, r)) ?_ _ (hlayout.retrieve_token hmem) hid
      rw [hlayout.tokens_eq, mem_tokens hlayout.nodup]
      exact ⟨pos, r, hmem, rfl⟩
    have hkey : r.key = m.key :=
      congrArg (fun message : SecureMessage × List UInt8 =>
        (message.1.timestamp, message.2.take 8)) hr
    refine ⟨_, h', fun time r' hr' heq => ?_⟩
    have hkey' : r'.key = m.key :=
      congrArg (fun message : SecureMessage × List UInt8 =>
        (message.1.timestamp, message.2.take 8)) heq
    have htime' : bucketTimeOf m.smsg.timestamp = time := by
      rw [← (h' time).time_eq r' hr']
      exact congrArg (fun key => bucketTimeOf key.1) hkey'.symm
    subst htime'
    rw [Function.update_self] at hr'
    obtain ⟨r₀, -, rfl⟩ := mem_map.mp hr'
    rw [key_wipeKey, ← hkey] at hkey'
    rw [wipeKey, if_pos hkey'] at heq
    exact wipe_ne m beyond r₀ heq

theorem Absent.diskStep {disk' : Int → List DiskRecord} {e : StoreEvent} (h : Absent disk m)
    (hstep : DiskStep hashes disk e disk')
    (hother : ∀ m' now fSpace fHashBucket, e = .store m' now fSpace fHashBucket →
      hashes.getMsgID m'.smsg m'.payload ≠ hashes.getMsgID m.smsg m.payload) :
    Absent disk' m := by
  intro time r hr
  cases hstep with
  | forget hforgets =>
    cases hforgets time with
    | inl heq => exact h time r (heq ▸ hr)
    | inr heq => simp [heq] at hr
  | @append now fSpace fHashBucket m' =>
    rw [Function.update_apply] at hr
    split at hr
    case isTrue =>
      cases mem_append.mp hr with
      | inl hr => exact h _ r hr
      | inr hr =>
        cases mem_singleton.mp hr
        intro heq
        obtain ⟨hsmsg, hpayload⟩ : m'.smsg = m.smsg ∧ m'.payload = m.payload :=
          Prod.mk.inj heq
        exact hother m' now fSpace fHashBucket rfl (by rw [hsmsg, hpayload])
    case isFalse => exact h time r hr
  | @wipe msgId now beyond wipedTime wiped hmem hid =>
    rw [Function.update_apply] at hr
    split at hr
    case isTrue =>
      obtain ⟨r₀, hr₀, rfl⟩ := mem_map.mp hr
      unfold wipeKey
      split
      · exact wipe_ne m beyond r₀
      · exact h _ r₀ hr₀
    case isFalse => exact h time r hr

theorem exists_token_of_mem_wantLoop {tokens : List FileToken} {keys : List (Int × List UInt8)}
    {nBunch size : Nat} {message : SecureMessage × List UInt8}
    (h : message ∈ wantLoop s tokens keys nBunch size) :
    ∃ token ∈ tokens, s.retrieve token = some message := by
  induction keys generalizing nBunch size with
  | nil => simp [wantLoop] at h
  | cons key keys ih =>
    simp only [wantLoop] at h
    split at h
    case h_1 => exact ih h
    case h_2 t hfind =>
      have ht := mem_of_find?_eq_some hfind
      split at h
      case h_1 =>
        split at h
        · simp at h
        · exact ih h
      case h_2 found hread =>
        split at h
        · exact ⟨t, ht, by rw [hread, mem_singleton.mp h]⟩
        · cases mem_cons.mp h with
          | inl heq => exact ⟨t, ht, by rw [hread, heq]⟩
          | inr h => exact ih h

theorem Represents.notMem_sentMessages (h : s.Represents disk) (habsent : Absent disk m)
    (now time : Int) (keys : List (Int × List UInt8)) :
    (m.smsg, m.payload) ∉ s.sentMessages now time keys := by
  intro hmem
  unfold sentMessages at hmem
  split_ifs at hmem
  case pos => simp at hmem
  case pos =>
    obtain ⟨t, ht, hread⟩ := exists_token_of_mem_wantLoop hmem
    rw [(h time).tokens_eq, mem_tokens (h time).nodup] at ht
    obtain ⟨pos, r, hplaced, rfl⟩ := ht
    rw [(h time).retrieve_token hplaced] at hread
    exact habsent time r (mem_of_placed hplaced) (Option.some.inj hread)
  case neg => simp at hmem

theorem le_timestamp_of_shown {now time : Int} {t : FileToken}
    (h : t ∈ s.shownTokens day now time) (httl : t.ttl = 0) : now ≤ t.timestamp := by
  unfold shownTokens at h
  split at h
  case isTrue =>
    have hactive := (mem_filter.mp (mem_of_mem_take h)).2
    simpa [SecMsgToken.expired, httl] using hactive
  case isFalse => simp at h

def KeepsPurged (s : SmsgStore) : StoreEvent → Prop
  | .store m' now fSpace fHashBucket =>
    hashes.getMsgID m'.smsg m'.payload = hashes.getMsgID m.smsg m.payload →
      (s.store hashes day now m'.smsg m'.payload fSpace fHashBucket).2 = SMSG_PURGED_MSG
  | .storeUnscanned m' now fSpace =>
    hashes.getMsgID m'.smsg m'.payload = hashes.getMsgID m.smsg m.payload →
      (s.storeUnscanned hashes day now m'.smsg m'.payload fSpace).2 = SMSG_PURGED_MSG
  | .smsgShow time now =>
    ∀ token ∈ s.shownTokens day now time, token.key = m.key → token.ttl ≠ 0
  | .smsgWant time now keys => (m.smsg, m.payload) ∉ s.sentMessages now time keys
  | _ => True

def NotOffered : StoreEvent → Prop
  | .store m' _ _ _ | .storeUnscanned m' _ _ =>
    hashes.getMsgID m'.smsg m'.payload ≠ hashes.getMsgID m.smsg m.payload
  | _ => True

/-- The bucket is shown to peers only when the time stamp of the message is past. -/
def ShownLater : StoreEvent → Prop
  | .smsgShow time now => time = bucketTimeOf m.smsg.timestamp → m.smsg.timestamp < now
  | _ => True

theorem Represents.keepsPurged (h : s.Represents disk) (habsent : Absent disk m) (e : StoreEvent)
    (hoffered : NotOffered hashes m e) (hshown : ShownLater m e) :
    s.KeepsPurged hashes day m e := by
  cases e with
  | store m' now fSpace fHashBucket => exact fun heq => absurd heq hoffered
  | storeUnscanned m' now fSpace => exact fun heq => absurd heq hoffered
  | smsgShow time now =>
    intro t ht hkey httl
    have hle := le_timestamp_of_shown day ht httl
    have hstamp : t.timestamp = m.smsg.timestamp := congrArg Prod.fst hkey
    have hmem : t ∈ s.tokensAt time := by
      unfold shownTokens at ht
      split at ht
      · exact mem_of_mem_filter (mem_of_mem_take ht)
      · simp at ht
    rw [(h time).tokens_eq, mem_tokens (h time).nodup] at hmem
    obtain ⟨pos, r, hplaced, rfl⟩ := hmem
    have htime : time = bucketTimeOf m.smsg.timestamp := by
      rw [← hstamp]
      exact ((h time).time_eq r (mem_of_placed hplaced)).symm
    have hlt : m.smsg.timestamp < now := hshown htime
    omega
  | smsgWant time now keys => exact h.notMem_sentMessages m habsent now time keys
  | purge msgId now beyond => trivial
  | manage now wall => trivial
  | buildPurgedSets now => trivial

theorem Marked.notOffered (h : s.Marked) (e : StoreEvent) (hkeeps : s.KeepsPurged hashes day m e) :
    NotOffered hashes m e := by
  cases e with
  | store m' now fSpace fHashBucket =>
    exact fun heq => h.store_ne hashes day now m'.smsg m'.payload fSpace fHashBucket (hkeeps heq)
  | storeUnscanned m' now fSpace =>
    exact fun heq => h.storeUnscanned_ne hashes day now m'.smsg m'.payload fSpace (hkeeps heq)
  | smsgShow time now => trivial
  | smsgWant time now keys => trivial
  | purge msgId now beyond => trivial
  | manage now wall => trivial
  | buildPurgedSets now => trivial

/-- A purged message stays away while it is not offered again and its bucket is not shown
before its time stamp is past; no offer is refused as purged. -/
theorem purged_along (hs : s.Reached hashes day) (hheld : s.Holds m)
    (hsole : s.SoleWithId hashes m) (purgeTime : Int) (beyond : Beyond)
    (later : List StoreEvent) :
    (Along (step hashes day) (fun _ e => NotOffered hashes m e ∧ ShownLater m e)
        (s.purge hashes purgeTime (hashes.getMsgID m.smsg m.payload) beyond) later →
      Along (step hashes day) (KeepsPurged hashes day m)
        (s.purge hashes purgeTime (hashes.getMsgID m.smsg m.payload) beyond) later) ∧
    (Along (step hashes day) (KeepsPurged hashes day m)
        (s.purge hashes purgeTime (hashes.getMsgID m.smsg m.payload) beyond) later →
      Along (step hashes day) (fun _ e => NotOffered hashes m e)
        (s.purge hashes purgeTime (hashes.getMsgID m.smsg m.payload) beyond) later) ∧
    ∀ (s' : SmsgStore) (m' : AcceptedMessage) (now : Int) (fSpace fHashBucket : Bool),
      hashes.getMsgID m'.smsg m'.payload ≠ hashes.getMsgID m.smsg m.payload →
      (s'.store hashes day now m'.smsg m'.payload fSpace fHashBucket).2 = SMSG_NO_ERROR →
      ((s'.purge hashes purgeTime (hashes.getMsgID m.smsg m.payload) beyond).store hashes day now
        m'.smsg m'.payload fSpace fHashBucket).2 = SMSG_NO_ERROR := by
  obtain ⟨disk, h⟩ := hs.represents hashes day
  refine ⟨fun hrun => ?_, fun hrun => ?_, fun s' m' now fSpace fHashBucket hid hok => ?_⟩
  · apply Along.of_invariant (I := fun s => ∃ disk, s.Represents disk ∧ Absent disk m)
      (fun s e => ?_) (fun s e => ?_) (h.absent_purge hashes m hheld hsole purgeTime beyond) hrun
    · rintro ⟨disk, h, habsent⟩ ⟨hoffered, hshown⟩
      exact h.keepsPurged hashes day m habsent e hoffered hshown
    · rintro ⟨disk, h, habsent⟩ ⟨hoffered, -⟩
      obtain ⟨disk', h', hstep⟩ := h.step hashes day e
      refine ⟨disk', h', habsent.diskStep hashes m hstep fun m' now fSpace fHashBucket he => ?_⟩
      subst he
      exact hoffered
  · exact Along.of_invariant (I := Marked) (fun s e h hkeeps => h.notOffered hashes day m e hkeeps)
      (fun s e h _ => h.step hashes day e) ((hs.marked hashes day).purge hashes _ _ _) hrun
  · exact store_purge_of_ne hashes day s' purgeTime now beyond hid fSpace fHashBucket hok

end Purged

end SmsgStore

/-! ### A message that is stored again -/

namespace SampleStore

def longMessage : AcceptedMessage :=
  { message with
    smsg := { header with nonce := [31, 0, 0, 0], length_nonce := rfl }
    one_le_days := by decide
    days_le := by decide }

def longId : MsgId := hashes.getMsgID longMessage.smsg longMessage.payload

def bothStored : List StoreEvent :=
  [.store longMessage 7200 true true, .store shortMessage 7200 true true]

def heldStore : SmsgStore := bothStored.foldl (SmsgStore.step hashes SMSG_SECONDS_IN_DAY) .new

def longPurged : SmsgStore := heldStore.purge hashes 7200 longId ⟨0, fun _ => 0⟩

def quietEvents : List StoreEvent :=
  [.smsgShow 7200 7300, .store shortMessage 7300 true true, .buildPurgedSets 7300,
    .smsgWant 7200 7300 [longMessage.key], .manage 93602 93602]

theorem purged_along_quietEvents :
    Along (SmsgStore.step hashes SMSG_SECONDS_IN_DAY)
      (SmsgStore.KeepsPurged hashes SMSG_SECONDS_IN_DAY longMessage) longPurged quietEvents := by
  refine (SmsgStore.purged_along hashes SMSG_SECONDS_IN_DAY longMessage ⟨bothStored, rfl⟩ ?_ ?_ 7200
    ⟨0, fun _ => 0⟩ quietEvents).1 ?_
  · unfold SmsgStore.Holds
    decide +kernel
  · unfold SmsgStore.SoleWithId
    decide +kernel
  · simp only [quietEvents, Along.cons, Along.nil, SmsgStore.NotOffered, SmsgStore.ShownLater]
    decide +kernel

/-- Right after the purge the token is still shown; once the thread gave its bucket up the
message is stored and sent again. -/
theorem purged_is_stored_again :
    (longPurged.store hashes SMSG_SECONDS_IN_DAY 7200 longMessage.smsg longMessage.payload
        true true).2 = .SMSG_GENERAL_ERROR ∧
      (longPurged.storeUnscanned hashes SMSG_SECONDS_IN_DAY 7200 longMessage.smsg
        longMessage.payload true).2 = .SMSG_NO_ERROR ∧
      (longPurged.shownTokens SMSG_SECONDS_IN_DAY 7200 7200).map FileToken.key =
        [longMessage.key, shortMessage.key] ∧
      ((longPurged.manage SMSG_SECONDS_IN_DAY 93602 93602).store hashes SMSG_SECONDS_IN_DAY 93602
        longMessage.smsg longMessage.payload true true).2 = .SMSG_NO_ERROR ∧
      (longMessage.smsg, longMessage.payload) ∈
        ((longPurged.manage SMSG_SECONDS_IN_DAY 93602 93602).store hashes SMSG_SECONDS_IN_DAY
          93602 longMessage.smsg longMessage.payload true true).1.sentMessages 93602 7200
            [longMessage.key] := by
  decide +kernel

end SampleStore

end Verge
