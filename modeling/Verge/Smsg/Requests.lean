import Verge.Smsg.Exchange

/-!
# Requests and bunches

What a node remembers of its requests to a peer as long as there is room for them, and
the limits of the bunch that answers `smsgWant`.
-/

namespace Verge

open List

namespace SecMsgNode

/-- The wanted tokens are in the order of their buckets, and there is room for one more
bucket and the messages of a `smsgWant`. -/
structure HasRoom (p : SecMsgNode) : Prop where
  sorted : p.wantedTokens.Pairwise fun e e' => e.1 < e'.1
  requested : p.requestedBuckets.length < SMSG_MAX_TRACKED_REQUEST_BUCKETS
  buckets : p.wantedTokens.length < SMSG_MAX_TRACKED_WANTED_BUCKETS
  tokens : (p.wantedTokens.map fun e => e.2.length).sum + SMSG_MAX_WANT_TOKENS ≤
    SMSG_MAX_TRACKED_WANTED_TOKENS

variable {p : SecMsgNode}

theorem hasRoom_cleared (h : p.requestedBuckets = []) (h' : p.wantedTokens = []) : p.HasRoom := by
  constructor <;> simp [h, h', SMSG_MAX_TRACKED_REQUEST_BUCKETS, SMSG_MAX_TRACKED_WANTED_BUCKETS,
    SMSG_MAX_WANT_TOKENS, SMSG_MAX_TRACKED_WANTED_TOKENS]

theorem HasRoom.markSmsgRelayValidated (h : p.HasRoom) : p.markSmsgRelayValidated.HasRoom := by
  unfold SecMsgNode.markSmsgRelayValidated
  split
  · exact h
  · exact hasRoom_cleared rfl rfl

theorem markSmsgRelayValidated_validated (p : SecMsgNode) :
    p.markSmsgRelayValidated.fValidatedRelay = true := by
  unfold markSmsgRelayValidated
  split
  case isTrue h => exact h
  case isFalse => rfl

theorem wantedTokens_markSmsgRelayValidated (h : p.fValidatedRelay = true) (times : List Int) :
    { p with requestedBuckets := times }.markSmsgRelayValidated.wantedTokens = p.wantedTokens := by
  simp [markSmsgRelayValidated, h]

theorem HasRoom.congr {p' : SecMsgNode} (h : p.HasRoom)
    (hrequested : p'.requestedBuckets = p.requestedBuckets)
    (hwanted : p'.wantedTokens = p.wantedTokens) : p'.HasRoom :=
  ⟨hwanted ▸ h.sorted, hrequested ▸ h.requested, hwanted ▸ h.buckets, hwanted ▸ h.tokens⟩

variable (time : Int) (samples : List (List UInt8))

theorem mem_insertTime (times : List Int) : time ∈ insertTime time times := by
  induction times with
  | nil => simp [insertTime]
  | cons t times ih =>
    simp only [insertTime]
    split_ifs with heq
    · simp [heq]
    · simp
    · exact mem_cons_of_mem _ ih

theorem length_insertTime_le (times : List Int) :
    (insertTime time times).length ≤ times.length + 1 := by
  induction times with
  | nil => simp [insertTime]
  | cons t times ih =>
    simp only [insertTime]
    split_ifs <;> simp only [length_cons] <;> omega

theorem trimWanted_of_le {entries : List (Int × List (List UInt8))}
    (hbuckets : entries.length ≤ SMSG_MAX_TRACKED_WANTED_BUCKETS)
    (htokens : (entries.map fun e => e.2.length).sum ≤ SMSG_MAX_TRACKED_WANTED_TOKENS) :
    trimWanted entries = entries := by
  cases entries with
  | nil => rfl
  | cons entry rest => rw [trimWanted, if_neg (by omega)]

theorem mem_trackSmsgRequestedBuckets (h : p.HasRoom) (time : Int) :
    time ∈ (p.trackSmsgRequestedBuckets [time]).requestedBuckets := by
  have hle := length_insertTime_le time p.requestedBuckets
  have hroom := h.requested
  simp only [trackSmsgRequestedBuckets, trimTrackedSmsgRequests, foldl_cons, foldl_nil]
  rw [Nat.sub_eq_zero_of_le (by omega), drop_zero]
  exact mem_insertTime time _

theorem wantedTokens_trackSmsgRequestedBuckets (h : p.HasRoom) (times : List Int) :
    (p.trackSmsgRequestedBuckets times).wantedTokens = p.wantedTokens :=
  trimWanted_of_le h.buckets.le ((Nat.le_add_right _ _).trans h.tokens)

theorem fValidatedRelay_trackSmsgRequestedBuckets (p : SecMsgNode) (times : List Int) :
    (p.trackSmsgRequestedBuckets times).fValidatedRelay = p.fValidatedRelay := by
  simp only [trackSmsgRequestedBuckets, trimTrackedSmsgRequests]

theorem find?_setWanted (entries : List (Int × List (List UInt8))) :
    (setWanted time samples entries).find? (fun e => e.1 == time) = some (time, samples) := by
  induction entries with
  | nil => simp [setWanted]
  | cons entry rest ih =>
    simp only [setWanted]
    split_ifs with heq
    · simp
    · simp
    · rw [List.find?_cons_of_neg (by simpa using Ne.symm heq), ih]

theorem length_setWanted_le (entries : List (Int × List (List UInt8))) :
    (setWanted time samples entries).length ≤ entries.length + 1 := by
  induction entries with
  | nil => simp [setWanted]
  | cons entry rest ih =>
    simp only [setWanted]
    split_ifs <;> simp only [length_cons] <;> omega

theorem sum_setWanted {entries : List (Int × List (List UInt8))}
    (h : entries.Pairwise fun e e' => e.1 < e'.1) :
    ((setWanted time samples entries).map fun e => e.2.length).sum +
        (((entries.find? fun e => e.1 == time).map Prod.snd).getD []).length =
      (entries.map fun e => e.2.length).sum + samples.length := by
  induction entries with
  | nil => simp [setWanted]
  | cons entry rest ih =>
    obtain ⟨hentry, hrest⟩ := pairwise_cons.mp h
    have ih := ih hrest
    simp only [setWanted]
    split_ifs with heq hlt
    · simp [heq]
      omega
    · have hnone : (entry :: rest).find? (fun e => e.1 == time) = none := by
        rw [List.find?_eq_none]
        intro e he
        obtain rfl | he := mem_cons.mp he
        · simpa using Ne.symm heq
        · have := hentry e he
          simp
          omega
      simp [hnone]
      omega
    · rw [List.find?_cons_of_neg (by simpa using Ne.symm heq)]
      simp only [map_cons, sum_cons]
      omega

theorem mem_wantedIn_track {p' : SecMsgNode} (h : p'.HasRoom)
    (hp : p.wantedTokens = p'.wantedTokens) (time : Int) {samples : List (List UInt8)}
    (hlength : samples.length ≤ SMSG_MAX_WANT_TOKENS) {sample : List UInt8}
    (hsample : sample ∈ samples) :
    sample ∈ (p.trackSmsgWantedTokens time samples).wantedIn time := by
  let wanted := (p.wantedIn time ++ samples).dedup
  have hsum := sum_setWanted time wanted (hp ▸ h.sorted)
  have hwanted : wanted.length ≤ (p.wantedIn time).length + SMSG_MAX_WANT_TOKENS := by
    have hle := (dedup_sublist (p.wantedIn time ++ samples)).length_le
    rw [length_append] at hle
    exact hle.trans (Nat.add_le_add_left hlength _)
  have hentries := length_setWanted_le time wanted p.wantedTokens
  have hbuckets := h.buckets
  have htokens := h.tokens
  rw [← hp] at hbuckets htokens
  have hle : ((setWanted time wanted p.wantedTokens).map fun e => e.2.length).sum ≤
      SMSG_MAX_TRACKED_WANTED_TOKENS := by
    simp only [wantedIn] at hwanted
    omega
  have htrim : (p.trackSmsgWantedTokens time samples).wantedTokens =
      setWanted time wanted p.wantedTokens :=
    trimWanted_of_le (hentries.trans hbuckets) hle
  rw [wantedIn, htrim, find?_setWanted]
  show sample ∈ wanted
  exact mem_dedup.mpr (mem_append_right _ hsample)

end SecMsgNode

namespace SmsgNode

variable {b : SecMsgBucket}

theorem length_bunch_le (keys : List (Int × List UInt8)) {nBunch : Nat} (size : Nat)
    (h : nBunch < 500) : nBunch + (bunch b keys nBunch size).length ≤ 500 := by
  induction keys generalizing nBunch size with
  | nil => exact h.le
  | cons key keys ih =>
    simp only [bunch]
    split
    case h_1 => exact ih size h
    case h_2 token hfind =>
      split
      case isTrue => exact h
      case isFalse hmore =>
        have hrest := ih (size + SMSG_HDR_LEN + token.nPayload) (by omega : nBunch + 1 < 500)
        rw [length_cons]
        omega

theorem size_bunch_le {bound : Nat} (hbound : ∀ token ∈ b.setTokens, token.nPayload ≤ bound)
    (keys : List (Int × List UInt8)) (nBunch : Nat) {size : Nat} (h : size < 96000) :
    size + ((bunch b keys nBunch size).map fun token => SMSG_HDR_LEN + token.nPayload).sum ≤
      96000 + SMSG_HDR_LEN + bound := by
  induction keys generalizing nBunch size with
  | nil =>
    simp [bunch]
    omega
  | cons key keys ih =>
    simp only [bunch]
    split
    case h_1 => exact ih nBunch h
    case h_2 token hfind =>
      have htoken := hbound token (mem_of_find?_eq_some hfind)
      split
      case isTrue =>
        simp
        omega
      case isFalse hmore =>
        have hrest := ih (nBunch + 1) (by omega : size + SMSG_HDR_LEN + token.nPayload < 96000)
        rw [map_cons, sum_cons]
        omega

theorem exists_bunch_eq_cons {key : Int × List UInt8} {keys : List (Int × List UInt8)}
    {token : SecMsgToken}
    (h : b.setTokens.find? (fun token => token.timestamp == key.1 && token.sample == key.2) =
      some token) (nBunch size : Nat) :
    ∃ rest, bunch b (key :: keys) nBunch size = token :: rest := by
  simp only [bunch, h]
  split
  · exact ⟨[], rfl⟩
  · exact ⟨_, rfl⟩

end SmsgNode

end Verge
