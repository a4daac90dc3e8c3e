import Verge.Coins.Cache

/-!
# `CCoinsViewDB`

The coins database of `txdb.cpp`: the coins, the best block and the pair of
heads that marks a write in progress.  `BatchWrite` is kept as the list of
batches it hands to the database one after the other, because the process may
stop between any two of them.
-/

namespace Verge

open Foundation List AssocMap CoinsView

structure CCoinsViewDB where
  coins : CoinsView
  bestBlock : Option uint256
  headBlocks : Option (List uint256)

inductive DbWrite where
  | eraseBestBlock
  | writeHeadBlocks (heads : List uint256)
  | eraseCoin (outpoint : COutPoint)
  | writeCoin (outpoint : COutPoint) (coin : Coin)
  | eraseHeadBlocks
  | writeBestBlock (hashBlock : uint256)
  deriving DecidableEq, Repr

/-- What `BatchWrite` puts into the batch for one cache entry. -/
def CCoinsCacheEntry.dbWrites (outpoint : COutPoint) (entry : CCoinsCacheEntry) :
    List DbWrite :=
  if !entry.dirty then []
  else if entry.coin.isSpent then [.eraseCoin outpoint]
  else [.writeCoin outpoint entry.coin]

def CoinsView.writeEntry (coins : CoinsView) (outpoint : COutPoint)
    (entry : CCoinsCacheEntry) : CoinsView :=
  if !entry.dirty then coins
  else if entry.coin.isSpent then coins.erase outpoint
  else coins.insert outpoint entry.coin

theorem CoinsView.lookup_writeEntry (coins : CoinsView) (o a : COutPoint)
    (entry : CCoinsCacheEntry) :
    (writeEntry coins o entry).lookup a =
      if a = o then (if entry.dirty then entry.coin.live else coins.lookup o)
      else coins.lookup a := by
  unfold writeEntry Coin.live
  cases entry.dirty with
  | false =>
    by_cases h : a = o
    · subst h
      simp
    · simp [h]
  | true =>
    cases entry.coin.isSpent with
    | true => simp [lookup_erase_ite]
    | false => simp [lookup_insert_ite]

def CoinsView.writeEntries (coins : CoinsView) (mapCoins : CCoinsMap) : CoinsView :=
  mapCoins.entries.foldl (fun coins e => CoinsView.writeEntry coins e.1 e.2) coins

theorem CoinsView.lookup_writeEntries (coins : CoinsView) (mapCoins : CCoinsMap)
    (a : COutPoint) :
    (coins.writeEntries mapCoins).lookup a =
      match mapCoins.lookup a with
      | some entry => if entry.dirty then entry.coin.live else coins.lookup a
      | none => coins.lookup a := by
  have h := foldl_read writeEntry (fun coins a => coins.lookup a)
    (fun _ entry old => if entry.dirty then entry.coin.live else old)
    (fun coins o entry a => lookup_writeEntry coins o a entry) mapCoins coins a
  rw [writeEntries, h]
  cases mapCoins.lookup a <;> rfl

/-- A base view that is a plain map and stores what `CCoinsViewDB` would. -/
def CoinsView.base : BaseView CoinsView where
  getCoin coins o := coins.lookup o
  batchWrite coins mapCoins _ := coins.writeEntries mapCoins
  getCoin_batchWrite := by
    intro coins mapCoins _ o
    rw [CoinsView.lookup_writeEntries]
    cases h : mapCoins.lookup o with
    | none => rfl
    | some entry =>
      cases hd : entry.dirty with
      | false => simp [hd]
      | true => simpa [hd] using Coin.live_bind_live entry.coin

namespace CCoinsViewDB

def getBestBlock (db : CCoinsViewDB) : uint256 := db.bestBlock.getD 0

def getHeadBlocks (db : CCoinsViewDB) : List uint256 := db.headBlocks.getD []

def apply (db : CCoinsViewDB) : DbWrite → CCoinsViewDB
  | .eraseBestBlock => { db with bestBlock := none }
  | .writeHeadBlocks heads => { db with headBlocks := some heads }
  | .eraseCoin outpoint => { db with coins := db.coins.erase outpoint }
  | .writeCoin outpoint coin => { db with coins := db.coins.insert outpoint coin }
  | .eraseHeadBlocks => { db with headBlocks := none }
  | .writeBestBlock hashBlock => { db with bestBlock := some hashBlock }

def writeBatch (db : CCoinsViewDB) (batch : List DbWrite) : CCoinsViewDB :=
  batch.foldl apply db

/-- The loop of `BatchWrite` with its open batch; `full` is the size test that
sends a partial batch.  The last batch also carries the closing markers. -/
def batchLoop (full : List DbWrite → Bool) (hashBlock : uint256) :
    List DbWrite → List (Sigma fun _ : COutPoint => CCoinsCacheEntry) →
      List (List DbWrite)
  | batch, [] => [batch ++ [.eraseHeadBlocks, .writeBestBlock hashBlock]]
  | batch, e :: rest =>
    let batch' := batch ++ e.2.dbWrites e.1
    if full batch' then batch' :: batchLoop full hashBlock [] rest
    else batchLoop full hashBlock batch' rest

/-- The tip the write starts from: while a replay is going on it is the old
head, and the new head must be the block being written. -/
def oldTip (db : CCoinsViewDB) (hashBlock : uint256) : Except Failure uint256 :=
  if db.getBestBlock == 0 then
    match db.getHeadBlocks with
    | [new, old] =>
      if new == hashBlock then .ok old
      else .error (.assertion "old_heads[0] == hashBlock")
    | _ => .ok db.getBestBlock
  else .ok db.getBestBlock

def batches (full : List DbWrite → Bool) (db : CCoinsViewDB) (mapCoins : CCoinsMap)
    (hashBlock : uint256) : Except Failure (List (List DbWrite)) :=
  if hashBlock == 0 then .error (.assertion "!hashBlock.IsNull()")
  else do
    let old ← db.oldTip hashBlock
    .ok (batchLoop full hashBlock [.eraseBestBlock, .writeHeadBlocks [hashBlock, old]]
      mapCoins.entries)

/-- The database after `batches`, or after those of them that were written. -/
def writeBatches (db : CCoinsViewDB) (sent : List (List DbWrite)) : CCoinsViewDB :=
  sent.foldl writeBatch db

variable (full : List DbWrite → Bool) (db : CCoinsViewDB)

theorem writeBatches_eq (sent : List (List DbWrite)) :
    db.writeBatches sent = db.writeBatch sent.flatten :=
  foldl_flatten.symm

theorem writeBatch_append (batch batch' : List DbWrite) :
    db.writeBatch (batch ++ batch') = (db.writeBatch batch).writeBatch batch' :=
  foldl_append

variable (entries : List (Sigma fun _ : COutPoint => CCoinsCacheEntry))

theorem flatten_batchLoop (hashBlock : uint256) (batch : List DbWrite) :
    (batchLoop full hashBlock batch entries).flatten =
      batch ++ (entries.flatMap fun e => e.2.dbWrites e.1) ++
        [.eraseHeadBlocks, .writeBestBlock hashBlock] := by
  induction entries generalizing batch with
  | nil => simp [batchLoop]
  | cons e entries ih =>
    simp only [batchLoop]
    split
    · simp [ih]
    · simp [ih]

theorem exists_flatten_take_batchLoop (hashBlock : uint256) (batch : List DbWrite) {k : Nat}
    (hpos : 0 < k) (hk : k < (batchLoop full hashBlock batch entries).length) :
    ∃ j, ((batchLoop full hashBlock batch entries).take k).flatten =
      batch ++ (entries.take j).flatMap fun e => e.2.dbWrites e.1 := by
  induction entries generalizing batch k with
  | nil =>
    simp only [batchLoop, length_singleton] at hk
    omega
  | cons e entries ih =>
    simp only [batchLoop] at hk ⊢
    split at hk
    case isTrue hfull =>
      rw [if_pos hfull]
      obtain ⟨k, rfl⟩ := Nat.exists_eq_add_of_lt hpos
      rw [Nat.zero_add] at hk ⊢
      rw [take_succ_cons, flatten_cons]
      cases k with
      | zero => exact ⟨1, by simp⟩
      | succ k =>
        obtain ⟨j, hj⟩ := ih [] (Nat.succ_pos k) (Nat.lt_of_succ_lt_succ hk)
        exact ⟨j + 1, by simp [hj]⟩
    case isFalse hfull =>
      rw [if_neg hfull]
      obtain ⟨j, hj⟩ := ih _ hpos hk
      exact ⟨j + 1, by simp [hj]⟩

theorem writeBatch_entries :
    db.writeBatch (entries.flatMap fun e => e.2.dbWrites e.1) =
      { db with coins := entries.foldl (fun coins e => coins.writeEntry e.1 e.2) db.coins } := by
  induction entries generalizing db with
  | nil => rfl
  | cons e entries ih =>
    have hone : db.writeBatch (e.2.dbWrites e.1) =
        { db with coins := db.coins.writeEntry e.1 e.2 } := by
      unfold CCoinsCacheEntry.dbWrites writeEntry
      split
      · rfl
      · split <;> rfl
    rw [flatMap_cons, writeBatch_append, hone, ih]
    rfl

theorem lookup_take_entries (coins : CoinsView) (mapCoins : CCoinsMap) (j : Nat)
    (o : COutPoint) :
    ((mapCoins.entries.take j).foldl (fun coins e => coins.writeEntry e.1 e.2) coins).lookup o =
        coins.lookup o ∨
      ((mapCoins.entries.take j).foldl (fun coins e => coins.writeEntry e.1 e.2) coins).lookup o =
        (coins.writeEntries mapCoins).lookup o := by
  have hnodup : (mapCoins.entries.take j).NodupKeys :=
    mapCoins.nodupKeys.sublist (take_sublist j _)
  have hread := foldl_read_list writeEntry (fun coins a => coins.lookup a)
    (fun _ entry old => if entry.dirty then entry.coin.live else old)
    (fun coins o entry a => lookup_writeEntry coins o a entry)
    (mapCoins.entries.take j) hnodup coins o
  rw [hread, lookup_writeEntries]
  cases htake : (mapCoins.entries.take j).dlookup o with
  | none => exact .inl rfl
  | some entry =>
    have hmem := mem_of_mem_take (of_mem_dlookup htake)
    have hall : mapCoins.lookup o = some entry := mem_dlookup mapCoins.nodupKeys hmem
    rw [hall]
    exact .inr rfl

theorem batches_eq {full : List DbWrite → Bool} {db : CCoinsViewDB} {mapCoins : CCoinsMap}
    {hashBlock old : uint256} (hblock : hashBlock ≠ 0) (hold : db.oldTip hashBlock = .ok old) :
    db.batches full mapCoins hashBlock = .ok (batchLoop full hashBlock
      [.eraseBestBlock, .writeHeadBlocks [hashBlock, old]] mapCoins.entries) := by
  simp only [batches, beq_iff_eq, hblock, if_false, hold]
  rfl

theorem writeBatches_all (mapCoins : CCoinsMap) (hashBlock old : uint256) :
    db.writeBatches (batchLoop full hashBlock
        [.eraseBestBlock, .writeHeadBlocks [hashBlock, old]] mapCoins.entries) =
      ⟨db.coins.writeEntries mapCoins, some hashBlock, none⟩ := by
  rw [writeBatches_eq, flatten_batchLoop, writeBatch_append, writeBatch_append,
    writeBatch_entries]
  rfl

theorem writeBatches_take (mapCoins : CCoinsMap) (hashBlock old : uint256) {k : Nat} (hpos : 0 < k)
    (hk : k < (batchLoop full hashBlock
      [.eraseBestBlock, .writeHeadBlocks [hashBlock, old]] mapCoins.entries).length) :
    ∃ coins : CoinsView, db.writeBatches ((batchLoop full hashBlock
        [.eraseBestBlock, .writeHeadBlocks [hashBlock, old]] mapCoins.entries).take k) =
          ⟨coins, none, some [hashBlock, old]⟩ ∧
      ∀ o, coins.lookup o = db.coins.lookup o ∨
        coins.lookup o = (db.coins.writeEntries mapCoins).lookup o := by
  obtain ⟨j, hj⟩ := exists_flatten_take_batchLoop full mapCoins.entries hashBlock _ hpos hk
  refine ⟨_, ?_, lookup_take_entries db.coins mapCoins j⟩
  rw [writeBatches_eq, hj, writeBatch_append, writeBatch_entries]
  rfl

end CCoinsViewDB

end Verge
