import Mathlib.Data.Prod.Lex
import Mathlib.Logic.Relation
import Verge.Foundation.OrderedWalk
import Verge.Wallet.Transactions

/-!
# Abandoning a transaction

`AbandonTransaction` of `wallet.cpp` works through a list of transactions to abandon.
After each one it walks over `mapTxSpends` for the transactions that spend it, but it
starts the walk at `lower_bound(COutPoint(hashTx, 0))`, at the first transaction of the
call and not at the one just abandoned.  So it finds the spenders of `hashTx` and, for
every other transaction, an entry of `hashTx` at which the walk ends.
-/

namespace Verge

open Foundation List AssocMap CWalletTx

/-! ## The order of `mapTxSpends` -/

/-- The order of `COutPoint`: by the bytes of the hash, then by the index. -/
def COutPoint.key (outpoint : COutPoint) : List Nat ×ₗ Nat :=
  toLex (CWallet.hashBytes outpoint.hash, outpoint.n)

namespace CWallet

/-- The entries of the multimap in its order; equal keys stay in the order of insertion. -/
def sortedSpends (wallet : CWallet) : List (COutPoint × uint256) :=
  wallet.mapTxSpends.insertionSort fun a b => a.1.key ≤ b.1.key

/-- The walk from `mapTxSpends.lower_bound(COutPoint(hashTx, 0))` while the outpoint is
one of `now`. -/
def spendsFrom (wallet : CWallet) (hashTx now : uint256) : List uint256 :=
  ((wallet.sortedSpends.dropWhile fun spend => spend.1.key < (COutPoint.mk hashTx 0).key).takeWhile
    fun spend => spend.1.hash == now).map Prod.snd

def abandonOne (wallet : CWallet) (chainActive : List CBlock) (hashTx : uint256)
    (mapWallet : AssocMap uint256 CWalletTx) (now : uint256) :
    Except WalletHalt (AssocMap uint256 CWalletTx × List uint256) :=
  match mapWallet.lookup now with
  | none => .error .assertion
  | some wtx =>
    let currentconfirm := getDepthInMainChain chainActive wtx
    if 0 < currentconfirm then .error .assertion
    else if currentconfirm = 0 ∧ wtx.isAbandoned = false then
      if wtx.fInMempool then .error .assertion
      else
        let wtx := { wtx with nIndex := -1 }.setAbandoned
        .ok (markInputsDirty (mapWallet.insert now wtx.markDirty) wtx.tx.vin,
          wallet.spendsFrom hashTx now)
    else .ok (mapWallet, [])

/-- `AbandonTransaction`.  The loop has no bound in the source; it visits every
transaction of the wallet at most once. -/
def abandonTransaction (wallet : CWallet) (chainActive : List CBlock) (hashTx : uint256) :
    Except WalletHalt (Bool × CWallet) :=
  match wallet.mapWallet.lookup hashTx with
  | none => .error .assertion
  | some origtx =>
    if getDepthInMainChain chainActive origtx ≠ 0 ∨ origtx.fInMempool = true then
      .ok (false, wallet)
    else
      match Worklist.run hashLE (wallet.abandonOne chainActive hashTx)
          (wallet.mapWallet.keys.length + 1) (Worklist.start hashTx wallet.mapWallet) with
      | some (.ok mapWallet) => .ok (true, { wallet with mapWallet := mapWallet })
      | some (.error halt) => .error halt
      | none => .error .assertion

end CWallet

/-! ## What the walk finds -/

theorem mod_pow_eq_of_digits {b x y : Nat} :
    ∀ {n : Nat}, (∀ i < n, x / b ^ i % b = y / b ^ i % b) → x % b ^ n = y % b ^ n
  | 0, _ => by simp [Nat.mod_one]
  | n + 1, h => by
    rw [Nat.mod_pow_succ, Nat.mod_pow_succ, h n (Nat.lt_succ_self n),
      mod_pow_eq_of_digits fun i hi => h i (Nat.lt_succ_of_lt hi)]

namespace CWallet

variable {wallet : CWallet}

theorem hashBytes_injective {a b : uint256} (h : hashBytes a = hashBytes b) : a = b := by
  have hdigits : ∀ i < 32, a.toNat / 256 ^ i % 256 = b.toNat / 256 ^ i % 256 := by
    intro i hi
    have hget := congrArg (fun l : List Nat => l[i]?) h
    simpa [hashBytes, hi] using hget
  have hmod := mod_pow_eq_of_digits hdigits
  have ha : a.toNat < 256 ^ 32 := a.isLt
  have hb : b.toNat < 256 ^ 32 := b.isLt
  rw [Nat.mod_eq_of_lt ha, Nat.mod_eq_of_lt hb] at hmod
  exact BitVec.eq_of_toNat_eq hmod

theorem key_le_iff {a b : COutPoint} :
    a.key ≤ b.key ↔ hashBytes a.hash < hashBytes b.hash ∨ (a.hash = b.hash ∧ a.n ≤ b.n) := by
  have heq : hashBytes a.hash = hashBytes b.hash ↔ a.hash = b.hash :=
    ⟨hashBytes_injective, congrArg hashBytes⟩
  rw [COutPoint.key, COutPoint.key, Prod.Lex.toLex_le_toLex, heq]

theorem hash_eq_of_key_le {a b : COutPoint} {hash : uint256}
    (hlow : (COutPoint.mk hash 0).key ≤ a.key) (hhigh : a.key ≤ b.key) (hb : b.hash = hash) :
    a.hash = hash := by
  rw [key_le_iff] at hlow hhigh
  subst hb
  rcases hlow with hlow | ⟨hlow, -⟩
  · rcases hhigh with hhigh | ⟨hhigh, -⟩
    · exact absurd hhigh (lt_asymm hlow)
    · exact hhigh
  · exact hlow.symm

theorem pairwise_sortedSpends :
    wallet.sortedSpends.Pairwise fun a b => a.1.key ≤ b.1.key :=
  pairwise_insertionSort (fun a b : COutPoint × uint256 => a.1.key ≤ b.1.key) _

theorem mem_sortedSpends {spend : COutPoint × uint256} :
    spend ∈ wallet.sortedSpends ↔ spend ∈ wallet.mapTxSpends := mem_insertionSort _

theorem dropWhile_sortedSpends (key : List Nat ×ₗ Nat) :
    (wallet.sortedSpends.dropWhile fun spend => spend.1.key < key) =
      wallet.sortedSpends.filter fun spend => !decide (spend.1.key < key) := by
  refine dropWhile_eq_filter (pairwise_sortedSpends.imp fun {a b} hab hb => ?_)
  exact decide_eq_true (lt_of_le_of_lt hab (of_decide_eq_true hb))

theorem mem_children {hash child : uint256} :
    child ∈ wallet.children hash ↔
      ∃ outpoint, (outpoint, child) ∈ wallet.mapTxSpends ∧ outpoint.hash = hash := by
  simp [children]

theorem mem_spendsFrom_self {hashTx child : uint256} :
    child ∈ wallet.spendsFrom hashTx hashTx ↔ child ∈ wallet.children hashTx := by
  have hwalk : ((wallet.sortedSpends.filter fun spend =>
      !decide (spend.1.key < (COutPoint.mk hashTx 0).key)).takeWhile fun spend =>
        spend.1.hash == hashTx) = (wallet.sortedSpends.filter fun spend =>
      !decide (spend.1.key < (COutPoint.mk hashTx 0).key)).filter fun spend =>
        spend.1.hash == hashTx := by
    refine takeWhile_eq_filter ?_
    refine List.Pairwise.imp_of_mem ?_ (pairwise_sortedSpends.filter _)
    intro a b ha _ hab hb
    have hlow : (COutPoint.mk hashTx 0).key ≤ a.1.key := by
      simpa using (mem_filter.mp ha).2
    exact beq_iff_eq.mpr (hash_eq_of_key_le hlow hab (beq_iff_eq.mp hb))
  have hfirst : ∀ outpoint : COutPoint, outpoint.hash = hashTx →
      ¬ outpoint.key < (COutPoint.mk hashTx 0).key := by
    intro outpoint hhash
    exact not_lt.mpr (key_le_iff.mpr (.inr ⟨hhash.symm, Nat.zero_le _⟩))
  rw [spendsFrom, dropWhile_sortedSpends, hwalk, mem_children]
  simp only [mem_map, mem_filter, mem_sortedSpends, Prod.exists, exists_eq_right,
    Bool.not_eq_true', decide_eq_false_iff_not, beq_iff_eq]
  exact exists_congr fun outpoint =>
    ⟨fun h => ⟨h.1.1, h.2⟩, fun h => ⟨⟨h.1, hfirst outpoint h.2⟩, h.2⟩⟩

theorem spendsFrom_eq_nil {hashTx now : uint256} (hne : now ≠ hashTx)
    (hchild : wallet.children hashTx ≠ []) : wallet.spendsFrom hashTx now = [] := by
  obtain ⟨child, hmem⟩ := exists_mem_of_ne_nil _ hchild
  obtain ⟨outpoint, hspend, hhash⟩ := mem_children.mp hmem
  rw [spendsFrom, dropWhile_sortedSpends]
  refine map_eq_nil_iff.mpr (takeWhile_eq_nil_of_forall ?_)
  intro first hfirst
  have hin := mem_of_mem_head? hfirst
  have hlow : (COutPoint.mk hashTx 0).key ≤ first.1.key := by
    simpa using (mem_filter.mp hin).2
  have hhigh : first.1.key ≤ outpoint.key := by
    have hmemFilter : (outpoint, child) ∈ wallet.sortedSpends.filter fun spend =>
        !decide (spend.1.key < (COutPoint.mk hashTx 0).key) := by
      refine mem_filter.mpr ⟨mem_sortedSpends.mpr hspend, ?_⟩
      simpa using key_le_iff.mpr (.inr ⟨hhash.symm, Nat.zero_le _⟩)
    exact rel_of_mem_head? (r := fun a b : COutPoint × uint256 => a.1.key ≤ b.1.key)
      (fun a => le_refl _) (pairwise_sortedSpends.filter _) hfirst hmemFilter
  rw [beq_eq_false_iff_ne, hash_eq_of_key_le hlow hhigh hhash]
  exact hne.symm

/-! ## Everything but the cached amounts -/

def status (mapWallet : AssocMap uint256 CWalletTx) (hash : uint256) : Option CWalletTx :=
  (mapWallet.lookup hash).map CWalletTx.markDirty

variable (mapWallet : AssocMap uint256 CWalletTx)

theorem status_insert (hash hash' : uint256) (wtx : CWalletTx) :
    status (mapWallet.insert hash' wtx) hash =
      if hash = hash' then some wtx.markDirty else status mapWallet hash := by
  unfold status
  rw [lookup_insert_ite]
  split <;> rfl

@[simp] theorem status_markDirtyAt (hash hash' : uint256) :
    status (markDirtyAt mapWallet hash') hash = status mapWallet hash := by
  unfold markDirtyAt
  cases hlookup : mapWallet.lookup hash' with
  | none => rfl
  | some wtx =>
    rw [status_insert]
    split
    case isTrue heq =>
      rw [heq, status, hlookup]
      rfl
    case isFalse => rfl

@[simp] theorem status_markInputsDirty (vin : List CTxIn) (hash : uint256) :
    status (markInputsDirty mapWallet vin) hash = status mapWallet hash := by
  induction vin generalizing mapWallet with
  | nil => rfl
  | cons txin vin ih => exact (ih _).trans (status_markDirtyAt _ _ _)

variable {mapWallet}

theorem status_eq_some {hash : uint256} {wtx : CWalletTx} (h : mapWallet.lookup hash = some wtx) :
    status mapWallet hash = some wtx.markDirty := by simp [status, h]

theorem exists_of_status_eq {mapWallet' : AssocMap uint256 CWalletTx}
    {hash : uint256} {wtx : CWalletTx} (h : status mapWallet' hash = status mapWallet hash)
    (hlookup : mapWallet.lookup hash = some wtx) :
    ∃ wtx', mapWallet'.lookup hash = some wtx' ∧ wtx'.markDirty = wtx.markDirty := by
  rw [status_eq_some hlookup] at h
  exact Option.map_eq_some_iff.mp h

end CWallet

namespace CWalletTx

variable {wtx wtx' : CWalletTx}

section

variable (h : wtx'.markDirty = wtx.markDirty)

include h

theorem depth_of_markDirty_eq (chainActive : List CBlock) :
    getDepthInMainChain chainActive wtx' = getDepthInMainChain chainActive wtx := by
  have hdepth := congrArg (getDepthInMainChain chainActive) h
  exact hdepth

theorem isAbandoned_of_markDirty_eq :
    wtx'.isAbandoned = wtx.isAbandoned := by
  have habandoned := congrArg isAbandoned h
  exact habandoned

theorem fInMempool_of_markDirty_eq :
    wtx'.fInMempool = wtx.fInMempool := by
  have hpool := congrArg fInMempool h
  exact hpool

end

def abandoned (wtx : CWalletTx) : CWalletTx := { wtx with nIndex := -1 }.setAbandoned

theorem abandoned_of_markDirty_eq (h : wtx'.markDirty = wtx.markDirty) :
    wtx'.abandoned.markDirty = wtx.abandoned.markDirty := by
  have habandoned := congrArg (fun w => w.abandoned.markDirty) h
  exact habandoned

theorem depth_of_isAbandoned (h : wtx.isAbandoned = true) (chainActive : List CBlock) :
    getDepthInMainChain chainActive wtx = 0 := by
  have hunset : wtx.hashUnset = true := by
    unfold isAbandoned at h
    simp [hashUnset, h]
  simp [getDepthInMainChain, hunset]

end CWalletTx

namespace CWallet

variable {wallet : CWallet}

/-! ## The claim about descendants -/

/-- What `AddToWallet` keeps: transactions stand under their hash, and `mapTxSpends` lists
what they spend. -/
structure WellKept (wallet : CWallet) : Prop where
  hash_eq : ∀ {hash wtx}, wallet.mapWallet.lookup hash = some wtx → wtx.tx.hash = hash
  mem_spends : ∀ {outpoint hash}, (outpoint, hash) ∈ wallet.mapTxSpends ↔
    ∃ wtx, wallet.mapWallet.lookup hash = some wtx ∧ outpoint ∈ wtx.tx.spentBy

def Spends (wallet : CWallet) (hash child : uint256) : Prop :=
  ∃ wtx, wallet.mapWallet.lookup child = some wtx ∧
    ∃ outpoint ∈ wtx.tx.spentBy, outpoint.hash = hash

def Descendant (wallet : CWallet) : uint256 → uint256 → Prop :=
  Relation.TransGen wallet.Spends

def NoLiveDescendants (wallet : CWallet) (chainActive : List CBlock) : Prop :=
  ∀ hash wtx, wallet.mapWallet.lookup hash = some wtx →
    getDepthInMainChain chainActive wtx = 0 → wtx.fInMempool = false →
    ∀ child wtx', wallet.Descendant hash child → wallet.mapWallet.lookup child = some wtx' →
      getDepthInMainChain chainActive wtx' ≤ 0 ∧ wtx'.fInMempool = false

def ToAbandon (wallet : CWallet) (chainActive : List CBlock) (hashTx hash : uint256) : Prop :=
  hash = hashTx ∨ (wallet.Descendant hashTx hash ∧ ∃ wtx,
    wallet.mapWallet.lookup hash = some wtx ∧ ¬ getDepthInMainChain chainActive wtx < 0)

structure AbandonsAll (wallet : CWallet) (chainActive : List CBlock) (hashTx : uint256)
    (wallet' : CWallet) : Prop where
  abandoned : ∀ hash, wallet.ToAbandon chainActive hashTx hash →
    ∃ wtx, wallet'.mapWallet.lookup hash = some wtx ∧ wtx.isAbandoned = true
  others : ∀ hash, ¬ wallet.ToAbandon chainActive hashTx hash →
    status wallet'.mapWallet hash = status wallet.mapWallet hash
  unspent : ∀ outpoint, (∀ spender ∈ wallet.spenders outpoint,
    wallet.ToAbandon chainActive hashTx spender) → wallet'.isSpent chainActive outpoint = false

/-- Every descendant that is neither conflicted nor abandoned spends an output of `hashTx`
itself, and there is none if `hashTx` is abandoned already. -/
def OnlyChildrenLeft (wallet : CWallet) (chainActive : List CBlock) (hashTx : uint256) : Prop :=
  ∀ hash wtx, wallet.Descendant hashTx hash → hash ≠ hashTx →
    wallet.mapWallet.lookup hash = some wtx → ¬ getDepthInMainChain chainActive wtx < 0 →
    wtx.isAbandoned = false → wallet.Spends hashTx hash ∧
      ∀ origtx, wallet.mapWallet.lookup hashTx = some origtx → origtx.isAbandoned = false

theorem WellKept.mem_children_iff (h : wallet.WellKept) {hash child : uint256} :
    child ∈ wallet.children hash ↔ wallet.Spends hash child := by
  rw [mem_children]
  constructor
  · rintro ⟨outpoint, hmem, hhash⟩
    obtain ⟨wtx, hlookup, hspent⟩ := h.mem_spends.mp hmem
    exact ⟨wtx, hlookup, outpoint, hspent, hhash⟩
  · rintro ⟨wtx, hlookup, outpoint, hspent, hhash⟩
    exact ⟨outpoint, h.mem_spends.mpr ⟨wtx, hlookup, hspent⟩, hhash⟩

/-! ## What the loop does -/

def Abandonable (chainActive : List CBlock) (wtx : CWalletTx) : Prop :=
  getDepthInMainChain chainActive wtx = 0 ∧ wtx.isAbandoned = false

instance (chainActive : List CBlock) (wtx : CWalletTx) : Decidable (Abandonable chainActive wtx) :=
  inferInstanceAs (Decidable (_ ∧ _))

def Reached (wallet : CWallet) (chainActive : List CBlock) (hashTx : uint256)
    (origtx : CWalletTx) (hash : uint256) : Prop :=
  hash = hashTx ∨ (Abandonable chainActive origtx ∧ wallet.Spends hashTx hash)

/-- The loop has abandoned what it has visited, and what it still has to visit are
spenders of `hashTx`. -/
structure LoopInv (wallet : CWallet) (chainActive : List CBlock) (hashTx : uint256)
    (origtx : CWalletTx) (l : Worklist uint256 (AssocMap uint256 CWalletTx)) : Prop where
  visited : ∀ hash wtx, hash ∈ l.visited → wallet.mapWallet.lookup hash = some wtx →
    status l.state hash =
      some (if Abandonable chainActive wtx then wtx.abandoned else wtx).markDirty
  unvisited : ∀ hash, hash ∉ l.visited → status l.state hash = status wallet.mapWallet hash
  reached : ∀ hash, hash ∈ l.visited ∨ hash ∈ l.todo → wallet.Reached chainActive hashTx origtx hash
  started : hashTx ∈ l.visited ∨ hashTx ∈ l.todo
  complete : hashTx ∈ l.visited → ∀ hash, wallet.Reached chainActive hashTx origtx hash →
    hash ∈ l.visited ∨ hash ∈ l.todo

section Loop

variable {chainActive : List CBlock} {hashTx hash : uint256} {origtx wtx : CWalletTx}
  {mapWallet : AssocMap uint256 CWalletTx}

theorem mem_keys_of_lookup (h : wallet.mapWallet.lookup hash = some wtx) :
    hash ∈ wallet.mapWallet.keys := by
  rw [← AList.mem_keys, ← AList.lookup_isSome, h]
  rfl

theorem abandonOne_eq (hkept : wallet.WellKept) {now : uint256}
    (hstatus : status mapWallet now = status wallet.mapWallet now)
    (hlookup : wallet.mapWallet.lookup now = some wtx)
    (hdepth : getDepthInMainChain chainActive wtx ≤ 0) (hpool : wtx.fInMempool = false)
    (hnow : now = hashTx ∨ wallet.Spends hashTx now) :
    ∃ mapWallet' found, wallet.abandonOne chainActive hashTx mapWallet now =
        .ok (mapWallet', found) ∧
      (∀ hash, status mapWallet' hash = if hash = now then
          some (if Abandonable chainActive wtx then wtx.abandoned else wtx).markDirty
        else status mapWallet hash) ∧
      (∀ hash, hash ∈ found ↔
        now = hashTx ∧ Abandonable chainActive wtx ∧ wallet.Spends hashTx hash) := by
  obtain ⟨wtx', hlookup', hsame⟩ := exists_of_status_eq hstatus hlookup
  have hdepth' := depth_of_markDirty_eq hsame chainActive
  have habandoned' := isAbandoned_of_markDirty_eq hsame
  have hpool' := fInMempool_of_markDirty_eq hsame
  have hcan' : (getDepthInMainChain chainActive wtx' = 0 ∧ wtx'.isAbandoned = false) ↔
      Abandonable chainActive wtx := by
    rw [hdepth', habandoned']
    rfl
  unfold abandonOne
  simp only [hlookup']
  rw [if_neg (by rw [hdepth']; exact not_lt.mpr hdepth)]
  by_cases hcan : Abandonable chainActive wtx
  · rw [if_pos (hcan'.mpr hcan), if_neg (by simp [hpool', hpool])]
    refine ⟨_, _, rfl, fun hash => ?_, fun hash => ?_⟩
    · rw [status_markInputsDirty, status_insert, if_pos hcan,
        ← abandoned_of_markDirty_eq hsame]
      rfl
    · rcases hnow with rfl | hspends
      · rw [mem_spendsFrom_self, hkept.mem_children_iff]
        exact ⟨fun h => ⟨rfl, hcan, h⟩, fun h => h.2.2⟩
      · by_cases heq : now = hashTx
        · rw [heq, mem_spendsFrom_self, hkept.mem_children_iff]
          exact ⟨fun h => ⟨rfl, hcan, h⟩, fun h => h.2.2⟩
        · have hchild := hkept.mem_children_iff.mpr hspends
          rw [spendsFrom_eq_nil heq (ne_nil_of_mem hchild)]
          simp [heq]
  · rw [if_neg (fun h => hcan (hcan'.mp h))]
    refine ⟨_, _, rfl, fun hash => ?_, fun hash => ?_⟩
    · rw [if_neg hcan]
      split
      case isTrue heq => rw [heq, hstatus, status_eq_some hlookup]
      case isFalse => rfl
    · simp [hcan]

theorem LoopInv.start :
    LoopInv wallet chainActive hashTx origtx (Worklist.start hashTx wallet.mapWallet) where
  visited := by simp [Worklist.start]
  unvisited := by simp [Worklist.start]
  reached := by simp [Worklist.start, Reached]
  started := by simp [Worklist.start]
  complete := by simp [Worklist.start]

theorem exists_isAbandoned (h : status mapWallet hash = some wtx.markDirty) :
    ∃ wtx', mapWallet.lookup hash = some wtx' ∧ wtx'.isAbandoned = wtx.isAbandoned := by
  obtain ⟨wtx', hlookup, hsame⟩ := Option.map_eq_some_iff.mp h
  exact ⟨wtx', hlookup, isAbandoned_of_markDirty_eq hsame⟩

theorem isSpent_eq_false {outpoint : COutPoint}
    (h : ∀ spender ∈ wallet.spenders outpoint,
      ∃ wtx, wallet.mapWallet.lookup spender = some wtx ∧ wtx.isAbandoned = true) :
    wallet.isSpent chainActive outpoint = false := by
  refine any_eq_false.mpr fun spender hmem => ?_
  obtain ⟨wtx, hlookup, habandoned⟩ := h spender hmem
  simp [hlookup, habandoned, depth_of_isAbandoned habandoned]

section

variable (hkept : wallet.WellKept) (hlive : wallet.NoLiveDescendants chainActive)
  (horig : wallet.mapWallet.lookup hashTx = some origtx)
  (hdepth : getDepthInMainChain chainActive origtx = 0) (hpool : origtx.fInMempool = false)

include hlive horig hdepth hpool

theorem Reached.exists_wtx (h : wallet.Reached chainActive hashTx origtx hash) :
    ∃ wtx, wallet.mapWallet.lookup hash = some wtx ∧
      getDepthInMainChain chainActive wtx ≤ 0 ∧ wtx.fInMempool = false := by
  rcases h with rfl | ⟨-, hspends⟩
  · exact ⟨origtx, horig, hdepth.le, hpool⟩
  · have hdescendant : wallet.Descendant hashTx hash := .single hspends
    obtain ⟨wtx, hlookup, -⟩ := hspends
    exact ⟨wtx, hlookup, hlive hashTx origtx horig hdepth hpool hash wtx hdescendant hlookup⟩

include hkept

theorem LoopInv.after {l : Worklist uint256 (AssocMap uint256 CWalletTx)} {now : uint256}
    {todo : List uint256} (hinv : LoopInv wallet chainActive hashTx origtx l)
    (hwithin : Worklist.Within wallet.mapWallet.keys l) (htodo : l.todo = now :: todo) :
    ∃ mapWallet' found, wallet.abandonOne chainActive hashTx l.state now = .ok (mapWallet', found) ∧
      (∀ hash ∈ found, hash ∈ wallet.mapWallet.keys) ∧
      LoopInv wallet chainActive hashTx origtx (l.after hashLE now mapWallet' found) := by
  have hfresh : now ∉ l.visited := hwithin.apart now (by simp [htodo])
  have hreached := hinv.reached now (.inr (by simp [htodo]))
  obtain ⟨wtx, hlookup, hle, hnopool⟩ := hreached.exists_wtx hlive horig hdepth hpool
  obtain ⟨mapWallet', found, hrun, hstatus, hfound⟩ := abandonOne_eq hkept
    (hinv.unvisited now hfresh) hlookup hle hnopool (hreached.imp_right And.right)
  refine ⟨mapWallet', found, hrun, ?_, ?_⟩
  · intro hash hmem
    obtain ⟨-, -, wtx', hlookup', -⟩ := (hfound hash).mp hmem
    exact mem_keys_of_lookup hlookup'
  have hmem : ∀ hash, hash ∈ (l.after hashLE now mapWallet' found).todo ↔
      (hash ∈ found ∧ hash ∉ now :: l.visited) ∨ hash ∈ todo := by
    intro hash
    rw [Worklist.mem_todo_after, htodo, tail_cons]
  have hvisited : (l.after hashLE now mapWallet' found).visited = now :: l.visited := rfl
  have hstate : (l.after hashLE now mapWallet' found).state = mapWallet' := rfl
  refine ⟨?_, ?_, ?_, ?_, ?_⟩
  · intro hash wtx' hin hlookup'
    rw [hstate, hstatus]
    rw [hvisited] at hin
    split
    case isTrue heq =>
      rw [heq, hlookup, Option.some.injEq] at hlookup'
      rw [hlookup']
    case isFalse hne =>
      exact hinv.visited hash wtx' ((mem_cons.mp hin).resolve_left hne) hlookup'
  · intro hash hnotin
    rw [hvisited, mem_cons, not_or] at hnotin
    rw [hstate, hstatus, if_neg hnotin.1, hinv.unvisited hash hnotin.2]
  · intro hash hin
    rw [hvisited, hmem, mem_cons] at hin
    rcases hin with (rfl | hin) | ⟨hin, -⟩ | hin
    · exact hreached
    · exact hinv.reached hash (.inl hin)
    · obtain ⟨heq, hcan, hspends⟩ := (hfound hash).mp hin
      rw [heq, horig, Option.some.injEq] at hlookup
      exact .inr ⟨hlookup ▸ hcan, hspends⟩
    · exact hinv.reached hash (.inr (by simp [htodo, hin]))
  · rw [hvisited, hmem]
    rcases hinv.started with hin | hin
    · exact .inl (mem_cons_of_mem _ hin)
    · rw [htodo] at hin
      rcases mem_cons.mp hin with rfl | hin
      · exact .inl mem_cons_self
      · exact .inr (.inr hin)
  · intro hstarted hash hreach
    rw [hvisited, hmem]
    rw [hvisited] at hstarted
    by_cases hin : hash ∈ now :: l.visited
    · exact .inl hin
    refine .inr ?_
    rcases mem_cons.mp hstarted with heq | hstarted
    · rcases hreach with rfl | ⟨hcan, hspends⟩
      · exact absurd (heq ▸ mem_cons_self) hin
      · rw [← heq, horig, Option.some.injEq] at hlookup
        exact .inl ⟨(hfound hash).mpr ⟨heq.symm, hlookup ▸ hcan, hspends⟩, hin⟩
    · rcases hinv.complete hstarted hash hreach with hold | hold
      · exact absurd (mem_cons_of_mem _ hold) hin
      · rw [htodo] at hold
        exact .inr ((mem_cons.mp hold).resolve_left fun heq => hin (heq ▸ mem_cons_self))

/-- The call abandons `hashTx` and the transactions that spend an output of it, as far as
they can be abandoned. -/
theorem abandonTransaction_spec :
    ∃ mapWallet', wallet.abandonTransaction chainActive hashTx =
        .ok (true, { wallet with mapWallet := mapWallet' }) ∧
      (∀ hash wtx, wallet.Reached chainActive hashTx origtx hash →
        wallet.mapWallet.lookup hash = some wtx → status mapWallet' hash =
          some (if Abandonable chainActive wtx then wtx.abandoned else wtx).markDirty) ∧
      (∀ hash, ¬ wallet.Reached chainActive hashTx origtx hash →
        status mapWallet' hash = status wallet.mapWallet hash) := by
  obtain ⟨l, hrun, hinv, hdone⟩ := Worklist.exists_run (r := hashLE)
    (U := wallet.mapWallet.keys) (I := LoopInv wallet chainActive hashTx origtx)
    (fun l now todo hinv hwithin htodo =>
      hinv.after hkept hlive horig hdepth hpool hwithin htodo)
    (mem_keys_of_lookup horig) .start (Nat.lt_succ_self _)
  have hstarted : hashTx ∈ l.visited := by simpa [hdone] using hinv.started
  have hvisited : ∀ hash, hash ∈ l.visited ↔ wallet.Reached chainActive hashTx origtx hash :=
    fun hash => ⟨fun h => hinv.reached hash (.inl h), fun h => by
      simpa [hdone] using hinv.complete hstarted hash h⟩
  refine ⟨l.state, ?_, ?_, ?_⟩
  · unfold abandonTransaction
    simp only [horig, hrun]
    exact if_neg (by simp [hdepth, hpool])
  · intro hash wtx hreach hlookup
    exact hinv.visited hash wtx ((hvisited hash).mpr hreach) hlookup
  · intro hash hreach
    exact hinv.unvisited hash fun hin => hreach ((hvisited hash).mp hin)

end

/-- All descendants are abandoned exactly if those that had to be are direct spenders of the
transaction; the loop ends in any case. -/
theorem abandonTransaction_abandonsAll_iff (wallet : CWallet) (chainActive : List CBlock)
    (hashTx : uint256) (origtx : CWalletTx) (hkept : wallet.WellKept)
    (hlive : wallet.NoLiveDescendants chainActive)
    (horig : wallet.mapWallet.lookup hashTx = some origtx)
    (hdepth : getDepthInMainChain chainActive origtx = 0) (hpool : origtx.fInMempool = false) :
    ∃ wallet', wallet.abandonTransaction chainActive hashTx = .ok (true, wallet') ∧
      (wallet.AbandonsAll chainActive hashTx wallet' ↔
        wallet.OnlyChildrenLeft chainActive hashTx) := by
  obtain ⟨mapWallet', hrun, hreached, hrest⟩ :=
    abandonTransaction_spec hkept hlive horig hdepth hpool
  refine ⟨_, hrun, ?_, ?_⟩
  · intro hall hash wtx hdescendant hne hlookup hconflict hnot
    obtain ⟨wtx', hlookup', habandoned⟩ :=
      hall.abandoned hash (.inr ⟨hdescendant, wtx, hlookup, hconflict⟩)
    have hreach : wallet.Reached chainActive hashTx origtx hash := by
      by_contra hout
      obtain ⟨wtx'', hlookup'', hsame⟩ := exists_of_status_eq (hrest hash hout) hlookup
      rw [hlookup', Option.some.injEq] at hlookup''
      rw [hlookup'', isAbandoned_of_markDirty_eq hsame, hnot] at habandoned
      cases habandoned
    obtain ⟨hcan, hspends⟩ := hreach.resolve_left hne
    refine ⟨hspends, fun origtx' horig' => ?_⟩
    rw [horig, Option.some.injEq] at horig'
    exact horig' ▸ hcan.2
  · intro honly
    -- a transaction that is abandoned already stays as it is, one that can be is reached
    have hdone : ∀ hash wtx, wallet.mapWallet.lookup hash = some wtx →
        getDepthInMainChain chainActive wtx = 0 →
        (wtx.isAbandoned = false → wallet.Reached chainActive hashTx origtx hash) →
        ∃ wtx', mapWallet'.lookup hash = some wtx' ∧ wtx'.isAbandoned = true := by
      intro hash wtx hlookup hzero hreach
      cases habandoned : wtx.isAbandoned with
      | false =>
        have hstatus := hreached hash wtx (hreach habandoned) hlookup
        rw [if_pos ⟨hzero, habandoned⟩] at hstatus
        exact exists_isAbandoned hstatus
      | true =>
        have hcan : ¬ Abandonable chainActive wtx := fun h => by simp [h.2] at habandoned
        have hstatus : status mapWallet' hash = some wtx.markDirty := by
          by_cases hin : wallet.Reached chainActive hashTx origtx hash
          · rw [hreached hash wtx hin hlookup, if_neg hcan]
          · rw [hrest hash hin, status_eq_some hlookup]
        rw [← habandoned]
        exact exists_isAbandoned hstatus
    have habandoned : ∀ hash, wallet.ToAbandon chainActive hashTx hash →
        ∃ wtx, mapWallet'.lookup hash = some wtx ∧ wtx.isAbandoned = true := by
      rintro hash (rfl | ⟨hdescendant, wtx, hlookup, hconflict⟩)
      · exact hdone hash origtx horig hdepth fun _ => .inl rfl
      · have hle := (hlive hashTx origtx horig hdepth hpool hash wtx hdescendant hlookup).1
        refine hdone hash wtx hlookup (le_antisymm hle (not_lt.mp hconflict)) fun hnot => ?_
        by_cases heq : hash = hashTx
        · exact .inl heq
        · obtain ⟨hspends, hfresh⟩ := honly hash wtx hdescendant heq hlookup hconflict hnot
          exact .inr ⟨⟨hdepth, hfresh origtx horig⟩, hspends⟩
    refine ⟨habandoned, fun hash hout => ?_, fun outpoint hspenders => ?_⟩
    · by_cases hin : wallet.Reached chainActive hashTx origtx hash
      · obtain ⟨wtx, hlookup, -⟩ := hin.exists_wtx hlive horig hdepth hpool
        have hcan : ¬ Abandonable chainActive wtx := by
          intro hcan
          rcases hin with rfl | ⟨-, hspends⟩
          · exact hout (.inl rfl)
          · exact hout (.inr ⟨.single hspends, wtx, hlookup, by simp [hcan.1]⟩)
        rw [hreached hash wtx hin hlookup, if_neg hcan, status_eq_some hlookup]
      · exact hrest hash hin
    · exact isSpent_eq_false fun spender hmem => habandoned spender (hspenders spender hmem)

end Loop

end CWallet

/-! ## A chain of three transactions -/

def spendOf (hash parent : uint256) : CTransaction :=
  ⟨[⟨⟨parent, 0⟩, [], 0, []⟩], [⟨1, []⟩], 1, 0, 0, hash⟩

/-- Each transaction of the wallet spends the one before it; the first spends a foreign
output. -/
def chainOfSpends (hashes : List uint256) : CWallet where
  mapWallet := hashes.foldl (fun mapWallet hash =>
    mapWallet.insert hash (CWalletTx.ofTx (spendOf hash (hash - 1)))) ∅
  mapTxSpends := hashes.map fun hash => (⟨hash - 1, 0⟩, hash)

namespace CWallet

theorem spentBy_spendOf (hash parent : uint256) :
    (spendOf hash parent).spentBy = [⟨parent, 0⟩] := by
  simp [CTransaction.spentBy, CTransaction.isCoinBase, spendOf, COutPoint.isNull]

variable (hashes : List uint256)

theorem lookup_chainOfSpends (hash : uint256) :
    (chainOfSpends hashes).mapWallet.lookup hash =
      if hash ∈ hashes then some (ofTx (spendOf hash (hash - 1))) else none := by
  suffices hfold : ∀ mapWallet : AssocMap uint256 CWalletTx,
      (hashes.foldl (fun mapWallet hash =>
        mapWallet.insert hash (ofTx (spendOf hash (hash - 1)))) mapWallet).lookup hash =
      if hash ∈ hashes then some (ofTx (spendOf hash (hash - 1)))
      else mapWallet.lookup hash by
    exact (hfold ∅).trans (by simp)
  induction hashes with
  | nil => simp
  | cons first hashes ih =>
    intro mapWallet
    rw [foldl_cons, ih, lookup_insert_ite]
    by_cases hmem : hash ∈ hashes
    · simp [hmem]
    · by_cases heq : hash = first
      · simp [heq]
      · simp [hmem, heq]

theorem chainOfSpends_eq_some {hashes : List uint256} {hash : uint256} {wtx : CWalletTx} :
    (chainOfSpends hashes).mapWallet.lookup hash = some wtx ↔
      hash ∈ hashes ∧ ofTx (spendOf hash (hash - 1)) = wtx := by
  rw [lookup_chainOfSpends]
  split <;> simp_all

theorem wellKept_chainOfSpends : (chainOfSpends hashes).WellKept where
  hash_eq := by
    intro hash wtx h
    obtain ⟨-, rfl⟩ := chainOfSpends_eq_some.mp h
    rfl
  mem_spends := by
    intro outpoint hash
    simp only [chainOfSpends_eq_some]
    constructor
    · intro h
      obtain ⟨hash', hmem, heq⟩ := mem_map.mp h
      obtain ⟨rfl, rfl⟩ := Prod.mk.inj heq
      exact ⟨_, ⟨hmem, rfl⟩, by simp [ofTx, spentBy_spendOf]⟩
    · rintro ⟨wtx, ⟨hmem, rfl⟩, hin⟩
      rw [ofTx, spentBy_spendOf, mem_singleton] at hin
      exact mem_map.mpr ⟨hash, hmem, by rw [hin]⟩

theorem noLiveDescendants_chainOfSpends :
    (chainOfSpends hashes).NoLiveDescendants [] := by
  intro _ _ _ _ _ child wtx' _ hlookup
  obtain ⟨-, rfl⟩ := chainOfSpends_eq_some.mp hlookup
  exact ⟨le_of_eq rfl, rfl⟩

theorem spends_chainOfSpends {hashes : List uint256} {hash : uint256} (h : hash ∈ hashes) :
    (chainOfSpends hashes).Spends (hash - 1) hash :=
  ⟨_, chainOfSpends_eq_some.mpr ⟨h, rfl⟩, ⟨hash - 1, 0⟩,
    by simp [ofTx, spentBy_spendOf], rfl⟩

theorem abandonTransaction_abandonsAll_one_child :
    (chainOfSpends [10, 11]).WellKept ∧ (chainOfSpends [10, 11]).NoLiveDescendants [] ∧
    ∃ wallet', (chainOfSpends [10, 11]).abandonTransaction [] 10 = .ok (true, wallet') ∧
      (chainOfSpends [10, 11]).AbandonsAll [] 10 wallet' := by
  refine ⟨wellKept_chainOfSpends _, noLiveDescendants_chainOfSpends _, ?_⟩
  obtain ⟨wallet', hrun, hiff⟩ := abandonTransaction_abandonsAll_iff (chainOfSpends [10, 11]) [] 10
    (ofTx (spendOf 10 9)) (wellKept_chainOfSpends _) (noLiveDescendants_chainOfSpends _)
    (chainOfSpends_eq_some.mpr ⟨by simp, rfl⟩) rfl rfl
  refine ⟨wallet', hrun, hiff.mpr ?_⟩
  intro hash wtx _ hne hlookup _ _
  obtain ⟨hmem, rfl⟩ := chainOfSpends_eq_some.mp hlookup
  obtain rfl : hash = 11 := mem_singleton.mp ((mem_cons.mp hmem).resolve_left hne)
  refine ⟨spends_chainOfSpends (by simp), fun origtx horig => ?_⟩
  obtain ⟨-, rfl⟩ := chainOfSpends_eq_some.mp horig
  rfl

/-- The transaction that spends the child's output is not abandoned, and the output it
spends stays spent. -/
theorem abandonTransaction_leaves_grandchild :
    (chainOfSpends [10, 11, 12]).WellKept ∧ (chainOfSpends [10, 11, 12]).NoLiveDescendants [] ∧
    (chainOfSpends [10, 11, 12]).ToAbandon [] 10 12 ∧
    ∃ wallet' wtx, (chainOfSpends [10, 11, 12]).abandonTransaction [] 10 = .ok (true, wallet') ∧
      wallet'.mapWallet.lookup 12 = some wtx ∧ wtx.isAbandoned = false ∧
      wallet'.isSpent [] ⟨11, 0⟩ = true ∧
      ∀ spender ∈ (chainOfSpends [10, 11, 12]).spenders ⟨11, 0⟩, spender = 12 := by
  refine ⟨wellKept_chainOfSpends _, noLiveDescendants_chainOfSpends _, .inr ⟨?_, ?_⟩, ?_⟩
  · have h₁ : (chainOfSpends [10, 11, 12]).Spends 10 11 := spends_chainOfSpends (by simp)
    have h₂ : (chainOfSpends [10, 11, 12]).Spends 11 12 := spends_chainOfSpends (by simp)
    exact .tail (.single h₁) h₂
  · exact ⟨_, chainOfSpends_eq_some.mpr ⟨by simp, rfl⟩, by decide⟩
  · have heval : ((chainOfSpends [10, 11, 12]).abandonTransaction [] 10).toOption.map (fun result =>
        (result.1, (result.2.mapWallet.lookup 12).map isAbandoned,
          result.2.isSpent [] ⟨11, 0⟩)) = some (true, some false, true) := by decide +kernel
    cases hrun : (chainOfSpends [10, 11, 12]).abandonTransaction [] 10 with
    | error halt =>
      rw [hrun] at heval
      cases heval
    | ok result =>
      simp only [hrun, Except.toOption, Option.map_some, Option.some.injEq, Prod.mk.injEq] at heval
      obtain ⟨htrue, habandoned, hspent⟩ := heval
      obtain ⟨wtx, hlookup, hnot⟩ := Option.map_eq_some_iff.mp habandoned
      have hspenders : (chainOfSpends [10, 11, 12]).spenders ⟨11, 0⟩ = [12] := by decide +kernel
      refine ⟨result.2, wtx, by rw [← htrue], hlookup, hnot, hspent, fun spender hmem => ?_⟩
      exact mem_singleton.mp (hspenders ▸ hmem)

end CWallet

end Verge
