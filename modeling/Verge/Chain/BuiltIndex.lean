import Mathlib.Logic.Function.Basic
import Verge.Chain.ChainState
import Verge.Chain.SkipList
import Verge.Foundation.Loop

/-!
# An index built entry by entry

Entries are added to a map one at a time: `pprev` and `nHeight` are set, then
`BuildSkip` looks up the skip pointer with the entries that are there already.
Whatever the branches, `GetAncestor` finds what following `pprev` finds, and
`IsAutomaticReorgAllowed` measures how deep the fork is.
-/

namespace Verge

open Foundation List Ancestry

namespace BlockPointers

variable {κ : Type} (p : BlockPointers κ)

def walk : Nat → κ → Option κ
  | 0, pindex => some pindex
  | n + 1, pindex => (p.pprev pindex).bind (walk n)

def getAncestorPass (height : Nat) : κ × Nat → Pass (κ × Nat) (Except Failure κ)
  | (pindexWalk, heightWalk) =>
    if heightWalk ≤ height then .done (.ok pindexWalk)
    else
      match if followsSkip heightWalk height then p.pskip pindexWalk else none with
      | some pskip => .next (pskip, getSkipHeight heightWalk)
      | none =>
        match p.pprev pindexWalk with
        | none => .done (.error (.assertion "pindexWalk->pprev"))
        | some pprev => .next (pprev, heightWalk - 1)

theorem whileLoop_getAncestorPass (height : Nat) {fuel heightWalk : Nat} (pindexWalk : κ)
    (h : heightWalk ≤ fuel) :
    whileLoop (p.getAncestorPass height) (fuel + 1) (pindexWalk, heightWalk) =
      some (p.getAncestorLoop height fuel pindexWalk heightWalk) := by
  induction fuel generalizing pindexWalk heightWalk with
  | zero =>
    obtain rfl : heightWalk = 0 := Nat.le_zero.mp h
    simp [whileLoop, getAncestorPass, getAncestorLoop]
  | succ fuel ih =>
    rw [whileLoop, getAncestorLoop, getAncestorPass]
    by_cases hend : heightWalk ≤ height
    · simp [hend]
    · have hskip := getSkipHeight_lt (show 0 < heightWalk by omega)
      rw [if_neg hend, if_neg hend]
      cases (if followsSkip heightWalk height then p.pskip pindexWalk else none) with
      | some pskip => exact ih pskip (by omega)
      | none =>
        cases p.pprev pindexWalk with
        | none => rfl
        | some pprev => exact ih pprev (by omega)

def level (pa pb : κ) : Except Failure (Option κ) :=
  if p.nHeight pb < p.nHeight pa then p.getAncestor pa (p.nHeight pb) else .ok (some pa)

variable [DecidableEq κ]

/-- One pass of the loop in `LastCommonAncestor`, and the assertion after it. -/
def meetPass : Option κ × Option κ → Pass (Option κ × Option κ) (Except Failure (Option κ))
  | (pa, pb) =>
    if pa ≠ pb ∧ pa.isSome ∧ pb.isSome then .next (pa.bind p.pprev, pb.bind p.pprev)
    else .done (if pa = pb then .ok pa else .error (.assertion "pa == pb"))

def lastCommonAncestor (pa pb : κ) : Except Failure (Option κ) := do
  let pa' ← p.level pa pb
  let pb' ← p.level pb pa
  match whileLoop p.meetPass (p.nHeight pa + 1) (pa', pb') with
  | some found => found
  | none => .error (.error "LastCommonAncestor does not end")

def isAutomaticReorgAllowed (active_tip candidate : Option κ) : Except Failure Bool :=
  match candidate, active_tip with
  | none, _ => .ok false
  | some _, none => .ok true
  | some candidate, some active_tip => do
    let protected_height := max 0 ((p.nHeight active_tip : Int) - MAX_AUTOMATIC_REORG_DEPTH)
    let theirs ← p.getAncestor candidate protected_height
    let ours ← p.getAncestor active_tip protected_height
    return theirs == ours

end BlockPointers

structure EntryMap (κ : Type) where
  entries : List κ
  pointers : BlockPointers κ

namespace EntryMap

variable {κ : Type} [DecidableEq κ]

def genesis (root : κ) : EntryMap κ := ⟨[root], fun _ => none, fun _ => none, fun _ => 0⟩

def link (x : EntryMap κ) (pindexNew pprev : κ) : EntryMap κ where
  entries := pindexNew :: x.entries
  pointers :=
    { pprev := Function.update x.pointers.pprev pindexNew (some pprev)
      pskip := Function.update x.pointers.pskip pindexNew none
      nHeight := Function.update x.pointers.nHeight pindexNew (x.pointers.nHeight pprev + 1) }

def setSkip (x : EntryMap κ) (pindex : κ) (pskip : Option κ) : EntryMap κ :=
  { x with pointers := { x.pointers with pskip := Function.update x.pointers.pskip pindex pskip } }

section Fields

variable (x : EntryMap κ) (pindexNew pprev : κ) (pskip : Option κ)

theorem pprev_link (k : κ) : (x.link pindexNew pprev).pointers.pprev k =
    if k = pindexNew then some pprev else x.pointers.pprev k :=
  Function.update_apply _ _ _ _

theorem pskip_link (k : κ) : (x.link pindexNew pprev).pointers.pskip k =
    if k = pindexNew then none else x.pointers.pskip k :=
  Function.update_apply _ _ _ _

theorem nHeight_link (k : κ) : (x.link pindexNew pprev).pointers.nHeight k =
    if k = pindexNew then x.pointers.nHeight pprev + 1 else x.pointers.nHeight k :=
  Function.update_apply _ _ _ _

theorem pskip_setSkip (k : κ) : (x.setSkip pindexNew pskip).pointers.pskip k =
    if k = pindexNew then pskip else x.pointers.pskip k :=
  Function.update_apply _ _ _ _

end Fields

def addEntry (x : EntryMap κ) (pindexNew pprev : κ) : Except Failure (EntryMap κ) := do
  let linked := x.link pindexNew pprev
  let pskip ← linked.pointers.buildSkip pindexNew
  return linked.setSkip pindexNew pskip

inductive Built : EntryMap κ → Prop where
  | genesis (root : κ) : Built (genesis root)
  | add {x x' : EntryMap κ} {pindexNew pprev : κ} : Built x → pindexNew ∉ x.entries →
      pprev ∈ x.entries → x.addEntry pindexNew pprev = .ok x' → Built x'

/-- Every entry but the root sits on another one, and a skip pointer, where there is
one, leads to the ancestor at the skip height. -/
structure Grown (root : κ) (x : EntryMap κ) : Prop where
  root_mem : root ∈ x.entries
  root_height : x.pointers.nHeight root = 0
  eq_root : ∀ k ∈ x.entries, x.pointers.pprev k = none → k = root
  pprev : ∀ k ∈ x.entries, ∀ j, x.pointers.pprev k = some j →
    j ∈ x.entries ∧ x.pointers.nHeight k = x.pointers.nHeight j + 1
  pskip : ∀ k ∈ x.entries, ∀ s, x.pointers.pskip k = some s →
    x.pointers.walk (x.pointers.nHeight k - getSkipHeight (x.pointers.nHeight k)) k = some s

namespace Grown

variable {root : κ} {x : EntryMap κ}

def tree (h : Grown root x) : Ancestry κ where
  root := root
  parent k := if k ∈ x.entries then x.pointers.pprev k else some root
  height k := if k ∈ x.entries then x.pointers.nHeight k else 1
  parent_eq_none := by
    intro k hk
    split_ifs at hk with hmem
    exact h.eq_root k hmem hk
  height_root := by rw [if_pos h.root_mem, h.root_height]
  height_parent := by
    intro k j hk
    by_cases hmem : k ∈ x.entries
    · rw [if_pos hmem] at hk
      obtain ⟨hj, hheight⟩ := h.pprev k hmem j hk
      rw [if_pos hmem, if_pos hj, hheight]
    · rw [if_neg hmem, Option.some.injEq] at hk
      rw [← hk, if_neg hmem, if_pos h.root_mem, h.root_height]

variable (h : Grown root x) {k : κ} (hk : k ∈ x.entries)

include hk

theorem height_tree : h.tree.height k = x.pointers.nHeight k := if_pos hk

theorem parent_tree : h.tree.parent k = x.pointers.pprev k := if_pos hk

theorem up_tree {n : Nat} :
    h.tree.up n k = x.pointers.walk n k ∧ ∀ a, x.pointers.walk n k = some a → a ∈ x.entries := by
  induction n generalizing k with
  | zero =>
    refine ⟨rfl, fun a ha => ?_⟩
    cases ha
    exact hk
  | succ n ih =>
    rw [Ancestry.up, h.parent_tree hk, BlockPointers.walk]
    cases hj : x.pointers.pprev k with
    | none => exact ⟨rfl, fun a ha => by cases ha⟩
    | some j => exact ih (h.pprev k hk j hj).1

theorem mem_of_isAncestor {a : κ} (ha : h.tree.IsAncestor a k) :
    a ∈ x.entries := by
  obtain ⟨n, hn⟩ := ha
  obtain ⟨hup, hmem⟩ := h.up_tree (n := n) hk
  exact hmem a (hup ▸ hn)

theorem ancestor_tree (height : Nat) :
    h.tree.ancestor k height = if height ≤ x.pointers.nHeight k then
      x.pointers.walk (x.pointers.nHeight k - height) k else none := by
  rw [Ancestry.ancestor, h.height_tree hk, (h.up_tree hk).1]

theorem linked : x.pointers.Linked h.tree id k where
  nHeight a ha := (h.height_tree (h.mem_of_isAncestor hk ha)).symm
  pprev a ha := by
    rw [h.parent_tree (h.mem_of_isAncestor hk ha), Option.map_id]
    rfl
  pskip a ha s hs := by
    have hmem := h.mem_of_isAncestor hk ha
    have hwalk := h.pskip a hmem s hs
    refine ⟨s, ?_, rfl⟩
    rw [h.ancestor_tree hmem, h.height_tree hmem, if_pos, hwalk]
    rcases Nat.eq_zero_or_pos (x.pointers.nHeight a) with hzero | hpos
    · rw [hzero]
      decide
    · exact (getSkipHeight_lt hpos).le

end Grown

section Growth

variable {root : κ} {x x' : EntryMap κ} {pindexNew pprev : κ}

omit [DecidableEq κ] in
theorem grown_genesis (root : κ) : Grown root (genesis root) where
  root_mem := mem_singleton_self root
  root_height := rfl
  eq_root k hk _ := mem_singleton.mp hk
  pprev k _ j hj := by cases hj
  pskip k _ s hs := by cases hs

omit [DecidableEq κ] in
theorem walk_congr {p p' : BlockPointers κ} {entries : List κ}
    (hpprev : ∀ k ∈ entries, p'.pprev k = p.pprev k)
    (hclosed : ∀ k ∈ entries, ∀ j, p.pprev k = some j → j ∈ entries) {n : Nat} {k : κ}
    (hk : k ∈ entries) : p'.walk n k = p.walk n k := by
  induction n generalizing k with
  | zero => rfl
  | succ n ih =>
    rw [BlockPointers.walk, BlockPointers.walk, hpprev k hk]
    cases hj : p.pprev k with
    | none => rfl
    | some j => exact ih (hclosed k hk j hj)

theorem Grown.link (h : Grown root x) (hnew : pindexNew ∉ x.entries) (hpprev : pprev ∈ x.entries) :
    Grown root (x.link pindexNew pprev) := by
  have hne : ∀ k ∈ x.entries, k ≠ pindexNew := fun k hk heq => hnew (heq ▸ hk)
  have hold : ∀ k ∈ x.entries, (x.link pindexNew pprev).pointers.pprev k = x.pointers.pprev k :=
    fun k hk => (x.pprev_link _ _ k).trans (if_neg (hne k hk))
  have hheight : ∀ k ∈ x.entries,
      (x.link pindexNew pprev).pointers.nHeight k = x.pointers.nHeight k :=
    fun k hk => (x.nHeight_link _ _ k).trans (if_neg (hne k hk))
  refine ⟨mem_cons_of_mem _ h.root_mem, (hheight root h.root_mem).trans h.root_height,
    fun k hk hnone => ?_, fun k hk j hj => ?_, fun k hk s hs => ?_⟩
  · rcases mem_cons.mp hk with rfl | hk
    · rw [pprev_link, if_pos rfl] at hnone
      cases hnone
    · exact h.eq_root k hk ((hold k hk).symm.trans hnone)
  · rcases mem_cons.mp hk with rfl | hk
    · rw [pprev_link, if_pos rfl] at hj
      cases hj
      rw [hheight pprev hpprev, nHeight_link, if_pos rfl]
      exact ⟨mem_cons_of_mem _ hpprev, rfl⟩
    · obtain ⟨hmem, heq⟩ := h.pprev k hk j ((hold k hk).symm.trans hj)
      rw [hheight k hk, hheight j hmem]
      exact ⟨mem_cons_of_mem _ hmem, heq⟩
  · rcases mem_cons.mp hk with rfl | hk
    · rw [pskip_link, if_pos rfl] at hs
      cases hs
    · rw [pskip_link, if_neg (hne k hk)] at hs
      rw [hheight k hk, walk_congr hold (fun i hi j hj => (h.pprev i hi j hj).1) hk]
      exact h.pskip k hk s hs

theorem Grown.setSkip {k s : κ} (h : Grown root x)
    (hskip : x.pointers.walk (x.pointers.nHeight k - getSkipHeight (x.pointers.nHeight k)) k =
      some s) : Grown root (x.setSkip k (some s)) := by
  have hwalk : ∀ n j, (x.setSkip k (some s)).pointers.walk n j = x.pointers.walk n j := by
    intro n
    induction n with
    | zero => exact fun j => rfl
    | succ n ih => exact fun j => congrArg (Option.bind (x.pointers.pprev j)) (funext ih)
  refine ⟨h.root_mem, h.root_height, h.eq_root, h.pprev, fun j hj i hi => ?_⟩
  rw [hwalk]
  rw [pskip_setSkip] at hi
  by_cases hjk : j = k
  · subst hjk
    rw [if_pos rfl] at hi
    exact hskip.trans hi
  · rw [if_neg hjk] at hi
    exact h.pskip j hj i hi

theorem Grown.addEntry (h : Grown root x) (hnew : pindexNew ∉ x.entries)
    (hpprev : pprev ∈ x.entries) :
    ∃ x', x.addEntry pindexNew pprev = .ok x' ∧ Grown root x' ∧
      x'.entries = pindexNew :: x.entries := by
  have hlink := h.link hnew hpprev
  have hmem : pindexNew ∈ (x.link pindexNew pprev).entries := mem_cons_self
  have hpmem : pprev ∈ (x.link pindexNew pprev).entries := mem_cons_of_mem _ hpprev
  have hself : (x.link pindexNew pprev).pointers.pprev pindexNew = some pprev :=
    (x.pprev_link _ _ pindexNew).trans (if_pos rfl)
  have hparent := (hlink.parent_tree hmem).trans hself
  have hbuild : (x.link pindexNew pprev).pointers.buildSkip pindexNew = _ :=
    (hlink.linked hpmem).buildSkip hparent hself (hlink.height_tree hmem).symm
  have hup := hlink.tree.height_parent hparent
  obtain ⟨s, hs, hheight⟩ := exists_ancestor (t := hlink.tree) (i := pindexNew)
    (getSkipHeight_lt (show 0 < hlink.tree.height pindexNew by omega)).le
  have hanc := ancestor_eq_some.mpr ⟨hs, hheight⟩
  rw [hanc] at hbuild
  refine ⟨(x.link pindexNew pprev).setSkip pindexNew (some s), ?_, hlink.setSkip ?_, rfl⟩
  · simp only [EntryMap.addEntry, hbuild]
    rfl
  · have hwalk := hlink.ancestor_tree hmem (getSkipHeight (hlink.tree.height pindexNew))
    rw [hanc, hlink.height_tree hmem, if_pos] at hwalk
    · exact hwalk.symm
    · rw [← hlink.height_tree hmem]
      exact (getSkipHeight_lt (by omega)).le

theorem Built.exists_grown (h : Built x) : ∃ root, Grown root x := by
  induction h with
  | genesis root => exact ⟨root, grown_genesis root⟩
  | add hx hnew hpprev hadd ih =>
    obtain ⟨root, hgrown⟩ := ih
    obtain ⟨x', hx', hgrown', -⟩ := hgrown.addEntry hnew hpprev
    cases hx'.symm.trans hadd
    exact ⟨root, hgrown'⟩

theorem Built.exists_add (h : Built x) (pindexNew pprev : κ) (hnew : pindexNew ∉ x.entries)
    (hpprev : pprev ∈ x.entries) :
    ∃ x', Built x' ∧ x.addEntry pindexNew pprev = .ok x' ∧ x'.entries = pindexNew :: x.entries := by
  obtain ⟨root, hgrown⟩ := h.exists_grown
  obtain ⟨x', hx', -, hentries⟩ := hgrown.addEntry hnew hpprev
  exact ⟨x', h.add hnew hpprev hx', hx', hentries⟩

/-- Adds entries one after the other, each with its predecessor. -/
def grow (x : EntryMap κ) : List (κ × κ) → Except Failure (EntryMap κ)
  | [] => .ok x
  | (pindexNew, pprev) :: pairs => do
    let x ← x.addEntry pindexNew pprev
    x.grow pairs

def addable (entries : List κ) : List (κ × κ) → Bool
  | [] => true
  | (pindexNew, pprev) :: pairs =>
    decide (pindexNew ∉ entries ∧ pprev ∈ entries) && addable (pindexNew :: entries) pairs

theorem Built.exists_grow (h : Built x) {pairs : List (κ × κ)}
    (hpairs : addable x.entries pairs = true) :
    ∃ x', x.grow pairs = .ok x' ∧ Built x' := by
  induction pairs generalizing x with
  | nil => exact ⟨x, rfl, h⟩
  | cons pair pairs ih =>
    rw [addable, Bool.and_eq_true, decide_eq_true_eq] at hpairs
    obtain ⟨⟨hnew, hpprev⟩, hrest⟩ := hpairs
    obtain ⟨x₁, hx₁, hadd, hentries⟩ := h.exists_add pair.1 pair.2 hnew hpprev
    obtain ⟨x', hgrow, hx'⟩ := ih hx₁ (hentries ▸ hrest)
    refine ⟨x', ?_, hx'⟩
    simp only [grow, hadd]
    exact hgrow

/-- A chain of the blocks 0 to 16, a branch of 17 and 18 on block 12, and block 19 on 8. -/
def forked : List (Nat × Nat) :=
  (List.range' 1 16).map (fun k => (k, k - 1)) ++ [(17, 12), (18, 17), (19, 8)]

theorem exists_built_fork : ∃ x : EntryMap Nat, (genesis 0).grow forked = .ok x ∧ Built x :=
  (Built.genesis 0).exists_grow (by decide)

end Growth

section Lookup

variable {x : EntryMap κ}

theorem Grown.getAncestor {root k : κ} (h : Grown root x) (hk : k ∈ x.entries) (height : Int) :
    x.pointers.getAncestor k height =
      .ok (if 0 ≤ height then h.tree.ancestor k height.toNat else none) := by
  have hfound := (h.linked hk).getAncestor height
  rw [Option.map_id] at hfound
  exact hfound

/-- `GetAncestor` finds what following `pprev` finds; its loop is left, and its assertion
holds. -/
theorem getAncestor_eq_walk (h : Built x) {b : κ} (hb : b ∈ x.entries) (height : Int) :
    ((height < 0 ∨ x.pointers.nHeight b < height) →
      x.pointers.getAncestor b height = .ok none) ∧
    (0 ≤ height → height ≤ x.pointers.nHeight b → ∃ a ∈ x.entries,
      x.pointers.walk (x.pointers.nHeight b - height).toNat b = some a ∧
      whileLoop (x.pointers.getAncestorPass height.toNat) (x.pointers.nHeight b + 1)
        (b, x.pointers.nHeight b) = some (.ok a) ∧
      x.pointers.getAncestor b height = .ok (some a)) := by
  obtain ⟨root, hgrown⟩ := h.exists_grown
  refine ⟨fun hout => ?_, fun hlow hhigh => ?_⟩
  · unfold BlockPointers.getAncestor
    exact if_pos hout.symm
  · have hle : height.toNat ≤ x.pointers.nHeight b := by omega
    obtain ⟨a, ha, hheight⟩ := exists_ancestor (t := hgrown.tree) (i := b)
      (hle.trans_eq (hgrown.height_tree hb).symm)
    have hanc := ancestor_eq_some.mpr ⟨ha, hheight⟩
    have hwalk := hgrown.ancestor_tree hb height.toNat
    rw [hanc, if_pos hle] at hwalk
    have hloop := (hgrown.linked hb).getAncestorLoop ha (hgrown.height_tree hb).le
    rw [hgrown.height_tree hb, hheight] at hloop
    refine ⟨a, hgrown.mem_of_isAncestor hb ha, ?_, ?_, ?_⟩
    · rw [show (x.pointers.nHeight b - height).toNat = x.pointers.nHeight b - height.toNat by omega]
      exact hwalk.symm
    · rw [BlockPointers.whileLoop_getAncestorPass _ _ _ le_rfl]
      exact congrArg some hloop
    · rw [hgrown.getAncestor hb, if_pos hlow, hanc]

/-- The skip pointers of the blocks 16 and 12 go back by 16 and by 4 blocks. -/
theorem getAncestor_eq_walk_fork :
    ∃ x : EntryMap Nat, Built x ∧ (x.pointers.pskip 16 = some 0 ∧ x.pointers.pskip 12 = some 8) ∧
      x.pointers.getAncestor 16 17 = .ok none ∧ x.pointers.walk 13 16 = some 3 ∧
      x.pointers.getAncestor 16 3 = .ok (some 3) := by
  obtain ⟨x, hgrow, hx⟩ := exists_built_fork
  have hfacts : ((genesis 0).grow forked).toOption.map (fun x => (decide (16 ∈ x.entries),
      x.pointers.pskip 16, x.pointers.pskip 12, x.pointers.nHeight 16, x.pointers.walk 13 16)) =
        some (true, some 0, some 8, 16, some 3) := by decide +kernel
  rw [hgrow] at hfacts
  replace hfacts := Option.some.inj hfacts
  simp only [Prod.mk.injEq, decide_eq_true_eq] at hfacts
  obtain ⟨hmem, hskip, hskip', hheight, hwalk⟩ := hfacts
  obtain ⟨a, -, hwalk', -, hfound⟩ :=
    (getAncestor_eq_walk hx hmem 3).2 (by decide) (by rw [hheight]; decide)
  rw [hheight] at hwalk'
  cases hwalk.symm.trans hwalk'
  exact ⟨x, hx, ⟨hskip, hskip'⟩, (getAncestor_eq_walk hx hmem 17).1 (by rw [hheight]; decide),
    hwalk, hfound⟩

end Lookup

section Rollback

variable {x : EntryMap κ} {root a b : κ}

section

variable (h : Grown root x) (ha : a ∈ x.entries) (hb : b ∈ x.entries)

include h ha hb

theorem Grown.whileLoop_meetPass {n : Nat} (hheightA : x.pointers.nHeight a = n)
    (hheightB : x.pointers.nHeight b = n) :
    ∃ f, whileLoop x.pointers.meetPass (n + 1) (some a, some b) = some (.ok (some f)) ∧
      h.tree.meet n a b = some f := by
  induction n generalizing a b with
  | zero =>
    have hta := (h.height_tree ha).trans hheightA
    have htb := (h.height_tree hb).trans hheightB
    obtain rfl : a = b :=
      (eq_root_of_height hta).trans (eq_root_of_height htb).symm
    exact ⟨a, by simp [whileLoop, BlockPointers.meetPass], by simp [Ancestry.meet]⟩
  | succ n ih =>
    by_cases hab : a = b
    · subst hab
      exact ⟨a, by simp [whileLoop, BlockPointers.meetPass], by simp [Ancestry.meet]⟩
    · have hta := (h.height_tree ha).trans hheightA
      have htb := (h.height_tree hb).trans hheightB
      obtain ⟨a', ha'⟩ := exists_parent (t := h.tree) (i := a) (by omega)
      obtain ⟨b', hb'⟩ := exists_parent (t := h.tree) (i := b) (by omega)
      have hpa := (h.parent_tree ha).symm.trans ha'
      have hpb := (h.parent_tree hb).symm.trans hb'
      obtain ⟨hmemA, hupA⟩ := h.pprev a ha a' hpa
      obtain ⟨hmemB, hupB⟩ := h.pprev b hb b' hpb
      obtain ⟨f, hloop, hmeet⟩ := ih hmemA hmemB (by omega) (by omega)
      refine ⟨f, ?_, by simp [Ancestry.meet, hab, ha', hb', hmeet]⟩
      rw [whileLoop, BlockPointers.meetPass, if_pos ⟨by simpa using hab, rfl, rfl⟩]
      simpa [hpa, hpb] using hloop

omit hb in
theorem Grown.level (b : κ) :
    ∃ a' ∈ x.entries, h.tree.IsAncestor a' a ∧
      x.pointers.nHeight a' = min (x.pointers.nHeight a) (x.pointers.nHeight b) ∧
      x.pointers.level a b = .ok (some a') := by
  unfold BlockPointers.level
  by_cases hlt : x.pointers.nHeight b < x.pointers.nHeight a
  · obtain ⟨a', ha', hheight⟩ := exists_ancestor (t := h.tree) (i := a)
      (hlt.le.trans_eq (h.height_tree ha).symm)
    have hmem := h.mem_of_isAncestor ha ha'
    refine ⟨a', hmem, ha', ?_, ?_⟩
    · rw [← h.height_tree hmem, hheight, Nat.min_eq_right hlt.le]
    · rw [if_pos hlt, h.getAncestor ha, if_pos (by omega), Int.toNat_natCast,
        ancestor_eq_some.mpr ⟨ha', hheight⟩]
  · exact ⟨a, ha, .refl a, (Nat.min_eq_left (by omega)).symm, if_neg hlt⟩

theorem Grown.lastCommonAncestor :
    ∃ f ∈ x.entries, x.pointers.lastCommonAncestor a b = .ok (some f) ∧
      h.tree.IsLastCommon f a b := by
  obtain ⟨a', hmemA, hancA, hheightA, hlevelA⟩ := h.level ha b
  obtain ⟨b', hmemB, hancB, hheightB, hlevelB⟩ := h.level hb a
  rw [Nat.min_comm] at hheightB
  obtain ⟨f, hloop, hmeet⟩ := h.whileLoop_meetPass hmemA hmemB hheightA hheightB
  obtain ⟨f', hmeet', hlast⟩ := exists_meet (t := h.tree)
    ((h.height_tree hmemA).trans hheightA) ((h.height_tree hmemB).trans hheightB)
  cases hmeet.symm.trans hmeet'
  refine ⟨f, h.mem_of_isAncestor hmemA hlast.left, ?_, hlast.left.trans hancA,
    hlast.right.trans hancB, fun {c} hca hcb => ?_⟩
  · have hfuel : whileLoop x.pointers.meetPass (x.pointers.nHeight a + 1) (some a', some b') =
        some (.ok (some f)) := whileLoop_mono hloop (by omega)
    simp only [BlockPointers.lastCommonAncestor, hlevelA, hlevelB, bind, Except.bind, hfuel]
  · have hleft := hca.height_le
    have hright := hcb.height_le
    have htA := (h.height_tree hmemA).trans hheightA
    have htB := (h.height_tree hmemB).trans hheightB
    rw [← h.height_tree ha, ← h.height_tree hb] at htA htB
    exact hlast.last (hca.of_height_le hancA (by omega)) (hcb.of_height_le hancB (by omega))

theorem Grown.isAutomaticReorgAllowed :
    x.pointers.isAutomaticReorgAllowed (some a) (some b) =
      .ok (h.tree.ancestor b (x.pointers.nHeight a - MAX_AUTOMATIC_REORG_DEPTH) ==
        h.tree.ancestor a (x.pointers.nHeight a - MAX_AUTOMATIC_REORG_DEPTH)) := by
  have hnat : max 0 ((x.pointers.nHeight a : Int) - MAX_AUTOMATIC_REORG_DEPTH) =
      ((x.pointers.nHeight a - MAX_AUTOMATIC_REORG_DEPTH : Nat) : Int) := by omega
  simp only [BlockPointers.isAutomaticReorgAllowed, hnat, h.getAncestor hb, h.getAncestor ha,
    if_pos (Int.natCast_nonneg _), Int.toNat_natCast]
  rfl

end

theorem isAutomaticReorgAllowed_iff_depth (h : Built x) {tip candidate : κ}
    (htip : tip ∈ x.entries) (hcandidate : candidate ∈ x.entries) :
    ∃ fork allowed, x.pointers.lastCommonAncestor tip candidate = .ok (some fork) ∧
      x.pointers.isAutomaticReorgAllowed (some tip) (some candidate) = .ok allowed ∧
      (allowed = true ↔
        (x.pointers.nHeight tip : Int) - x.pointers.nHeight fork ≤ MAX_AUTOMATIC_REORG_DEPTH) := by
  obtain ⟨root, hgrown⟩ := h.exists_grown
  obtain ⟨fork, hfork, hlast, hcommon⟩ := hgrown.lastCommonAncestor htip hcandidate
  refine ⟨fork, _, hlast, hgrown.isAutomaticReorgAllowed htip hcandidate, ?_⟩
  have hle : x.pointers.nHeight tip - MAX_AUTOMATIC_REORG_DEPTH ≤ hgrown.tree.height tip := by
    rw [hgrown.height_tree htip]
    exact Nat.sub_le _ _
  rw [beq_iff_eq, hcommon.ancestor_eq_iff hle, hgrown.height_tree hfork]
  omega

/-- A branch that leaves the chain 4 blocks below the tip is allowed, one that leaves it 8
blocks below is not. -/
theorem isAutomaticReorgAllowed_iff_depth_fork :
    ∃ x : EntryMap Nat, Built x ∧ (x.pointers.lastCommonAncestor 16 18 = .ok (some 12) ∧
        x.pointers.isAutomaticReorgAllowed (some 16) (some 18) = .ok true) ∧
      x.pointers.lastCommonAncestor 16 19 = .ok (some 8) ∧
        x.pointers.isAutomaticReorgAllowed (some 16) (some 19) = .ok false := by
  obtain ⟨x, hgrow, hx⟩ := exists_built_fork
  have hfacts : ((genesis 0).grow forked).toOption.map (fun x =>
      (decide (16 ∈ x.entries ∧ 18 ∈ x.entries ∧ 19 ∈ x.entries),
        (x.pointers.nHeight 16, x.pointers.nHeight 12, x.pointers.nHeight 8),
        (x.pointers.lastCommonAncestor 16 18).toOption,
        (x.pointers.lastCommonAncestor 16 19).toOption)) =
          some (true, (16, 12, 8), some (some 12), some (some 8)) := by decide +kernel
  rw [hgrow] at hfacts
  replace hfacts := Option.some.inj hfacts
  simp only [Prod.mk.injEq, decide_eq_true_eq] at hfacts
  obtain ⟨⟨htip, hnear, hfar⟩, ⟨hheight, hheight12, hheight8⟩, hfork, hfork'⟩ := hfacts
  obtain ⟨fork, allowed, hlast, hallowed, hiff⟩ := isAutomaticReorgAllowed_iff_depth hx htip hnear
  obtain ⟨fork', allowed', hlast', hallowed', hiff'⟩ :=
    isAutomaticReorgAllowed_iff_depth hx htip hfar
  rw [hlast] at hfork
  rw [hlast'] at hfork'
  cases hfork
  cases hfork'
  rw [hheight, hheight12] at hiff
  rw [hheight, hheight8] at hiff'
  have htrue : allowed = true := hiff.mpr (by decide)
  have hfalse : allowed' = false := Bool.eq_false_iff.mpr fun h => absurd (hiff'.mp h) (by decide)
  exact ⟨x, hx, ⟨hlast, htrue ▸ hallowed⟩, hlast', hfalse ▸ hallowed'⟩

end Rollback

end EntryMap

end Verge
