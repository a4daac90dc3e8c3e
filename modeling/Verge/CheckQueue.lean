import Verge.Foundation.Threads
import Mathlib.Data.Fintype.Option
import Mathlib.Algebra.BigOperators.Option
import Mathlib.Tactic.Tauto

/-!
# The queue of script checks

`checkqueue.h`: `CCheckQueue` with its workers and one master.  A thread moves
by critical sections of the mutex and by the checks it runs between them; a
thread inside `cond.wait` may continue at any time, notified or not.  The
members behind the mutex are kept with their width where it shows: `nTodo` and
the batch sizes are `unsigned int`.
-/

namespace Verge

open Foundation List

variable {T ω : Type}

/-- The conversion of an `int` or a `size_t` to `unsigned int`. -/
def toUnsigned (n : Int) : Nat := (n % 2 ^ 32).toNat

theorem toUnsigned_of_lt {n : Nat} (h : n < 2 ^ 32) : toUnsigned n = n := by
  unfold toUnsigned
  omega

/-! ## The queue -/

/-- The members of `CCheckQueue`; `queue` is listed from its back, which is the
end that is pushed and popped. -/
structure CCheckQueue (T : Type) where
  queue : List T
  nIdle : Int
  nTotal : Int
  fAllOk : Bool
  nTodo : Nat
  nBatchSize : Nat

/-- Where a thread is in `Loop`.  The master is `outside` between two calls of `Wait`; a
`working` thread holds `nNow` checks, of which `vChecks` have not run yet. -/
inductive LoopState (T : Type) where
  | outside
  | entering
  | waiting (notified : Bool)
  | working (vChecks : List T) (nNow : Nat) (fOk : Bool)

namespace LoopState

def held : LoopState T → Nat
  | .working _ nNow _ => nNow
  | _ => 0

def ready : LoopState T → Bool
  | .outside => false
  | .working (_ :: _) _ _ => false
  | _ => true

def notify : LoopState T → LoopState T
  | .waiting _ => .waiting true
  | t => t

end LoopState

namespace CCheckQueue

def create (nBatchSizeIn : Nat) : CCheckQueue T := ⟨[], 0, 0, true, 0, nBatchSizeIn⟩

def add (q : CCheckQueue T) (vChecks : List T) : CCheckQueue T :=
  { q with
    queue := vChecks.reverse ++ q.queue
    nTodo := toUnsigned (q.nTodo + vChecks.length) }

/-- What a thread does first when it has the mutex: the first count, the end of `cond.wait`,
or the previous loop run.  The flag says whether `condMaster` is notified. -/
def cleanUp (q : CCheckQueue T) (fMaster : Bool) : LoopState T → CCheckQueue T × Bool
  | .working _ nNow fOk =>
    let nTodo := toUnsigned (q.nTodo - nNow)
    ({ q with fAllOk := q.fAllOk && fOk, nTodo }, decide (nTodo = 0) && !fMaster)
  | .waiting _ => ({ q with nIdle := q.nIdle - 1 }, false)
  | _ => ({ q with nTotal := q.nTotal + 1 }, false)

def nNow (q : CCheckQueue T) : Nat :=
  max 1 (min q.nBatchSize
    (toUnsigned q.queue.length / toUnsigned (q.nTotal + q.nIdle + 1)))

def dispatch (q : CCheckQueue T) (fMaster : Bool) :
    CCheckQueue T × LoopState T × Option Bool :=
  match q.queue with
  | [] =>
    if fMaster && decide (q.nTodo = 0) then
      ({ q with nTotal := q.nTotal - 1, fAllOk := true }, .outside, some q.fAllOk)
    else ({ q with nIdle := q.nIdle + 1 }, .waiting false, none)
  | _ :: _ =>
    ({ q with queue := q.queue.drop q.nNow },
      .working (q.queue.take q.nNow) q.nNow q.fAllOk, none)

theorem cleanUp_queue (q : CCheckQueue T) (fMaster : Bool) (t : LoopState T) :
    (q.cleanUp fMaster t).1.queue = q.queue := by
  cases t <;> rfl

theorem dispatch_ne_outside {q : CCheckQueue T} {fMaster : Bool}
    (h : (q.dispatch fMaster).2.2 = none) : (q.dispatch fMaster).2.1 ≠ .outside := by
  unfold dispatch at h ⊢
  split
  case h_1 hempty =>
      simp only [hempty] at h
      split at h
      case isTrue => simp at h
      case isFalse hwait => simp [hwait]
  case h_2 => simp

theorem one_le_nNow (q : CCheckQueue T) : 1 ≤ q.nNow := le_max_left _ _

theorem nNow_le {q : CCheckQueue T} (h : q.queue ≠ []) : q.nNow ≤ q.queue.length := by
  have hpos : 1 ≤ q.queue.length := length_pos_iff.mpr h
  have hunsigned : toUnsigned q.queue.length ≤ q.queue.length := by
    unfold toUnsigned
    omega
  exact max_le hpos ((min_le_right _ _).trans ((Nat.div_le_self _ _).trans hunsigned))

end CCheckQueue

/-! ## The threads -/

/-- The queue, the threads and the checks added since `Wait` returned last.
The master is thread `none`, the workers are the others. -/
structure QueueState (T ω : Type) where
  q : CCheckQueue T
  threads : Option ω → LoopState T
  session : List T

inductive QueueEvent (T ω : Type) where
  | add (vChecks : List T)
  | wait
  | enter (i : Option ω)
  | check (i : Option ω)
  | returned (fRet : Bool)

namespace QueueState

variable [DecidableEq ω]

def started : Option ω → LoopState T
  | none => .outside
  | some _ => .entering

def init (nBatchSize : Nat) : QueueState T ω := ⟨.create nBatchSize, started, []⟩

/-- `condWorker.notify_one()`: one of the workers that wait and are not notified
yet, if there is one. -/
def NotifyOne (threads threads' : Option ω → LoopState T) : Prop :=
  (∃ w, threads (some w) = .waiting false ∧
      threads' = Function.update threads (some w) (.waiting true)) ∨
    (∀ w, threads (some w) ≠ .waiting false) ∧ threads' = threads

def notifyAll (threads : Option ω → LoopState T) : Option ω → LoopState T
  | none => threads none
  | some w => (threads (some w)).notify

/-- `condMaster.notify_one()`; only the master waits there. -/
def notifyMaster (threads : Option ω → LoopState T) : Option ω → LoopState T
  | none => (threads none).notify
  | some w => threads (some w)

def NotifyWorkers (threads threads' : Option ω → LoopState T) : Nat → Prop
  | 0 => threads' = threads
  | 1 => NotifyOne threads threads'
  | _ => threads' = notifyAll threads

/-- One critical section of `Loop` by thread `i`, with the value it returns. -/
def enter (s : QueueState T ω) (i : Option ω) : QueueState T ω × Option Bool :=
  let cleaned := s.q.cleanUp i.isNone (s.threads i)
  let threads := if cleaned.2 then notifyMaster s.threads else s.threads
  let next := cleaned.1.dispatch i.isNone
  (⟨next.1, Function.update threads i next.2.1,
    if next.2.2.isSome then [] else s.session⟩, next.2.2)

/-- The steps of the threads.  A control session is a number of `add` steps of
the master, a `wait` step and the steps up to `returned`. -/
inductive Step (check : T → Bool) : QueueState T ω → QueueEvent T ω → QueueState T ω → Prop
  | add {s : QueueState T ω} {threads : Option ω → LoopState T} (vChecks : List T)
      (hmaster : s.threads none = .outside)
      (hnotify : NotifyWorkers s.threads threads vChecks.length) :
      Step check s (.add vChecks) ⟨s.q.add vChecks, threads, s.session ++ vChecks⟩
  | wait {s : QueueState T ω} (hmaster : s.threads none = .outside) :
      Step check s .wait { s with threads := Function.update s.threads none .entering }
  | enter {s : QueueState T ω} (i : Option ω) (hready : (s.threads i).ready = true)
      (hnone : (s.enter i).2 = none) : Step check s (.enter i) (s.enter i).1
  | returned {s : QueueState T ω} {i : Option ω} {fRet : Bool}
      (hready : (s.threads i).ready = true) (hret : (s.enter i).2 = some fRet) :
      Step check s (.returned fRet) (s.enter i).1
  | check {s : QueueState T ω} (i : Option ω) {c : T} {cs : List T} {nNow : Nat} {fOk : Bool}
      (hworking : s.threads i = .working (c :: cs) nNow fOk) :
      Step check s (.check i)
        { s with
          threads := Function.update s.threads i
            (.working cs nNow (if fOk then check c else fOk)) }

def pending [Fintype ω] (s : QueueState T ω) : Nat :=
  s.q.queue.length + threadTotal LoopState.held s.threads

/-! ## What holds of the threads together -/

end QueueState

def LoopState.Passing (check : T → Bool) : LoopState T → Prop
  | .working vChecks _ fOk => fOk = true ∧ ∀ c ∈ vChecks, check c = true
  | _ => True

def LoopState.work : LoopState T → Nat
  | .working vChecks _ _ => vChecks.length + 1
  | _ => 0

@[simp] theorem LoopState.work_waiting (b : Bool) :
    (waiting b : LoopState T).work = 0 := rfl

@[simp] theorem LoopState.work_working (cs : List T) (n : Nat) (ok : Bool) :
    (working cs n ok).work = cs.length + 1 := rfl

def LoopState.Woken (t t' : LoopState T) : Prop :=
  t' = t ∨ ∃ b, t = .waiting b ∧ t' = .waiting true

namespace LoopState

theorem woken_notify (t : LoopState T) : t.Woken t.notify := by
  cases t with
  | waiting b => exact .inr ⟨b, rfl, rfl⟩
  | _ => exact .inl rfl

variable {t t' : LoopState T} (h : t.Woken t')

include h

theorem Woken.held : t'.held = t.held := by
  rcases h with rfl | ⟨b, rfl, rfl⟩ <;> rfl

theorem Woken.passing_iff {check : T → Bool} : t'.Passing check ↔ t.Passing check := by
  rcases h with rfl | ⟨b, rfl, rfl⟩ <;> simp [Passing]

theorem Woken.eq_of_working {cs : List T} {n : Nat} {ok : Bool} (hw : t' = .working cs n ok) :
    t = .working cs n ok := by
  rcases h with rfl | ⟨b, rfl, rfl⟩
  · exact hw
  · simp at hw

theorem Woken.eq_of_outside (hw : t' = .outside) : t = .outside := by
  rcases h with rfl | ⟨b, rfl, rfl⟩
  · exact hw
  · simp at hw

theorem Woken.ne_waiting (hne : t ≠ .waiting false) : t' ≠ .waiting false := by
  rcases h with rfl | ⟨b, rfl, rfl⟩
  · exact hne
  · simp

end LoopState

open LoopState

variable [Fintype ω]

/-- The invariant of the queue and its threads during a session. -/
structure QueueSound (check : T → Bool) (q : CCheckQueue T) (threads : Option ω → LoopState T)
    (session : List T) : Prop where
  todo : q.nTodo = q.queue.length + threadTotal LoopState.held threads
  pending_le : q.nTodo ≤ session.length
  held_pos : ∀ {i cs n ok}, threads i = .working cs n ok → 1 ≤ n
  result : (∀ c ∈ session, check c = true) ↔
    q.fAllOk = true ∧ (∀ c ∈ q.queue, check c = true) ∧ ∀ i, (threads i).Passing check
  worker : ∀ w, threads (some w) ≠ .outside
  master : ∀ {b}, threads none = .waiting b → q.queue = []
  master_todo : threads none = .waiting false → q.nTodo ≠ 0
  awake : ω → q.queue ≠ [] → ∃ w, threads (some w) ≠ .waiting false

namespace QueueSound

variable {check : T → Bool} {q : CCheckQueue T} {threads threads' : Option ω → LoopState T}
  {session : List T} {i : Option ω}

theorem init (nBatchSize : Nat) :
    QueueSound check (.create nBatchSize) (QueueState.started : Option ω → LoopState T) [] where
  todo := by
    have hzero : ∀ i : Option ω, (QueueState.started i : LoopState T).held = 0 := by
      intro i
      cases i <;> rfl
    simp [CCheckQueue.create, threadTotal, hzero]
  pending_le := le_rfl
  held_pos {i} := by cases i <;> simp [QueueState.started]
  result := by
    have hpass : ∀ i : Option ω, (QueueState.started i : LoopState T).Passing check := by
      intro i
      cases i <;> trivial
    simp [CCheckQueue.create, hpass]
  worker w := by simp [QueueState.started]
  master := by simp [QueueState.started]
  master_todo := by simp [QueueState.started]
  awake _ h := absurd rfl h

variable (h : QueueSound check q threads session)

include h

theorem congr {q' : CCheckQueue T} (hqueue : q'.queue = q.queue) (htodo : q'.nTodo = q.nTodo)
    (hok : q'.fAllOk = q.fAllOk) :
    QueueSound check q' threads session where
  todo := by rw [hqueue, htodo, h.todo]
  pending_le := by rw [htodo]; exact h.pending_le
  held_pos := h.held_pos
  result := by rw [hqueue, hok]; exact h.result
  worker := h.worker
  master hb := by rw [hqueue]; exact h.master hb
  master_todo hb := by rw [htodo]; exact h.master_todo hb
  awake w := by rw [hqueue]; exact h.awake w

theorem woken (hw : ∀ i, (threads i).Woken (threads' i)) : QueueSound check q threads' session where
  todo := by rw [threadTotal_congr fun i => (hw i).held, h.todo]
  pending_le := h.pending_le
  held_pos {i cs n ok} hi := h.held_pos ((hw i).eq_of_working hi)
  result := by
    rw [h.result]
    simp only [(hw _).passing_iff]
  worker w hout := h.worker w ((hw _).eq_of_outside hout)
  master {b} hb := by
    rcases hw none with heq | ⟨b', heq, -⟩
    · exact h.master (heq ▸ hb)
    · exact h.master heq
  master_todo hb := by
    rcases hw none with heq | ⟨b', -, heq⟩
    · exact h.master_todo (heq ▸ hb)
    · rw [heq] at hb
      simp at hb
  awake w hne := by
    obtain ⟨w', hw'⟩ := h.awake w hne
    exact ⟨w', (hw _).ne_waiting hw'⟩

theorem add {vChecks : List T} (hmaster : threads none = .outside)
    (hlen : session.length + vChecks.length < 2 ^ 32) (hw : ∀ i, (threads i).Woken (threads' i))
    (hwake : ω → vChecks ≠ [] → ∃ w, threads' (some w) ≠ .waiting false) :
    QueueSound check (q.add vChecks) threads' (session ++ vChecks) := by
  have h' := h.woken hw
  have hle := h.pending_le
  have htodo : (q.add vChecks).nTodo = q.nTodo + vChecks.length :=
    toUnsigned_of_lt (n := q.nTodo + vChecks.length) (by omega)
  have hout : threads' none = .outside := by
    rcases hw none with heq | ⟨b, heq, -⟩
    · rw [heq, hmaster]
    · simp [heq] at hmaster
  constructor
  case todo =>
    rw [htodo, h'.todo]
    simp only [CCheckQueue.add, length_append, length_reverse]
    omega
  case pending_le =>
    rw [htodo, length_append]
    omega
  case held_pos => exact h'.held_pos
  case result =>
    simp only [CCheckQueue.add, mem_append, mem_reverse, or_imp, forall_and, h'.result]
    tauto
  case worker => exact h'.worker
  case master =>
    intro b hb
    simp [hout] at hb
  case master_todo =>
    intro hb
    simp [hout] at hb
  case awake =>
    intro w hne
    by_cases hnil : vChecks = []
    · subst hnil
      exact h'.awake w hne
    · exact hwake w hnil

variable [DecidableEq ω]

omit h in
omit [Fintype ω] [DecidableEq ω] in
theorem forall_split {P : LoopState T → Prop} (i : Option ω) :
    (∀ j, P (threads j)) ↔ P (threads i) ∧ ∀ j, j ≠ i → P (threads j) := by
  constructor
  · exact fun h => ⟨h i, fun j _ => h j⟩
  · rintro ⟨hi, h⟩ j
    by_cases hj : j = i
    · rwa [hj]
    · exact h j hj

omit h in
omit [Fintype ω] in
theorem forall_update {P : LoopState T → Prop} (t : LoopState T) :
    (∀ j, P (Function.update threads i t j)) ↔ P t ∧ ∀ j, j ≠ i → P (threads j) :=
  Function.forall_update_iff threads fun _ t => P t

/-- One thread moves and the queue changes with it; the hypotheses are what the other
threads rely on. -/
theorem move {q' : CCheckQueue T} {t : LoopState T}
    (htodo : q'.nTodo + q.queue.length + (threads i).held =
      q.nTodo + q'.queue.length + t.held) (hle : q'.nTodo ≤ q.nTodo)
    (hpos : ∀ cs n ok, t = .working cs n ok → 1 ≤ n)
    (hresult : (q.fAllOk = true ∧ (∀ c ∈ q.queue, check c = true) ∧ (threads i).Passing check) ↔
      (q'.fAllOk = true ∧ (∀ c ∈ q'.queue, check c = true) ∧ t.Passing check)) (hout : t ≠ .outside)
    (hqueue : q.queue = [] → q'.queue = []) (hwait : ∀ b, t = .waiting b → q'.queue = [])
    (hmaster : (if i = none then t else threads none) = .waiting false → q'.nTodo ≠ 0) :
    QueueSound check q' (Function.update threads i t) session := by
  have hread : ∀ j, Function.update threads i t j = if j = i then t else threads j := by
    intro j
    by_cases hji : j = i
    · subst hji
      simp
    · simp [hji]
  constructor
  case todo =>
    have htotal := threadTotal_update held threads i t
    have := h.todo
    omega
  case pending_le => exact hle.trans h.pending_le
  case held_pos =>
    intro j cs n ok hj
    rw [hread] at hj
    split at hj
    · exact hpos cs n ok hj
    · exact h.held_pos hj
  case result =>
    have hothers : (∀ j, (threads j).Passing check) ↔
        (threads i).Passing check ∧ ∀ j, j ≠ i → (threads j).Passing check := forall_split i
    rw [h.result, forall_update, hothers]
    constructor
    · rintro ⟨hok, hchecks, hthread, hrest⟩
      obtain ⟨hok', hchecks', ht⟩ := hresult.mp ⟨hok, hchecks, hthread⟩
      exact ⟨hok', hchecks', ht, hrest⟩
    · rintro ⟨hok', hchecks', ht, hrest⟩
      obtain ⟨hok, hchecks, hthread⟩ := hresult.mpr ⟨hok', hchecks', ht⟩
      exact ⟨hok, hchecks, hthread, hrest⟩
  case worker =>
    intro w hw
    rw [hread] at hw
    split at hw
    · exact hout hw
    · exact h.worker w hw
  case master =>
    intro b hb
    rw [hread] at hb
    split at hb
    · exact hwait b hb
    · exact hqueue (h.master hb)
  case master_todo =>
    intro hb
    rw [hread] at hb
    refine hmaster ?_
    by_cases hi : i = none
    · simpa [hi] using hb
    · simpa [hi, Ne.symm hi] using hb
  case awake =>
    intro w hne
    obtain ⟨w', hw'⟩ := h.awake w fun hnil => hne (hqueue hnil)
    refine ⟨w', fun hb => ?_⟩
    rw [hread] at hb
    split at hb
    · exact hne (hwait false hb)
    · exact hw' hb

theorem toEntering (hheld : (threads i).held = 0) (hpass : (threads i).Passing check) :
    QueueSound check q (Function.update threads i .entering) session := by
  refine h.move ?_ le_rfl (by simp) ?_ (by simp) id (by simp) ?_
  · rw [hheld]
    rfl
  · have hentering : (LoopState.entering : LoopState T).Passing check := trivial
    simp [hpass, hentering]
  · intro hb
    split at hb
    · simp at hb
    · exact h.master_todo hb

theorem runCheck {c : T} {cs : List T} {n : Nat} {ok : Bool}
    (hi : threads i = .working (c :: cs) n ok) :
    QueueSound check q
      (Function.update threads i (.working cs n (if ok then check c else ok))) session := by
  refine h.move ?_ le_rfl ?_ ?_ (by simp) id (by simp) ?_
  · rw [hi]
    rfl
  · intro cs' n' ok' ht
    cases ht
    exact h.held_pos hi
  · rw [hi]
    cases ok <;> simp [Passing]
  · intro hb
    split at hb
    · simp at hb
    · exact h.master_todo hb

theorem finishBatch {n : Nat} {ok : Bool} (hi : threads i = .working [] n ok)
    (hlen : session.length < 2 ^ 32)
    (hmaster : toUnsigned (q.nTodo - n) = 0 → i ≠ none → threads none ≠ .waiting false) :
    QueueSound check
      { q with fAllOk := q.fAllOk && ok, nTodo := toUnsigned (q.nTodo - n) }
      (Function.update threads i .entering) session := by
  have hheld : n ≤ threadTotal held threads := by
    simpa [hi, held] using measure_le_threadTotal held threads i
  have hsub : toUnsigned (q.nTodo - n) = q.nTodo - n := by
    have := h.todo
    have := h.pending_le
    unfold toUnsigned
    omega
  refine h.move ?_ ?_ (by simp) ?_ (by simp) id (by simp) ?_
  · have := h.todo
    simp only [hi, hsub, held]
    omega
  · simp only [hsub]
    omega
  · simp only [hi, Passing, Bool.and_eq_true, not_mem_nil, false_implies,
      implies_true, and_true]
    tauto
  · intro hb hzero
    split at hb
    case isTrue => simp at hb
    case isFalse hne => exact hmaster hzero hne hb

/-! ## The critical section -/

theorem held_eq_zero (hzero : q.nTodo = 0) (i : Option ω) : (threads i).held = 0 := by
  have := measure_le_threadTotal held threads i
  have := h.todo
  omega

theorem fAllOk_iff (hzero : q.nTodo = 0) :
    q.fAllOk = true ↔ ∀ c ∈ session, check c = true := by
  have hempty : q.queue = [] := length_eq_zero_iff.mp (by have := h.todo; omega)
  have hpass : ∀ i, (threads i).Passing check := by
    intro i
    have hheld := h.held_eq_zero hzero i
    cases hi : threads i with
    | working cs n ok =>
      have hpos := h.held_pos hi
      simp only [hi, held] at hheld
      omega
    | _ => trivial
  rw [h.result]
  simp [hempty, hpass]

theorem cleanUp (hready : (threads i).ready = true) (hlen : session.length < 2 ^ 32) :
    QueueSound check (q.cleanUp i.isNone (threads i)).1
      (Function.update
        (if (q.cleanUp i.isNone (threads i)).2 then QueueState.notifyMaster threads else threads)
        i .entering) session := by
  cases hi : threads i with
  | outside => simp [hi, ready] at hready
  | entering =>
    have h' := (h.toEntering (i := i) (by simp [hi, held])
      (by simp [hi, Passing]))
    exact h'.congr rfl rfl rfl
  | waiting b =>
    have h' := (h.toEntering (i := i) (by simp [hi, held])
      (by simp [hi, Passing]))
    exact h'.congr rfl rfl rfl
  | working cs n ok =>
    cases cs with
    | cons c cs => simp [hi, ready] at hready
    | nil =>
      by_cases hwake : (q.cleanUp i.isNone (.working [] n ok)).2 = true
      · rw [if_pos hwake]
        simp only [CCheckQueue.cleanUp] at hwake ⊢
        -- the master is notified by a worker
        have hwoken : ∀ j, (threads j).Woken (QueueState.notifyMaster threads j) := by
          intro j
          cases j with
          | none => exact woken_notify _
          | some w => exact .inl rfl
        have hnone : i ≠ none := by
          rintro rfl
          simp at hwake
        obtain ⟨w, rfl⟩ := Option.ne_none_iff_exists'.mp hnone
        refine (h.woken hwoken).finishBatch hi hlen fun _ _ hb => ?_
        simp only [QueueState.notifyMaster] at hb
        cases hm : threads none <;> simp [hm, notify] at hb
      · rw [if_neg hwake]
        simp only [CCheckQueue.cleanUp] at hwake ⊢
        refine h.finishBatch hi hlen fun hzero hne _ => hwake ?_
        obtain ⟨w, rfl⟩ := Option.ne_none_iff_exists'.mp hne
        simp [hzero]

theorem toOutside (hzero : q.nTodo = 0) {q' : CCheckQueue T} (hqueue : q'.queue = [])
    (htodo : q'.nTodo = 0) (hok : q'.fAllOk = true) :
    QueueSound check q' (Function.update threads none .outside) [] := by
  have hheld := h.held_eq_zero hzero
  have hidle : ∀ i, (Function.update threads none .outside i).held = 0 ∧
      (Function.update threads none .outside i).Passing check := by
    intro i
    by_cases hi : i = none
    · subst hi
      simp [held, Passing]
    · rw [Function.update_of_ne hi]
      refine ⟨hheld i, ?_⟩
      cases hw : threads i with
      | working cs n ok =>
        have hpos := h.held_pos hw
        have := hheld i
        simp only [hw, held] at this
        omega
      | _ => trivial
  have hout : Function.update threads none .outside none = (.outside : LoopState T) := by simp
  constructor
  case todo => simp [hqueue, htodo, threadTotal, hidle]
  case pending_le => simp [htodo]
  case held_pos =>
    intro i cs n ok hi
    by_cases hnone : i = none
    · subst hnone
      simp at hi
    · rw [Function.update_of_ne hnone] at hi
      exact h.held_pos hi
  case result => simp [hqueue, hok, hidle]
  case worker =>
    intro w hw
    rw [Function.update_of_ne (by simp)] at hw
    exact h.worker w hw
  case master => simp
  case master_todo => simp
  case awake => exact fun _ hne => absurd hqueue hne

variable (hi : threads i = .entering)

include hi

theorem toWaiting (hempty : q.queue = []) (hmaster : i = none → q.nTodo ≠ 0) :
    QueueSound check q (Function.update threads i (.waiting false)) session := by
  refine h.move ?_ le_rfl (by simp) ?_ (by simp) id (fun _ _ => hempty) ?_
  · rw [hi]
    rfl
  · simp only [hi, Passing]
  · intro hb
    split at hb
    case isTrue hnone => exact hmaster hnone
    case isFalse => exact h.master_todo hb

theorem takeBatch (hne : q.queue ≠ []) :
    QueueSound check { q with queue := q.queue.drop q.nNow }
      (Function.update threads i (.working (q.queue.take q.nNow) q.nNow q.fAllOk)) session := by
  have hle := CCheckQueue.nNow_le hne
  refine h.move ?_ le_rfl ?_ ?_ (by simp) (fun hnil => absurd hnil hne) (by simp) ?_
  · simp only [hi, held, length_drop]
    omega
  · intro cs n ok ht
    cases ht
    exact q.one_le_nNow
  · have hsplit : (∀ c ∈ q.queue, check c = true) ↔
        (∀ c ∈ q.queue.take q.nNow, check c = true) ∧
          ∀ c ∈ q.queue.drop q.nNow, check c = true := by
      conv_lhs => rw [← take_append_drop q.nNow q.queue]
      exact forall_mem_append
    simp only [hi, Passing, hsplit]
    tauto
  · intro hb
    split at hb
    case isTrue => simp at hb
    case isFalse => exact h.master_todo hb

theorem dispatch (hnone : (q.dispatch i.isNone).2.2 = none) :
    QueueSound check (q.dispatch i.isNone).1
      (Function.update threads i (q.dispatch i.isNone).2.1) session := by
  unfold CCheckQueue.dispatch at hnone ⊢
  split
  case h_1 hempty =>
      simp only [hempty] at hnone
      split at hnone
      case isTrue => simp at hnone
      case isFalse hwait =>
          rw [if_neg hwait]
          refine (h.toWaiting hi hempty fun hm hzero => hwait ?_).congr rfl rfl rfl
          simp [hm, hzero]
  case h_2 c cs hqueue =>
      exact h.takeBatch hi (by simp [hqueue])

theorem dispatch_returns {fRet : Bool} (hret : (q.dispatch i.isNone).2.2 = some fRet) :
    i = none ∧ fRet = session.all check ∧ (q.dispatch i.isNone).1.queue = [] ∧
      (q.dispatch i.isNone).1.nTodo = 0 ∧ (q.dispatch i.isNone).1.fAllOk = true ∧
      (q.dispatch i.isNone).2.1 = .outside ∧ q.nTodo = 0 := by
  unfold CCheckQueue.dispatch at hret ⊢
  split
  case h_1 hempty =>
      simp only [hempty] at hret
      split at hret
      case isTrue hdone =>
          simp only [Bool.and_eq_true, Option.isNone_iff_eq_none, decide_eq_true_eq] at hdone
          obtain ⟨rfl, hzero⟩ := hdone
          have hiff := h.fAllOk_iff hzero
          simp only [Option.some.injEq] at hret
          subst hret
          refine ⟨rfl, ?_, ?_⟩
          · rw [Bool.eq_iff_iff, hiff, all_eq_true]
          · simp [hzero, hempty]
      case isFalse => simp at hret
  case h_2 c cs hqueue => simp [hqueue] at hret

end QueueSound

/-! ## The steps keep the invariant -/

namespace QueueState

variable {check : T → Bool} {s s' : QueueState T ω}

section

omit [Fintype ω]

variable [DecidableEq ω] {threads threads' : Option ω → LoopState T} {n : Nat}
  (h : NotifyWorkers threads threads' n)

include h

theorem NotifyWorkers.woken (i : Option ω) : (threads i).Woken (threads' i) := by
  match n, h with
  | 0, h => exact .inl (congrFun h i)
  | 1, .inl ⟨w, hw, h⟩ =>
    subst h
    by_cases hi : i = some w
    · subst hi
      exact .inr ⟨false, hw, by simp⟩
    · exact .inl (Function.update_of_ne hi _ _)
  | 1, .inr ⟨_, h⟩ => exact .inl (congrFun h i)
  | n + 2, h =>
    subst h
    cases i with
    | none => exact .inl rfl
    | some w => exact woken_notify _

theorem NotifyWorkers.awake (hn : n ≠ 0) (w : ω) : ∃ w, threads' (some w) ≠ .waiting false := by
  match n, hn, h with
  | 1, _, .inl ⟨w', _, h⟩ => exact ⟨w', by simp [h]⟩
  | 1, _, .inr ⟨hall, h⟩ => exact ⟨w, by rw [h]; exact hall w⟩
  | n + 2, _, h =>
    refine ⟨w, ?_⟩
    rw [h]
    simp only [notifyAll]
    cases threads (some w) <;> simp [notify]

end

def Sound (check : T → Bool) (s : QueueState T ω) : Prop :=
  QueueSound check s.q s.threads s.session

def remainingWork (s : QueueState T ω) : Nat :=
  3 * s.q.queue.length + threadTotal LoopState.work s.threads

variable [DecidableEq ω]

section

variable (h : s.Sound check) {i : Option ω} (hready : (s.threads i).ready = true)
  (hlen : s.session.length < 2 ^ 32)

include h hready hlen

theorem Sound.enter (hnone : (s.enter i).2 = none) : (s.enter i).1.Sound check := by
  have hclean := QueueSound.cleanUp h hready hlen
  have hdone := hclean.dispatch (i := i) (by simp) hnone
  simpa [Sound, QueueState.enter, show ((s.q.cleanUp i.isNone (s.threads i)).1.dispatch
    i.isNone).2.2 = none from hnone] using hdone

theorem Sound.returned {fRet : Bool} (hret : (s.enter i).2 = some fRet) :
    fRet = s.session.all check ∧ (s.enter i).1.q.queue = [] ∧ (s.enter i).1.q.nTodo = 0 ∧
      (∀ j, ((s.enter i).1.threads j).held = 0) ∧ (s.enter i).1.q.fAllOk = true ∧
      (s.enter i).1.threads none = .outside ∧ (s.enter i).1.session = [] ∧
      (s.enter i).1.Sound check := by
  have hclean := QueueSound.cleanUp h hready hlen
  have hret' : ((s.q.cleanUp i.isNone (s.threads i)).1.dispatch i.isNone).2.2 = some fRet := hret
  obtain ⟨rfl, hval, hqueue, htodo, hok, hout, hzero⟩ :=
    hclean.dispatch_returns (by simp) hret'
  have hnext := hclean.toOutside hzero hqueue htodo hok
  rw [Function.update_idem] at hnext
  have hstate : (s.enter none).1 = ⟨((s.q.cleanUp true (s.threads none)).1.dispatch true).1,
      Function.update (if (s.q.cleanUp true (s.threads none)).2 then notifyMaster s.threads
        else s.threads) none .outside, []⟩ := by
    simp only [Option.isNone_none] at hret' hout
    simp [QueueState.enter, hret', hout]
  rw [hstate]
  exact ⟨hval, hqueue, htodo, QueueSound.held_eq_zero hnext htodo, hok, by simp, rfl, hnext⟩

omit hready in
theorem Sound.step {e : QueueEvent T ω} (hstep : Step check s e s')
    (hlen' : s'.session.length < 2 ^ 32) : s'.Sound check := by
  cases hstep with
  | add vChecks hmaster hnotify =>
    refine QueueSound.add h hmaster ?_ hnotify.woken fun w hne => hnotify.awake ?_ w
    · simpa using hlen'
    · simpa using hne
  | wait hmaster =>
    exact QueueSound.toEntering h (by simp [hmaster, held])
      (by simp [hmaster, Passing])
  | enter i hready hnone => exact h.enter hready hlen hnone
  | returned hready hret => exact (h.returned hready hlen hret).2.2.2.2.2.2.2
  | check i hworking => exact QueueSound.runCheck h hworking

end

def Countable (s : QueueState T ω) : Prop := s.session.length < 2 ^ 32

theorem sound_of_reaches {nBatchSize : Nat}
    (h : ReachesWithin (Step check) Countable (init nBatchSize) s) :
    s.Sound check ∧ s.Countable :=
  h.invariant (I := fun s => s.Sound check ∧ s.Countable)
    ⟨QueueSound.init nBatchSize, by simp [Countable, init]⟩
    fun _ _ _ hs hok hstep => ⟨hs.1.step hs.2 hstep hok, hok⟩

/-! ## The master can always return -/

theorem enter_remainingWork (i : Option ω) (hready : (s.threads i).ready = true)
    (hnone : (s.enter i).2 = none) (hwork : s.q.queue = [] → (s.threads i).work ≠ 0) :
    (s.enter i).1.remainingWork < s.remainingWork := by
  let q := (s.q.cleanUp i.isNone (s.threads i)).1
  let threads := if (s.q.cleanUp i.isNone (s.threads i)).2 then notifyMaster s.threads
    else s.threads
  have hsame : ∀ j, (threads j).work = (s.threads j).work := by
    intro j
    simp only [threads]
    split
    · cases j with
      | none => simp only [notifyMaster]; cases s.threads none <;> rfl
      | some w => rfl
    · rfl
  have htotal := threadTotal_update work threads i (q.dispatch i.isNone).2.1
  rw [threadTotal_congr hsame, hsame i] at htotal
  have hqueue : q.queue = s.q.queue := s.q.cleanUp_queue _ _
  have hle : (s.threads i).work ≤ 1 := by
    cases hi : s.threads i with
    | working cs n ok =>
      cases cs with
      | nil => simp [work]
      | cons c cs => simp [hi, ready] at hready
    | _ => simp [work]
  show 3 * (q.dispatch i.isNone).1.queue.length +
    threadTotal work (Function.update threads i (q.dispatch i.isNone).2.1) < _
  unfold remainingWork
  cases hq : s.q.queue with
  | nil =>
    have hwait : q.dispatch i.isNone =
        ({ q with nIdle := q.nIdle + 1 }, .waiting false, none) := by
      have hret : (q.dispatch i.isNone).2.2 = none := hnone
      unfold CCheckQueue.dispatch at hret ⊢
      simp only [hqueue, hq] at hret ⊢
      split at hret
      case isTrue => simp at hret
      case isFalse h => rw [if_neg h]
    have hpos := hwork hq
    rw [hwait] at htotal ⊢
    simp only [hqueue, hq, LoopState.work_waiting, length_nil] at htotal ⊢
    omega
  | cons c cs =>
    have hne : q.queue ≠ [] := by simp [hqueue, hq]
    have htake : q.dispatch i.isNone = ({ q with queue := q.queue.drop q.nNow },
        .working (q.queue.take q.nNow) q.nNow q.fAllOk, none) := by
      unfold CCheckQueue.dispatch
      simp only [hqueue, hq]
    have hpos := q.one_le_nNow
    have hbound := CCheckQueue.nNow_le hne
    rw [htake] at htotal ⊢
    simp only [LoopState.work_working, length_take, length_drop] at htotal ⊢
    rw [← hq, ← hqueue]
    omega

omit [Fintype ω] in
theorem enter_master {i : Option ω} (hmaster : s.threads none ≠ .outside)
    (hnone : (s.enter i).2 = none) : (s.enter i).1.threads none ≠ .outside := by
  cases i with
  | none =>
    simpa [QueueState.enter] using CCheckQueue.dispatch_ne_outside hnone
  | some w =>
    simp only [QueueState.enter, ne_eq, reduceCtorEq, not_false_eq_true, Function.update_of_ne]
    split
    · exact fun hout => hmaster ((woken_notify _).eq_of_outside hout)
    · exact hmaster

theorem exists_progress (h : s.Sound check) (hmaster : s.threads none ≠ .outside) :
    (∃ fRet s', Step check s (.returned fRet) s') ∨
      ∃ e s', Step check s e s' ∧ s'.remainingWork < s.remainingWork ∧
        s'.session = s.session ∧ s'.threads none ≠ .outside := by
  have henter : ∀ i, (s.threads i).ready = true →
      (s.q.queue = [] → (s.threads i).work ≠ 0 ∨ (s.enter i).2 ≠ none) →
      (∃ fRet s', Step check s (.returned fRet) s') ∨
        ∃ e s', Step check s e s' ∧ s'.remainingWork < s.remainingWork ∧
          s'.session = s.session ∧ s'.threads none ≠ .outside := by
    intro i hready hwork
    cases hret : (s.enter i).2 with
    | some fRet => exact .inl ⟨fRet, _, .returned hready hret⟩
    | none =>
      refine .inr ⟨.enter i, _, .enter i hready hret, enter_remainingWork i hready hret
        (fun hnil => (hwork hnil).resolve_right (by simp [hret])), ?_, ?_⟩
      · have hnone : ((s.q.cleanUp i.isNone (s.threads i)).1.dispatch i.isNone).2.2 = none :=
          hret
        simp [QueueState.enter, hnone]
      · exact enter_master hmaster hret
  by_cases hworking : ∃ i cs n ok, s.threads i = .working cs n ok
  · obtain ⟨i, cs, n, ok, hi⟩ := hworking
    cases cs with
    | nil => exact henter i (by simp [hi, ready]) fun _ => .inl (by simp [hi, work])
    | cons c cs =>
      refine .inr ⟨.check i, _, .check i hi, ?_, rfl, ?_⟩
      · have htotal := threadTotal_update work s.threads i
          (.working cs n (if ok then check c else ok))
        simp only [hi, work, length_cons] at htotal
        simp only [remainingWork]
        omega
      · by_cases hnone : none = i
        · subst hnone
          simp
        · simpa [Function.update_of_ne hnone] using hmaster
  · -- nobody works, so an empty queue means that nothing is left to do
    have hheld : threadTotal held s.threads = 0 := by
      refine Finset.sum_eq_zero fun i _ => ?_
      cases hi : s.threads i with
      | working cs n ok => exact absurd ⟨i, cs, n, ok, hi⟩ hworking
      | _ => rfl
    have htodo : s.q.queue = [] → s.q.nTodo = 0 := by
      intro hnil
      have := h.todo
      simp only [hnil, length_nil] at this
      omega
    have hreturn : ∀ t, s.threads none = t →
        (t = .entering ∨ ∃ b, t = .waiting b) → s.q.queue = [] → (s.enter none).2 ≠ none := by
      rintro t ht hcase hnil
      rcases hcase with rfl | ⟨b, rfl⟩ <;>
        simp [QueueState.enter, ht, CCheckQueue.cleanUp, CCheckQueue.dispatch, hnil, htodo hnil]
    cases hm : s.threads none with
    | outside => exact absurd hm hmaster
    | entering =>
      exact henter none (by simp [hm, ready])
        fun hnil => .inr (hreturn _ hm (.inl rfl) hnil)
    | waiting b =>
      exact henter none (by simp [hm, ready])
        fun hnil => .inr (hreturn _ hm (.inr ⟨b, rfl⟩) hnil)
    | working cs n ok => exact absurd ⟨none, cs, n, ok, hm⟩ hworking

theorem exists_return (h : s.Sound check) (hlen : s.Countable)
    (hmaster : s.threads none ≠ .outside) :
    ∃ t fRet t', ReachesWithin (Step check) Countable s t ∧
      Step check t (.returned fRet) t' ∧ t.session = s.session := by
  generalize hwork : s.remainingWork = n
  induction n using Nat.strong_induction_on generalizing s with
  | _ n ih =>
    rcases exists_progress h hmaster with ⟨fRet, t, hstep⟩ | ⟨e, t, hstep, hless, hsame, hin⟩
    · exact ⟨s, fRet, t, .refl, hstep, rfl⟩
    · have hlen' : t.Countable := by
        rw [Countable, hsame]
        exact hlen
      obtain ⟨u, fRet, u', hreach, hret, hsession⟩ :=
        ih t.remainingWork (hwork ▸ hless) (h.step hlen hstep hlen') hlen' hin rfl
      exact ⟨u, fRet, u', .head ⟨hlen', e, hstep⟩ hreach, hret, hsession.trans hsame⟩

/-! ## Parallel and sequential checking -/

/-- In every interleaving of sessions that each add fewer than `2 ^ 32` checks, `nTodo` is
exact, `Wait` returns what checking one after the other returns, and a waiting session can
always come to its end. -/
theorem parallel_eq_sequential (nBatchSize : Nat)
    (h : ReachesWithin (Step check) Countable (init nBatchSize) s) :
    s.q.nTodo = s.pending ∧
      (∀ i, (s.threads i).held ≤ s.q.nTodo) ∧
      (∀ fRet s', Step check s (.returned fRet) s' →
        fRet = s.session.all check ∧ s'.q.queue = [] ∧ s'.q.nTodo = 0 ∧
          (∀ i, (s'.threads i).held = 0) ∧ s'.q.fAllOk = true) ∧
      ¬ ((∀ i, s.threads i = .waiting false) ∧ (s.q.queue ≠ [] ∨ s.q.nTodo = 0)) ∧
      (s.threads none ≠ .outside → ∃ t fRet t', ReachesWithin (Step check) Countable s t ∧
        Step check t (.returned fRet) t' ∧ t.session = s.session) := by
  obtain ⟨hsound, hlen⟩ := sound_of_reaches h
  refine ⟨hsound.todo, ?_, ?_, ?_, exists_return hsound hlen⟩
  · intro i
    have := measure_le_threadTotal held s.threads i
    have := hsound.todo
    omega
  · intro fRet s' hstep
    cases hstep with
    | returned hready hret =>
      obtain ⟨hval, hqueue, htodo, hheld, hok, -⟩ := hsound.returned hready hlen hret
      exact ⟨hval, hqueue, htodo, hheld, hok⟩
  · rintro ⟨hall, hne | hzero⟩
    · exact hne (hsound.master (hall none))
    · exact hsound.master_todo (hall none) hzero

/-! ## Sessions of one call of `Add` -/

def addedAtOnce (vChecks : List Bool) : QueueState Bool (Fin 2) :=
  ⟨(CCheckQueue.create 128).add vChecks, notifyAll started, vChecks⟩

theorem step_addedAtOnce {vChecks : List Bool} (h : 2 ≤ vChecks.length) :
    Step id (init 128) (.add vChecks) (addedAtOnce vChecks) := by
  refine .add _ rfl ?_
  obtain ⟨m, hm⟩ := Nat.exists_eq_add_of_le h
  rw [hm, Nat.add_comm]
  rfl

theorem pending_addedAtOnce (vChecks : List Bool) :
    (addedAtOnce vChecks).pending = vChecks.length := by
  have hheld : threadTotal held
      (notifyAll started : Option (Fin 2) → LoopState Bool) = 0 := rfl
  simp only [pending, addedAtOnce, hheld, CCheckQueue.add, CCheckQueue.create,
    append_nil, length_reverse, Nat.add_zero]

/-- The second of three checks fails.  The session goes on to the return of `Wait`, which says
so. -/
theorem parallel_eq_sequential_addedAtOnce :
    ∃ t t' : QueueState Bool (Fin 2), ReachesWithin (Step id) Countable (init 128) t ∧
      t.session = [true, false, true] ∧ Step id t (.returned false) t' ∧ t'.q.queue = [] ∧
      t'.q.nTodo = 0 := by
  have hadd : ReachesWithin (Step id) Countable (init 128) (addedAtOnce [true, false, true]) :=
    .single ⟨by simp [Countable, addedAtOnce], _, step_addedAtOnce (by decide)⟩
  have hwait := hadd.tail ⟨by simp [Countable, addedAtOnce], _, .wait rfl⟩
  obtain ⟨-, -, -, -, hreturn⟩ := parallel_eq_sequential 128 hwait
  obtain ⟨t, fRet, t', hreach, hstep, hsession⟩ := hreturn (by simp)
  have ht := hwait.trans hreach
  obtain ⟨-, -, hvalue, -⟩ := parallel_eq_sequential 128 ht
  obtain ⟨hret, hqueue, htodo, -⟩ := hvalue fRet t' hstep
  have hfalse : fRet = false := hret.trans (by rw [hsession]; rfl)
  exact ⟨t, t', ht, hsession, hfalse ▸ hstep, hqueue, htodo⟩

/-- `nTodo` is an `unsigned int`: it is `0` after a call of `Add` with `2 ^ 32`
checks. -/
theorem nTodo_wraps :
    (∃ e, Step id (init 128) e (addedAtOnce (List.replicate (2 ^ 32) true))) ∧
      (addedAtOnce (List.replicate (2 ^ 32) true)).q.nTodo = 0 ∧
      (addedAtOnce (List.replicate (2 ^ 32) true)).pending = 2 ^ 32 := by
  refine ⟨⟨_, step_addedAtOnce (by rw [length_replicate]; decide)⟩, ?_, ?_⟩
  · simp only [addedAtOnce, CCheckQueue.add, CCheckQueue.create, length_replicate]
    rfl
  · rw [pending_addedAtOnce, length_replicate]

end QueueState

end Verge
