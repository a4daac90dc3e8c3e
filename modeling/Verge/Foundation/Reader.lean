import Mathlib.Data.List.Basic
import Verge.Foundation.Restricts

/-!
# Stream readers

A reader consumes a prefix of its input or fails.  `Reads r bytes a` says that
`r` takes exactly `bytes` and returns `a`, whatever follows; it is closed under
sequencing, which is how round trips of composite formats are assembled.
-/

namespace Verge.Foundation

open List

abbrev Reader (β ε : Type) := StateT (List β) (Except ε)

namespace Reader

variable {β ε α γ : Type}

def next (eof : ε) : Reader β ε β := fun input =>
  match input with
  | [] => .error eof
  | b :: rest => .ok (b, rest)

def take (eof : ε) : Nat → Reader β ε (List β)
  | 0 => pure []
  | n + 1 => do
    let b ← next eof
    let bs ← take eof n
    return b :: bs

def many (record : Reader β ε α) : Nat → Reader β ε (List α)
  | 0 => pure []
  | n + 1 => do
    let a ← record
    let as ← many record n
    return a :: as

/-- `r` takes exactly `bytes` from the front of any input and returns `a`. -/
def Reads (r : Reader β ε α) (bytes : List β) (a : α) : Prop :=
  ∀ rest, r.run (bytes ++ rest) = .ok (a, rest)

theorem reads_pure (a : α) : Reads (pure a : Reader β ε α) [] a := fun _ => rfl

variable {r : Reader β ε α} {bytes : List β}

theorem Reads.bind {f : α → Reader β ε γ} {bytes' : List β} {a : α} {c : γ} (hr : Reads r bytes a)
    (hf : Reads (f a) bytes' c) : Reads (r >>= f) (bytes ++ bytes') c := by
  intro rest
  rw [StateT.run_bind, append_assoc, hr]
  exact hf rest

theorem Reads.bind_nil {f : α → Reader β ε γ} {a : α} {c : γ} (hr : Reads r bytes a)
    (hf : Reads (f a) [] c) :
    Reads (r >>= f) bytes c := by
  have h := hr.bind hf
  rwa [append_nil] at h

theorem Reads.bind_pure {f : α → γ} {a : α} (hr : Reads r bytes a) :
    Reads (r >>= fun x => pure (f x)) bytes (f a) :=
  Reads.bind_nil (f := fun x => pure (f x)) hr (reads_pure (f a))

theorem Reads.append_inj {bytes' rest rest' : List β} {a a' : α} (hr : Reads r bytes a)
    (hr' : Reads r bytes' a') (h : bytes ++ rest = bytes' ++ rest') :
    a = a' ∧ rest = rest' := by
  have hrun : Except.ok (a, rest) = (Except.ok (a', rest') : Except ε (α × List β)) := by
    rw [← hr rest, h, hr' rest']
  simpa using hrun

theorem reads_next (eof : ε) (b : β) : Reads (next eof) [b] b := fun _ => rfl

theorem reads_take (eof : ε) (bytes : List β) : Reads (take eof bytes.length) bytes bytes := by
  induction bytes with
  | nil => exact reads_pure []
  | cons b bytes ih => exact (reads_next eof b).bind ih.bind_pure

theorem reads_many {record : Reader β ε α} {encode : γ → List β} {value : γ → α}
    (items : List γ) (h : ∀ c ∈ items, Reads record (encode c) (value c)) :
    Reads (many record items.length) (items.flatMap encode) (items.map value) := by
  induction items with
  | nil => exact reads_pure []
  | cons c items ih =>
    have hhead := h c mem_cons_self
    have htail := ih fun d hd => h d (mem_cons_of_mem c hd)
    exact hhead.bind htail.bind_pure

theorem run_bind_eq_ok {f : α → Reader β ε γ} {input rest : List β} {c : γ} :
    (r >>= f).run input = .ok (c, rest) ↔
      ∃ a mid, r.run input = .ok (a, mid) ∧ (f a).run mid = .ok (c, rest) := by
  rw [StateT.run_bind, bind_eq_ok, Prod.exists]

/-- The input that `r` takes is what `encode` writes for the value it returns. -/
def Canonical (r : Reader β ε α) (encode : α → List β) : Prop :=
  ∀ {input a rest}, r.run input = .ok (a, rest) → input = encode a ++ rest

theorem Canonical.many {record : Reader β ε α} {encode : α → List β}
    (h : Canonical record encode) {n : Nat} {input rest : List β} {items : List α}
    (hmany : (many record n).run input = .ok (items, rest)) :
    items.length = n ∧ input = items.flatMap encode ++ rest := by
  induction n generalizing input items with
  | zero =>
    cases hmany
    exact ⟨rfl, rfl⟩
  | succ n ih =>
    obtain ⟨a, mid, ha, hmany⟩ := run_bind_eq_ok.mp hmany
    obtain ⟨as, mid', has, hmany⟩ := run_bind_eq_ok.mp hmany
    cases hmany
    obtain ⟨hlength, hmid⟩ := ih has
    refine ⟨congrArg Nat.succ hlength, ?_⟩
    rw [h ha, hmid, flatMap_cons, append_assoc]

end Reader

end Verge.Foundation
