import Verge.Coins.Coin

/-!
# Postconditions

`Ensures` and `CoinsProg.Post` say that whatever a computation returns satisfies
the postcondition and, in the strict reading, that no `int64_t` overflows on the
way.  Rejections, failed assertions and exceptions are ways to fail that the
callers handle; an overflow is undefined behaviour.
-/

namespace Verge

open Foundation

def Ensures {α : Type} (strict : Prop) (x : Except Failure α) (Q : α → Prop) : Prop :=
  match x with
  | .ok a => Q a
  | .error e => strict → e ≠ .overflow

namespace Ensures

variable {α β : Type} {strict : Prop} {Q : α → Prop} {x : Except Failure α}

theorem ok {a : α} (h : Q a) : Ensures strict (.ok a) Q := h

theorem bind {f : α → Except Failure β} {R : β → Prop} (hx : Ensures strict x Q)
    (hf : ∀ a, Q a → Ensures strict (f a) R) : Ensures strict (x >>= f) R := by
  cases x with
  | error e => exact hx
  | ok a => exact hf a hx

theorem mono {R : α → Prop} (hx : Ensures strict x Q) (h : ∀ a, Q a → R a) :
    Ensures strict x R := by
  cases x with
  | error e => exact hx
  | ok a => exact h a hx

theorem of_eq_ok {a : α} (hx : Ensures strict x Q) (h : x = .ok a) : Q a := by
  subst h
  exact hx

end Ensures

section Checks

variable {strict : Prop}

/-- A check of the `CValidationState` kind outside a coins program. -/
def ensure (condition : Bool) (failure : Failure) : Except Failure Unit :=
  if condition then .ok () else .error failure

theorem ensures_ensure {condition : Bool} {failure : Failure} (h : failure ≠ .overflow) :
    Ensures strict (ensure condition failure) fun _ => condition = true := by
  unfold ensure
  cases condition with
  | false => exact fun _ => h
  | true => exact rfl

def addInt64 (a b : Int) : Except Failure Int :=
  if inInt64 (a + b) then .ok (a + b) else .error .overflow

theorem ensures_addInt64 {a b : Int} (h : strict → inInt64 (a + b)) :
    Ensures strict (addInt64 a b) fun sum => sum = a + b := by
  unfold addInt64
  split
  case isTrue => exact rfl
  case isFalse hover => exact fun hs => absurd (h hs) hover

end Checks

namespace CoinsProg

variable {α β : Type} {strict : Prop}

def Post (strict : Prop) (p : CoinsProg α) (view : CoinsView)
    (Q : α → CoinsView → Prop) : Prop :=
  Ensures strict (p.run view) fun r => Q r.1 r.2

namespace Post

variable {view : CoinsView} {Q : α → CoinsView → Prop}

theorem pure {a : α} (h : Q a view) : Post strict (Pure.pure a) view Q := h

theorem bind {p : CoinsProg α} {f : α → CoinsProg β} {R : β → CoinsView → Prop}
    (hp : Post strict p view Q) (hf : ∀ a view', Q a view' → Post strict (f a) view' R) :
    Post strict (p >>= f) view R := by
  unfold Post
  rw [run_bind]
  exact Ensures.bind hp fun r hr => hf r.1 r.2 hr

theorem mono {p : CoinsProg α} {R : α → CoinsView → Prop} (hp : Post strict p view Q)
    (h : ∀ a view', Q a view' → R a view') : Post strict p view R :=
  Ensures.mono hp fun r hr => h r.1 r.2 hr

theorem of_run {p : CoinsProg α} {view' : CoinsView} {a : α} (hp : Post strict p view Q)
    (h : p.run view = .ok (a, view')) : Q a view' := by
  unfold Post at hp
  rw [h] at hp
  exact hp

end Post

variable {view : CoinsView} {o : COutPoint}

theorem post_fail {failure : Failure} {Q : α → CoinsView → Prop} (h : failure ≠ .overflow) :
    Post strict (fail failure) view Q := fun _ => h

theorem post_require {condition : Bool} {failure : Failure} (h : failure ≠ .overflow) :
    Post strict (require condition failure) view fun _ view' =>
      condition = true ∧ view' = view := by
  unfold require
  cases condition with
  | false => exact fun _ => h
  | true => exact ⟨rfl, rfl⟩

theorem post_ofExcept {x : Except Failure α} {Q : α → Prop} (h : Ensures strict x Q) :
    Post strict (ofExcept x) view fun a view' => Q a ∧ view' = view := by
  cases x with
  | error e => exact h
  | ok a => exact ⟨h, rfl⟩

theorem post_haveCoin :
    Post strict (haveCoin o) view fun b view' => b = (view.lookup o).isSome ∧ view' = view :=
  ⟨rfl, rfl⟩

theorem post_accessCoin :
    Post strict (accessCoin o) view fun c view' => c = view.lookup o ∧ view' = view :=
  ⟨rfl, rfl⟩

theorem post_spendCoin :
    Post strict (spendCoin o) view fun c view' => c = view.lookup o ∧ view' = view.erase o :=
  ⟨rfl, rfl⟩

theorem post_addCoin {coin : Coin} {w : Bool} :
    Post strict (addCoin o coin w) view fun _ view' =>
      coin.isSpent = false ∧
        if isUnspendable coin.out.scriptPubKey then view' = view
        else view' = view.insert o coin ∧ (w = false → view.lookup o = none) := by
  unfold Post
  rw [run_addCoin]
  unfold CoinsView.addCoin
  cases hspent : coin.isSpent with
  | true => exact fun _ => by simp
  | false =>
    cases hun : isUnspendable coin.out.scriptPubKey with
    | true => exact ⟨rfl, rfl⟩
    | false =>
      cases hw : !w && view.haveCoin o with
      | true => exact fun _ => by simp
      | false =>
        simp only [Bool.false_eq_true, if_false, Ensures, Except.map, true_and]
        intro hfalse
        simpa [hfalse, CoinsView.haveCoin] using hw

end CoinsProg

end Verge
