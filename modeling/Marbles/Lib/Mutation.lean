import Mathlib.Data.List.Basic

/-!
# Methods on a mutable receiver

A method that changes its receiver and can return an error: what it has changed before the
error stays changed. `call` gives the result and the receiver afterwards; its rules below
run a body statement by statement. A step that only computes is an `Except`, with rules of
its own.

The monad keeps the receiver beside the error, unlike a transaction. The difference matters for
methods that fail halfway, and is the reason that there are two.
-/

universe u v

namespace Except

variable {ε : Type u} {α β : Type v}

/-- A sequence succeeds exactly when both parts do. -/
theorem bind_eq_ok {x : Except ε α} {f : α → Except ε β} {b : β} :
    (x >>= f) = .ok b ↔ ∃ a, x = .ok a ∧ f a = .ok b := by
  cases x with
  | ok a => exact ⟨fun h => ⟨a, rfl, h⟩, fun ⟨_, ha, h⟩ => by cases ha; exact h⟩
  | error e => exact ⟨nofun, fun ⟨_, ha, _⟩ => nomatch ha⟩

theorem mapError_eq_ok {ε' : Type u} {g : ε → ε'} {x : Except ε α} {a : α} :
    x.mapError g = .ok a ↔ x = .ok a := by
  cases x <;> simp [Except.mapError]

theorem ite_error_eq_ok {c : Prop} [Decidable c] {e : ε} {x : Except ε α} {a : α} :
    (if c then .error e else x) = .ok a ↔ ¬ c ∧ x = .ok a := by
  split <;> simp_all

theorem ite_ok_eq_ok {c : Prop} [Decidable c] {e : ε} {a b : α} :
    (if c then .ok a else .error e : Except ε α) = .ok b ↔ c ∧ a = b := by
  split <;> simp_all

/-- The value, or the error when there is none. -/
def okOr (e : ε) : Option α → Except ε α
  | some a => .ok a
  | none => .error e

@[simp] theorem okOr_some (e : ε) (a : α) : okOr e (some a) = .ok a := rfl

@[simp] theorem okOr_none (e : ε) : okOr e (none : Option α) = .error e := rfl

@[simp] theorem okOr_eq_ok {e : ε} {o : Option α} {a : α} : okOr e o = .ok a ↔ o = some a := by
  cases o <;> simp

end Except

/-- A method on a `σ` that returns an `α` or an error. -/
abbrev Mutation (σ ε α : Type) := ExceptT ε (StateM σ) α

namespace Mutation

variable {σ ε α β : Type}

/-- What a call returns, and the receiver after it. -/
def call (m : Mutation σ ε α) (s : σ) : Except ε α × σ := m.run s

@[simp] theorem call_pure (a : α) (s : σ) : call (pure a : Mutation σ ε α) s = (.ok a, s) := rfl

@[simp] theorem call_throw (e : ε) (s : σ) :
    call (throw e : Mutation σ ε α) s = (.error e, s) := rfl

@[simp] theorem call_get (s : σ) : call (get : Mutation σ ε σ) s = (.ok s, s) := rfl

@[simp] theorem call_set (s s' : σ) : call (set s' : Mutation σ ε PUnit) s = (.ok ⟨⟩, s') := rfl

/-- A step that neither reads nor writes the receiver. -/
@[simp] theorem call_liftM (x : Except ε α) (s : σ) :
    call (liftM x : Mutation σ ε α) s = (x, s) := rfl

@[simp] theorem call_bind (m : Mutation σ ε α) (f : α → Mutation σ ε β) (s : σ) :
    call (m >>= f) s =
      match call m s with
      | (.ok a, s') => call (f a) s'
      | (.error e, s') => (.error e, s') := by
  show StateT.bind m.run (ExceptT.bindCont f) s = _
  simp only [StateT.bind, call]
  cases m.run s with
  | mk r s' => cases r <;> rfl

@[simp] theorem call_ite (c : Prop) [Decidable c] (m m' : Mutation σ ε α) (s : σ) :
    call (if c then m else m') s = if c then call m s else call m' s := by
  split <;> rfl

end Mutation
