import Mathlib.Algebra.Order.Ring.Int
import Mathlib.Data.List.Basic

/-!
# Outcomes and locks

What a call comes back with: a value, a reported error, or nothing at all because it
panicked or never returned (`abort`). A component behind a lock is `Locked`: an abort
while the lock is held poisons it, and a poisoned lock aborts every later call.

A reported error and an abort are different constructors because programs treat them differently:
the first can be looked at, the second cannot. `Result` types of the program are instances with
their own errors.
-/

universe u v w

/-- Why a call did not produce a value. -/
inductive Fault (ε : Type u) where
  /-- The call returned this error. -/
  | fail (e : ε)
  /-- The call did not return: it panicked, or it loops. -/
  | abort
  deriving DecidableEq, Repr

/-- The same fault with the error under another type. -/
def Fault.map {ε : Type u} {ε' : Type v} (f : ε → ε') : Fault ε → Fault ε'
  | .fail e => .fail (f e)
  | .abort => .abort

/-- What a call comes back with. -/
abbrev Outcome (ε : Type u) (α : Type v) := Except (Fault ε) α

namespace Outcome

variable {ε : Type u} {α : Type v}

/-- The call returned the error `e`. -/
def fail (e : ε) : Outcome ε α := .error (.fail e)

/-- The call did not return. -/
def abort : Outcome ε α := .error .abort

/-- The value, or the error `e` when there is none. -/
def ofOption (e : ε) : Option α → Outcome ε α
  | some a => .ok a
  | none => fail e

/-- How the call ended, without the value or the text of the error. -/
inductive Verdict where
  | ok
  | err
  | abort
  deriving DecidableEq, Repr

/-- How the call ended. -/
def verdict : Outcome ε α → Verdict
  | .ok _ => .ok
  | .error (.fail _) => .err
  | .error .abort => .abort

@[simp] theorem verdict_ok (a : α) : verdict (.ok a : Outcome ε α) = .ok := rfl
@[simp] theorem verdict_fail (e : ε) : verdict (.error (.fail e) : Outcome ε α) = .err := rfl
@[simp] theorem verdict_abort : verdict (.error .abort : Outcome ε α) = .abort := rfl

@[simp] theorem ofOption_some (e : ε) (a : α) : ofOption e (some a) = .ok a := rfl
@[simp] theorem ofOption_none (e : ε) :
    ofOption e (none : Option α) = .error (.fail e) := rfl

@[simp] theorem ofOption_eq_ok {e : ε} {o : Option α} {a : α} :
    (ofOption e o : Outcome ε α) = .ok a ↔ o = some a := by
  cases o <;> simp [ofOption, fail]

@[simp] theorem toOption_eq_some {x : Outcome ε α} {a : α} : x.toOption = some a ↔ x = .ok a := by
  cases x <;> simp [Except.toOption]

@[simp] theorem fail_ne_ok {e : ε} {a : α} : (fail e : Outcome ε α) ≠ .ok a := nofun

@[simp] theorem abort_ne_ok {a : α} : (abort : Outcome ε α) ≠ .ok a := nofun

/-- A sequence returns a value exactly when both parts do. -/
theorem bind_eq_ok {β : Type v} {x : Outcome ε α} {f : α → Outcome ε β} {b : β} :
    (x >>= f) = .ok b ↔ ∃ a, x = .ok a ∧ f a = .ok b := by
  cases x with
  | ok a => exact ⟨fun h => ⟨a, rfl, h⟩, fun ⟨_, ha, h⟩ => by cases ha; exact h⟩
  | error e => exact ⟨nofun, fun ⟨_, ha, _⟩ => nomatch ha⟩

/-- A sequence returns when both parts do. -/
theorem bind_ne_abort {β : Type v} {x : Outcome ε α} {f : α → Outcome ε β}
    (hx : x ≠ .error .abort) (hf : ∀ a, x = .ok a → f a ≠ .error .abort) :
    (x >>= f) ≠ .error .abort := by
  cases x with
  | ok a => exact hf a rfl
  | error e => exact fun h => hx (by cases h; rfl)

theorem map_ne_abort {β : Type v} {x : Outcome ε α} {f : α → β} (hx : x ≠ .error .abort) :
    x.map f ≠ .error .abort := by
  cases x with
  | ok a => exact nofun
  | error e => exact fun h => hx (by cases h; rfl)

theorem ofOption_ne_abort {e : ε} {o : Option α} :
    (ofOption e o : Outcome ε α) ≠ .error .abort := by
  cases o <;> exact nofun

theorem fail_ne_abort {e : ε} : (fail e : Outcome ε α) ≠ .error .abort := nofun

theorem ok_ne_abort {a : α} : (.ok a : Outcome ε α) ≠ .error .abort := nofun

theorem ite_ne_abort {c : Prop} [Decidable c] {x y : Outcome ε α} (hx : x ≠ .error .abort)
    (hy : y ≠ .error .abort) : (if c then x else y) ≠ .error .abort := by
  split
  · exact hx
  · exact hy

/-- Decoding a list returns when decoding each item does. -/
theorem mapM_ne_abort {β : Type v} {f : α → Outcome ε β} (hf : ∀ a, f a ≠ .error .abort)
    (xs : List α) : xs.mapM f ≠ .error .abort := by
  induction xs with
  | nil => exact nofun
  | cons x xs ih =>
      rw [List.mapM_cons]
      exact bind_ne_abort (hf x) fun _ _ => bind_ne_abort ih fun _ _ => nofun

/-- Two steps succeed when the first does and, on its result, the second. -/
theorem bind_isOk {β : Type v} {x : Outcome ε α} {f : α → Outcome ε β} :
    (∃ b, (x >>= f) = .ok b) ↔ ∃ a, x = .ok a ∧ ∃ b, f a = .ok b := by
  simp only [bind_eq_ok]
  rw [exists_comm]
  simp only [exists_and_left]

/-- Decoding a list succeeds when decoding each item does. -/
theorem mapM_isOk {β : Type v} {f : α → Outcome ε β} {xs : List α} :
    (∃ ys, xs.mapM f = .ok ys) ↔ ∀ x ∈ xs, ∃ y, f x = .ok y := by
  induction xs with
  | nil => exact ⟨fun _ x hx => absurd hx List.not_mem_nil, fun _ => ⟨[], rfl⟩⟩
  | cons x xs ih =>
      rw [List.forall_mem_cons, ← ih]
      constructor
      · intro h
        obtain ⟨ys, h⟩ := h
        rw [List.mapM_cons] at h
        obtain ⟨y, hy, h⟩ := bind_eq_ok.mp h
        obtain ⟨rest, hrest, -⟩ := bind_eq_ok.mp h
        exact ⟨⟨y, hy⟩, rest, hrest⟩
      · intro h
        obtain ⟨⟨y, hy⟩, rest, hrest⟩ := h
        refine ⟨y :: rest, ?_⟩
        rw [List.mapM_cons, hy, hrest]
        rfl

/-- A map that succeeds keeps every item that a partial function keeps. -/
theorem mapM_eq_filterMap {β : Type v} {f : α → Outcome ε β} {g : α → Option β} {xs : List α}
    {ys : List β} (h : xs.mapM f = .ok ys) (hg : ∀ x y, f x = .ok y → g x = some y) :
    ys = xs.filterMap g := by
  induction xs generalizing ys with
  | nil =>
      cases h
      rfl
  | cons x xs ih =>
      rw [List.mapM_cons] at h
      obtain ⟨y, hy, h⟩ := bind_eq_ok.mp h
      obtain ⟨ys', hys, h⟩ := bind_eq_ok.mp h
      cases h
      rw [List.filterMap_cons_some (hg x y hy), ih hys]

/-- What is known of each item when it is decoded is known of the decoded list. -/
theorem map_of_mapM {β γ : Type v} {f : α → Outcome ε β} {p : β → γ} {q : α → γ} {xs : List α}
    {ys : List β} (h : xs.mapM f = .ok ys) (hpq : ∀ x ∈ xs, ∀ y, f x = .ok y → p y = q x) :
    ys.map p = xs.map q := by
  induction xs generalizing ys with
  | nil =>
      cases h
      rfl
  | cons x xs ih =>
      rw [List.mapM_cons] at h
      obtain ⟨y, hy, h⟩ := bind_eq_ok.mp h
      obtain ⟨rest, hrest, h⟩ := bind_eq_ok.mp h
      cases h
      rw [List.map_cons, List.map_cons, hpq x List.mem_cons_self y hy,
        ih hrest fun x hx => hpq x (List.mem_cons_of_mem _ hx)]

/-- A decoded list is the list of what the items are decoded to. -/
theorem mapM_eq_map {β : Type v} {f : α → Outcome ε β} {g : α → β} {xs : List α} {ys : List β}
    (h : xs.mapM f = .ok ys) (hg : ∀ x ∈ xs, ∀ y, f x = .ok y → y = g x) : ys = xs.map g :=
  (List.map_id ys).symm.trans (map_of_mapM h hg)

end Outcome

/-- State behind a lock that a panic can poison. -/
structure Locked (σ : Type u) where
  state : σ
  poisoned : Bool
  deriving DecidableEq

namespace Locked

variable {σ : Type u} {ε : Type v} {α : Type w}

/-- A fresh lock around a state. -/
def new (s : σ) : Locked σ := ⟨s, false⟩

/-- Run `f` while holding the lock. What `f` wrote stays written even when it fails. -/
def withLock (f : σ → Outcome ε α × σ) (l : Locked σ) : Outcome ε α × Locked σ :=
  if l.poisoned then (.error .abort, l)
  else match f l.state with
    | (.error .abort, s) => (.error .abort, ⟨s, true⟩)
    | (r, s) => (r, ⟨s, false⟩)

/-- A transaction body: its writes count only when it returns a value. -/
def commit (f : σ → Outcome ε (α × σ)) (s : σ) : Outcome ε α × σ :=
  match f s with
  | .ok (a, s') => (.ok a, s')
  | .error e => (.error e, s)

/-- A transaction under the lock. -/
def tx (f : σ → Outcome ε (α × σ)) : Locked σ → Outcome ε α × Locked σ :=
  withLock (commit f)

/-- A read under the lock. -/
def query (f : σ → Outcome ε α) : Locked σ → Outcome ε α × Locked σ :=
  withLock fun s => (f s, s)

theorem withLock_poisoned (f : σ → Outcome ε α × σ) {l : Locked σ} (h : l.poisoned = true) :
    withLock f l = (.error .abort, l) := by
  rw [withLock, if_pos h]

theorem tx_poisoned (f : σ → Outcome ε (α × σ)) {l : Locked σ} (h : l.poisoned = true) :
    tx f l = (.error .abort, l) := withLock_poisoned _ h

theorem query_poisoned (f : σ → Outcome ε α) {l : Locked σ} (h : l.poisoned = true) :
    query f l = (.error .abort, l) := withLock_poisoned _ h

theorem withLock_healthy (f : σ → Outcome ε α × σ) {l : Locked σ} (h : l.poisoned = false) :
    withLock f l = match f l.state with
      | (.error .abort, s) => (.error .abort, ⟨s, true⟩)
      | (r, s) => (r, ⟨s, false⟩) := by
  rw [withLock, h]
  rfl

/-- The state after a locked call is the one `f` leaves, or the one before. -/
theorem withLock_state (f : σ → Outcome ε α × σ) (l : Locked σ) :
    (withLock f l).2.state = if l.poisoned then l.state else (f l.state).2 := by
  cases h : l.poisoned with
  | true => rw [withLock_poisoned f h]; rfl
  | false =>
      rw [withLock_healthy f h]
      cases hf : f l.state with
      | mk r s =>
          cases r with
          | ok a => rfl
          | error e => cases e <;> rfl

/-- A locked call that comes back releases a healthy lock. -/
theorem withLock_returned {f : σ → Outcome ε α × σ} {l : Locked σ} (hl : l.poisoned = false)
    (h : (withLock f l).1 ≠ .error .abort) : (withLock f l).2.poisoned = false := by
  rw [withLock_healthy f hl] at h ⊢
  cases hf : f l.state with
  | mk r t =>
      rw [hf] at h
      cases r with
      | ok a => rfl
      | error e =>
          cases e with
          | fail e => rfl
          | abort => exact absurd rfl h

theorem tx_returned {f : σ → Outcome ε (α × σ)} {l : Locked σ} (hl : l.poisoned = false)
    (h : (tx f l).1 ≠ .error .abort) : (tx f l).2.poisoned = false := withLock_returned hl h

theorem query_returned {f : σ → Outcome ε α} {l : Locked σ} (hl : l.poisoned = false)
    (h : (query f l).1 ≠ .error .abort) : (query f l).2.poisoned = false := withLock_returned hl h

/-- A read leaves the state as it was. -/
@[simp] theorem query_state (f : σ → Outcome ε α) (l : Locked σ) :
    (query f l).2.state = l.state := by
  rw [query, withLock_state]
  split <;> rfl

/-- A transaction that returns a value committed it; otherwise the state is untouched. -/
theorem tx_state (f : σ → Outcome ε (α × σ)) (l : Locked σ) :
    (tx f l).2.state = l.state ∨
      ∃ a s', f l.state = .ok (a, s') ∧ (tx f l).2.state = s' := by
  rw [tx, withLock_state]
  split
  · exact Or.inl rfl
  · unfold commit
    cases hf : f l.state with
    | ok p => exact Or.inr ⟨p.1, p.2, rfl, rfl⟩
    | error e => exact Or.inl rfl

/-- A property that a body preserves is preserved by its transaction. -/
theorem tx_preserves {f : σ → Outcome ε (α × σ)} {inv : σ → Prop} {l : Locked σ}
    (h : inv l.state) (hf : ∀ a s', f l.state = .ok (a, s') → inv s') :
    inv (tx f l).2.state := by
  rcases tx_state f l with he | ⟨a, s', ha, he⟩
  · rw [he]
    exact h
  · rw [he]
    exact hf a s' ha

/-! ### A healthy lock -/

theorem eq_new {l : Locked σ} (h : l.poisoned = false) : l = new l.state := by
  cases l with
  | mk s p =>
      cases h
      rfl

@[simp] theorem new_state (s : σ) : (new s).state = s := rfl

@[simp] theorem new_poisoned (s : σ) : (new s).poisoned = false := rfl

/-- How a transaction body that started from `s` ends on a healthy lock. -/
def finish (s : σ) : Outcome ε (α × σ) → Outcome ε α × Locked σ
  | .ok (a, s') => (.ok a, new s')
  | .error (.fail e) => (.error (.fail e), new s)
  | .error .abort => (.error .abort, ⟨s, true⟩)

/-- What comes back from under a healthy lock. -/
@[simp] theorem withLock_new_fst (f : σ → Outcome ε α × σ) (s : σ) :
    (withLock f (new s)).1 = (f s).1 := by
  rw [withLock_healthy f rfl, new_state]
  cases f s with
  | mk r s' =>
      cases r with
      | ok a => rfl
      | error e => cases e <;> rfl

@[simp] theorem finish_fst (s : σ) (r : Outcome ε (α × σ)) : (finish s r).1 = r.map Prod.fst := by
  cases r with
  | ok p => rfl
  | error e => cases e <;> rfl

theorem tx_new (f : σ → Outcome ε (α × σ)) (s : σ) : tx f (new s) = finish s (f s) := by
  rw [tx, withLock_healthy _ rfl, commit, new_state]
  cases f s with
  | ok p => rfl
  | error e => cases e <;> rfl

/-- A transaction that returned a value found the lock healthy and committed. -/
theorem tx_committed {f : σ → Outcome ε (α × σ)} {l : Locked σ} {a : α}
    (h : (tx f l).1 = .ok a) : ∃ s', f l.state = .ok (a, s') ∧ (tx f l).2.state = s' := by
  cases hp : l.poisoned with
  | true => rw [tx_poisoned f hp] at h; cases h
  | false =>
      rw [eq_new hp, tx_new] at h ⊢
      rw [new_state]
      cases hf : f l.state with
      | ok p =>
          rw [hf] at h
          cases h
          exact ⟨p.2, rfl, rfl⟩
      | error e => rw [hf] at h; cases e <;> cases h

theorem query_new (f : σ → Outcome ε α) (s : σ) :
    query f (new s) = finish s ((f s).map fun a => (a, s)) := by
  rw [query, withLock_healthy _ rfl, new_state]
  cases f s with
  | ok a => rfl
  | error e => cases e <;> rfl

/-- A query that returned a value found the lock healthy. -/
theorem query_answered {f : σ → Outcome ε α} {l : Locked σ} {a : α}
    (h : (query f l).1 = .ok a) : f l.state = .ok a := by
  cases hp : l.poisoned with
  | true => rw [query_poisoned f hp] at h; cases h
  | false =>
      rw [eq_new hp, query_new] at h
      cases hf : f l.state with
      | ok b =>
          rw [hf] at h
          cases h
          rfl
      | error e => rw [hf] at h; cases e <;> cases h

/-- A query that does not panic leaves the lock as it was. -/
theorem query_same {f : σ → Outcome ε α} {l : Locked σ} (h : f l.state ≠ .error .abort) :
    (query f l).2 = l := by
  cases hp : l.poisoned with
  | true => rw [query, withLock_poisoned _ hp]
  | false =>
      rw [eq_new hp, query_new]
      cases hf : f l.state with
      | ok a => rfl
      | error e =>
          cases e with
          | fail e => rfl
          | abort => exact absurd hf h

theorem tx_ok {f : σ → Outcome ε (α × σ)} {s s' : σ} {a : α} (h : f s = .ok (a, s')) :
    tx f (new s) = (.ok a, new s') := by
  rw [tx_new, h]
  rfl

theorem tx_fail {f : σ → Outcome ε (α × σ)} {s : σ} {e : ε} (h : f s = .error (.fail e)) :
    tx f (new s) = (.error (.fail e), new s) := by
  rw [tx_new, h]
  rfl

end Locked
