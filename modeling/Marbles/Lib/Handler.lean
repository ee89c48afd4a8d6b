import Marbles.Lib.Prog

/-!
# Interfaces on top of each other

A handler answers the calls of one interface by programs over a lower one, with a state of
the caller's own. Callers that share a component of the lower interface take turns at every
single call of it: between two calls that serve one call above, others may come.

The trace of a caller lists the calls *above*, each entered when the last call below it has
been answered. So a `Prog.Spec` over the upper interface says what a caller does in every
schedule of the lower calls.

Both interfaces have their own traces. The invariant that ties them together says that the part of
the program below that is still to run is what is left of answering the call above.
-/

universe u

/-- How the calls of `I` are answered over `J`. No answer means that the caller panics. -/
abbrev Handler (I J : Interface) (L : Type) :=
  (c : I.Call) → L → Prog J (Option (I.Resp c × L))

/-- Where a caller stands. -/
inductive Stage (I J : Interface) (L α : Type) where
  | returned (a : α)
  | panicked
  | pending (c : I.Call) (k : I.Resp c → Prog I α) (b : J.Call)
      (rest : J.Resp b → Prog J (Option (I.Resp c × L)))

/-- A caller and the calls it has been answered so far. -/
structure Client (I J : Interface) (L α : Type) where
  stage : Stage I J L α
  trace : List (Event I)

namespace Client

variable {I J : Interface} {L α : Type}

/-- Go on with a program until it needs an answer from below. -/
def enter (h : Handler I J L) : Prog I α → L → List (Event I) → Client I J L α
  | .ret a, _, tr => ⟨.returned a, tr⟩
  | .call c k, l, tr => match h c l with
      | .ret none => ⟨.panicked, tr⟩
      | .ret (some (r, l')) => enter h (k r) l' (tr ++ [⟨c, r⟩])
      | .call b rest => ⟨.pending c k b rest, tr⟩

/-- Go on with what is left of the handling of `c`. -/
def settle (h : Handler I J L) (c : I.Call) (k : I.Resp c → Prog I α) (tr : List (Event I)) :
    Prog J (Option (I.Resp c × L)) → Client I J L α
  | .ret none => ⟨.panicked, tr⟩
  | .ret (some (r, l)) => enter h (k r) l (tr ++ [⟨c, r⟩])
  | .call b rest => ⟨.pending c k b rest, tr⟩

@[simp] theorem enter_call (h : Handler I J L) (c : I.Call) (k : I.Resp c → Prog I α) (l : L)
    (tr : List (Event I)) : enter h (.call c k) l tr = settle h c k tr (h c l) := by
  rw [enter]
  unfold settle
  rfl

/-- What the caller has returned, if it has. -/
def returned? (w : Client I J L α) : Option α :=
  match w.stage with
  | .returned a => some a
  | _ => none

@[simp] theorem returned?_eq_some {w : Client I J L α} {a : α} :
    w.returned? = some a ↔ w.stage = .returned a := by
  unfold returned?
  cases w.stage with
  | returned a' => simp
  | panicked => simp
  | pending c k b rest => simp

/-- The caller waits for the component. -/
def IsPending (w : Client I J L α) : Prop := ∃ c k b rest, w.stage = .pending c k b rest

/-! ### What a caller adds to its trace -/

/-- The calls `h` may answer without asking below. -/
def Silent (h : Handler I J L) (c : I.Call) : Prop := ∃ l a, h c l = .ret (some a)

/-- Entering a program only adds calls that are answered without asking below. -/
theorem enter_trace (h : Handler I J L) (p : Prog I α) (l : L) (tr : List (Event I)) :
    ∃ silent, (enter h p l tr).trace = tr ++ silent ∧ ∀ e ∈ silent, Silent h e.call := by
  induction p generalizing l tr with
  | ret a => exact ⟨[], (List.append_nil tr).symm, fun e he => absurd he List.not_mem_nil⟩
  | call c k ih =>
      cases hc : h c l with
      | call b rest =>
          refine ⟨[], ?_, fun e he => absurd he List.not_mem_nil⟩
          rw [enter_call, hc, List.append_nil]
          rfl
      | ret o =>
          cases o with
          | none =>
              refine ⟨[], ?_, fun e he => absurd he List.not_mem_nil⟩
              rw [enter_call, hc, List.append_nil]
              rfl
          | some a =>
              -- a call that the handler answers by itself is silent, and so is what follows
              obtain ⟨silent, htrace, hsilent⟩ := ih a.1 a.2 (tr ++ [⟨c, a.1⟩])
              refine ⟨⟨c, a.1⟩ :: silent, ?_, fun e he => ?_⟩
              · rw [enter_call, hc, List.append_cons]
                exact htrace
              · rcases List.mem_cons.mp he with rfl | he
                · exact ⟨l, _, hc⟩
                · exact hsilent e he

/-- A caller that has been answered from below still waits or has panicked, or goes on with
the answer of its call. -/
theorem settle_cases (h : Handler I J L) (c : I.Call) (k : I.Resp c → Prog I α)
    (tr : List (Event I)) (q : Prog J (Option (I.Resp c × L))) :
    (settle h c k tr q).trace = tr ∨ ∃ r l silent, q = .ret (some (r, l)) ∧
      (settle h c k tr q).trace = tr ++ ⟨c, r⟩ :: silent ∧ ∀ e ∈ silent, Silent h e.call := by
  cases q with
  | call b rest => exact Or.inl rfl
  | ret o =>
      cases o with
      | none => exact Or.inl rfl
      | some a =>
          obtain ⟨silent, htrace, hsilent⟩ := enter_trace h (k a.1) a.2 (tr ++ [⟨c, a.1⟩])
          refine Or.inr ⟨a.1, a.2, silent, rfl, ?_, hsilent⟩
          rw [List.append_cons]
          exact htrace

/-! ### Specifications -/

variable {guard : I.Call → List (Event I) → Prop} {post : α → List (Event I) → Prop}

/-- The rest of the caller's program meets a specification. -/
def Meets (guard : I.Call → List (Event I) → Prop) (post : α → List (Event I) → Prop)
    (w : Client I J L α) : Prop :=
  match w.stage with
  | .returned a => post a w.trace
  | .panicked => True
  | .pending c k _ _ => guard c w.trace ∧ ∀ r, Prog.Spec guard post (k r) (w.trace ++ [⟨c, r⟩])

theorem meets_enter {h : Handler I J L} {p : Prog I α} {tr : List (Event I)} (l : L)
    (hp : Prog.Spec guard post p tr) : Meets guard post (enter h p l tr) := by
  induction p generalizing tr l with
  | ret a => exact hp
  | call c k ih =>
      rw [enter_call]
      cases h c l with
      | call b rest => exact hp
      | ret o =>
          cases o with
          | none => exact trivial
          | some a => exact ih a.1 a.2 (hp.2 a.1)

theorem meets_settle {h : Handler I J L} {c : I.Call} {k : I.Resp c → Prog I α}
    {tr : List (Event I)} (hk : guard c tr ∧ ∀ r, Prog.Spec guard post (k r) (tr ++ [⟨c, r⟩])) :
    ∀ q : Prog J (Option (I.Resp c × L)), Meets guard post (settle h c k tr q)
  | .ret none => trivial
  | .ret (some (r, l)) => meets_enter l (hk.2 r)
  | .call _ _ => hk

/-! ### What is left of a handler -/

/-- What is left of the handling of the pending call satisfies `q`. -/
def Handling (q : (c : I.Call) → Prog J (Option (I.Resp c × L)) → Prop) (w : Client I J L α) :
    Prop :=
  match w.stage with
  | .pending c _ b rest => q c (.call b rest)
  | _ => True

variable {q : (c : I.Call) → Prog J (Option (I.Resp c × L)) → Prop}

theorem handling_enter {h : Handler I J L} (hq : ∀ c l, q c (h c l)) (p : Prog I α) (l : L)
    (tr : List (Event I)) : Handling q (enter h p l tr) := by
  induction p generalizing l tr with
  | ret a => trivial
  | call c k ih =>
      have hc := hq c l
      rw [enter_call]
      cases hp : h c l with
      | call b rest =>
          rw [hp] at hc
          exact hc
      | ret o =>
          cases o with
          | none => exact trivial
          | some a => exact ih a.1 a.2 _

theorem handling_settle {h : Handler I J L} (hq : ∀ c l, q c (h c l)) {c : I.Call}
    (k : I.Resp c → Prog I α) (tr : List (Event I)) :
    ∀ {p : Prog J (Option (I.Resp c × L))}, ((∃ o, p = .ret o) ∨ q c p) →
      Handling q (settle h c k tr p)
  | .ret none, _ => trivial
  | .ret (some (r, l)), _ => handling_enter hq (k r) l _
  | .call _ _, hp => hp.resolve_left fun ho => by obtain ⟨o, ho⟩ := ho; cases ho

end Client

/-! ### Callers that share a component -/

/-- A component and its callers. -/
structure Shared (ι : Type) (I J : Interface) (L : Type) (σ : Type u) (α : Type) where
  state : σ
  clients : ι → Client I J L α

namespace Shared

variable {ι : Type} [DecidableEq ι] {I J : Interface} {L α : Type} {σ : Type u}

/-- Every caller at the start of its program. -/
def init (h : Handler I J L) (s : σ) (p : ι → Prog I α × L) : Shared ι I J L σ α :=
  ⟨s, fun i => .enter h (p i).1 (p i).2 []⟩

/-- The component answers the call that caller `i` waits for, if it waits. -/
def step (h : Handler I J L) (exec : (b : J.Call) → σ → J.Resp b × σ) (i : ι)
    (w : Shared ι I J L σ α) : Shared ι I J L σ α :=
  match (w.clients i).stage with
  | .pending c k b rest =>
      ⟨(exec b w.state).2, Function.update w.clients i
        (.settle h c k (w.clients i).trace (rest (exec b w.state).1))⟩
  | _ => w

/-- The callers are answered in the order of the schedule. -/
def run (h : Handler I J L) (exec : (b : J.Call) → σ → J.Resp b × σ) (schedule : List ι)
    (w : Shared ι I J L σ α) : Shared ι I J L σ α := Machine.run (step h exec) schedule w

/-- Caller `i` has returned `a`. -/
def Returned (w : Shared ι I J L σ α) (i : ι) (a : α) : Prop :=
  (w.clients i).stage = .returned a

variable {h : Handler I J L} {exec : (b : J.Call) → σ → J.Resp b × σ}

theorem step_pending {w : Shared ι I J L σ α} {i : ι} {c : I.Call} {k : I.Resp c → Prog I α}
    {b : J.Call} {rest : J.Resp b → Prog J (Option (I.Resp c × L))}
    (hi : (w.clients i).stage = .pending c k b rest) :
    step h exec i w = ⟨(exec b w.state).2, Function.update w.clients i
      (.settle h c k (w.clients i).trace (rest (exec b w.state).1))⟩ := by
  rw [step, hi]

theorem step_idle {w : Shared ι I J L σ α} {i : ι} (hi : ¬ (w.clients i).IsPending) :
    step h exec i w = w := by
  unfold step
  cases hstage : (w.clients i).stage with
  | returned a => rfl
  | panicked => rfl
  | pending c k b rest => exact absurd ⟨c, k, b, rest, hstage⟩ hi

theorem step_clients_ne {w : Shared ι I J L σ α} {i j : ι} (hj : j ≠ i) :
    (step h exec i w).clients j = w.clients j := by
  unfold step
  split
  · exact Function.update_of_ne hj ..
  · rfl

end Shared
