import Marbles.Adapter.AuditTrail
import Marbles.Adapter.Trail

/-!
# Audit numbers across reopenings

A store on a trail file is used, dropped and opened again, any number of times; it may be
dropped between two operations or inside one. The numbers of its events only ever grow, and every
outbound event has the number of its own event. The tombstones a dropped project leaves for its
events repeat their numbers.

The engine is the clock that survives a restart, because it is numbered by its trail. Between two
opens the run is one of calls, possibly cut off inside the last; `Grew` covers both. The numbers
of tombstones are excluded from the statement, for a tombstone carries the number of the event it
removes.
-/

namespace Marbles.Adapter

open Records (Durable PersistedRevision)

/-- What happens to a store on a file. -/
inductive Turn where
  | op (op : Op)
  /-- The store is dropped when the operation has asked `n` times, which is before the operation
  for `n = 0`, and opened again. -/
  | drop (op : Op) (n : Nat)

section

variable (fromStr : String → Except String PersistedRevision) (cfg : Config)

/-- What the store is dropped with. -/
def dropped (op : Op) (n : Nat) (s : Locked DurableInner) : DurableInner := haltFile cfg [op] 0 n s

/-- A trail that cannot be read changes nothing. -/
def turn : Turn → Locked DurableInner → Locked DurableInner
  | .op op, s => stepFile cfg op s
  | .drop op n, s => match openFile fromStr cfg (dropped cfg op n s).durable.file with
      | .ok s' => s'
      | .error _ => s

/-- The lines in the trail are read as they were written. -/
def ReadsBack (s : Locked DurableInner) : Turn → Prop
  | .op _ => True
  | .drop op n => ∀ rev, (dropped cfg op n s).durable.engine.Holds rev → fromStr rev.line = .ok rev

end

section

variable {fromStr : String → Except String PersistedRevision} {cfg : Config} {s : DurableInner}

theorem Resting.run {α : Type} {m : AdapterM α} (hm : Safe m) (hs : Resting s.inner) :
    Resting (Prog.run execDurable m.run s).2.inner := by
  have hstate : (Prog.run exec m.run s.inner).2 = (Prog.run execDurable m.run s).2.inner :=
    congrArg Prod.snd (run_inner m.run s)
  rw [← hstate]
  exact (hm.run _ hs).2

theorem Resting.halt {α : Type} {m : AdapterM α} (hm : Safe m) (hs : Resting s.inner) (n : Nat) :
    Halting (Prog.halt execDurable n m.run s).inner := by
  have hhalt : Prog.halt exec n m.run s.inner = (Prog.halt execDurable n m.run s).inner :=
    Prog.halt_project (f := DurableInner.inner) execDurable_inner ..
  rw [← hhalt]
  exact (hm.run _ hs).1.halt n

/-- Whenever a program is cut off, some revisions have been written. -/
theorem grew_halt {α : Type} (n : Nat) (p : Prog InnerI α) (s : DurableInner) :
    ∃ revs, Durable.Grew s.durable revs (Prog.halt execDurable n p s).durable := by
  induction p generalizing n s with
  | ret a =>
      rw [Prog.halt_ret]
      exact ⟨[], .refl _⟩
  | call c k ih =>
      cases n with
      | zero => exact ⟨[], .refl _⟩
      | succ n =>
          obtain ⟨first, -, hfirst⟩ := grew_call c s
          obtain ⟨revs, hrevs⟩ := ih _ n (execDurable c s).2
          exact ⟨first ++ revs, hfirst.trans hrevs⟩

/-- The store is between two methods, and its trail has everything that was ever written. -/
structure OnTrail (s : Locked DurableInner) : Prop where
  resting : Resting s.state.inner
  written : ∃ revs, Durable.Grew Durable.durable revs s.state.durable

theorem OnTrail.op {s : Locked DurableInner} (h : OnTrail s) (op : Op) :
    OnTrail (stepFile cfg op s) := by
  have hstate : (stepFile cfg op s).state = if s.poisoned then s.state else
      (Prog.run execDurable (method cfg op).run s.state).2 := Locked.withLock_state ..
  obtain ⟨revs, hrevs⟩ := h.written
  constructor
  · rw [hstate]
    split
    · exact h.resting
    · exact h.resting.run (.method cfg op)
  · rw [hstate]
    split
    · exact ⟨revs, hrevs⟩
    · obtain ⟨more, hmore, -⟩ := grew_prog (method cfg op).run s.state
      exact ⟨revs ++ more, hrevs.trans hmore⟩

/-- What a store is dropped with. -/
theorem OnTrail.dropped {s : Locked DurableInner} (h : OnTrail s) (op : Op) (n : Nat) :
    Halting (dropped cfg op n s).inner ∧
      ∃ revs, Durable.Grew Durable.durable revs (Adapter.dropped cfg op n s).durable := by
  obtain ⟨revs, hrevs⟩ := h.written
  unfold Adapter.dropped haltFile
  split
  · exact ⟨h.resting.halting, revs, hrevs⟩
  · obtain ⟨more, hmore⟩ := grew_halt n (method cfg op).run s.state
    exact ⟨h.resting.halt (.method cfg op) n, revs ++ more, hrevs.trans hmore⟩

/-- The counter starts again where the engine has got to. -/
theorem OnTrail.opened {d : Durable} (hd : Durable.Reopens fromStr d)
    (hhalting : Audited d.engine d.engine.seq)
    (hwritten : ∃ revs, Durable.Grew Durable.durable revs d) :
    ∃ s, openFile fromStr cfg d.file = .ok s ∧ OnTrail s := by
  unfold openFile
  rw [hd.load]
  obtain ⟨revs, hrevs⟩ := hwritten
  refine ⟨_, rfl, ⟨Nat.le_succ _, ?_⟩, _, hrevs.trans (.append ..)⟩
  exact hhalting.append_other (by decide) (by decide) ..

theorem OnTrail.turn {s : Locked DurableInner} (h : OnTrail s) (t : Turn)
    (hreads : ReadsBack fromStr cfg s t) : OnTrail (turn fromStr cfg t s) := by
  cases t with
  | op op => exact h.op op
  | drop op n =>
      obtain ⟨hhalting, revs, hrevs⟩ := @OnTrail.dropped cfg s h op n
      have hreopens := (Durable.Reopens.durable fromStr).grew hrevs fun rev hrev =>
        hreads rev (hrevs.holds (Or.inl hrev))
      obtain ⟨s', hopen, hs'⟩ := @OnTrail.opened fromStr cfg _ hreopens hhalting ⟨revs, hrevs⟩
      rw [Adapter.turn, hopen]
      exact hs'

theorem audited_new : Audited Records.Engine.new 0 where
  numbers := ⟨[], List.Pairwise.nil, rfl⟩
  tombstones := fun _ hr => absurd hr List.not_mem_nil
  outbound := fun _ hr => absurd hr List.not_mem_nil
  bounded := fun _ hr => absurd hr List.not_mem_nil

/-- However often a store is dropped and opened again, the numbers of its events only grow, and its
outbound events have the numbers of the events they tell of. The counter is kept in memory and
starts again where the engine has got to, which is never behind it. -/
theorem audit_numbers_grow {turns : List Turn} {s₀ : Locked DurableInner}
    (hopen : openFile fromStr cfg none = .ok s₀)
    (hreads : Machine.Meets (turn fromStr cfg) (ReadsBack fromStr cfg) turns s₀) :
    AuditTrail (Machine.run (turn fromStr cfg) turns s₀).state.durable.engine := by
  obtain ⟨s, hs, hstart⟩ :=
    @OnTrail.opened fromStr cfg _ (.durable fromStr) audited_new ⟨[], .refl _⟩
  obtain rfl := Except.ok.inj (hopen.symm.trans hs)
  have hrun := Machine.invariant_of_meets OnTrail (fun _ t h hreads => h.turn t hreads) turns hstart
    hreads
  exact hrun.resting.audited.toAuditTrail

end

/-! ### What a dropped project leaves -/

/-- An issue is created and its project dropped. -/
def dropTurns : List Turn :=
  [.op (.ensureProject "p" "/p" "p" 0), .op (.create splitSpec [] 0), .op (.dropProject "p")]

/-- With the tombstones the numbers do not grow. -/
theorem tombstone_repeats : ∃ (fromStr : String → Except String PersistedRevision)
    (s₀ : Locked DurableInner), openFile fromStr {} none = .ok s₀ ∧
      Machine.Meets (turn fromStr {}) (ReadsBack fromStr {}) dropTurns s₀ ∧
      ¬ ∃ ns : List Nat, ns.Pairwise (· < ·) ∧
        ((Machine.run (turn fromStr {}) dropTurns s₀).state.durable.engine.history
          marblesEventKind).reverse.map (·.key) = ns.map fun n => [n.repr] := by
  refine ⟨Durable.readerOf splitTrail, splitOpened, rfl, ⟨trivial, trivial, trivial, trivial⟩, ?_⟩
  have hkeys : ((Machine.run (turn (Durable.readerOf splitTrail) {}) dropTurns
      splitOpened).state.durable.engine.history marblesEventKind).reverse.map (·.key) =
        [["1"], ["1"]] := by
    decide +kernel
  intro ⟨ns, hns, hmap⟩
  rw [hkeys] at hmap
  have htwo : ns.length = 2 := by simpa using (congrArg List.length hmap).symm
  obtain ⟨n, m, rfl⟩ := List.length_eq_two.mp htwo
  obtain ⟨hn, hm⟩ := List.cons.inj hmap
  have hsame : n.repr = m.repr :=
    (List.singleton_inj.mp hn).symm.trans (List.singleton_inj.mp (List.singleton_inj.mp hm))
  have hlt : n < m := by simpa using hns
  exact absurd (repr_inj hsame) (Nat.ne_of_lt hlt)

/-- Used, dropped before a read, and used again. -/
theorem reopened_numbers : AuditTrail (Machine.run (turn (Durable.readerOf splitTrail) {})
    (splitOps.map .op ++ [.drop (.get "p-1") 0, .op (.addLabel "p-1" "l" "me" 1)])
      splitOpened).state.durable.engine := by
  refine audit_numbers_grow rfl (Machine.meets_append.mpr ⟨⟨trivial, trivial, trivial⟩, ?_, trivial,
    trivial⟩)
  have hdropped : dropped {} (.get "p-1") 0 (runFile {} splitOps splitOpened) =
      (runFile {} splitOps splitOpened).state := by
    rw [dropped, haltFile, Prog.halt_zero, ite_self]
  intro rev hrev
  exact holds_splitTrail rev (hdropped ▸ hrev)

end Marbles.Adapter
