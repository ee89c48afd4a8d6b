import Marbles.Adapter.Store

/-!
# What the adapter reads and writes in memory

In memory a program that only reads is a function of the documents (`Reads`), and one that
writes has one lemma saying which documents it leaves. The later proofs about the adapter
use these and never run a program call by call again.

`Reads` is closed under binding and under the loops of the methods, so that a method which only
reads is turned into a fold over lists in one go. Loops that collect come out as `filterMap`,
which is the shape the queries of the local store have; that makes the comparison of the two a
comparison of lists.
-/

namespace Marbles.Adapter

open Json (Value)
open Records (Engine Key)
open Sorting (sortOn)

/-- The current document under a key. -/
def Inner.doc (s : Inner) (name : String) (key : Key) : Option Value := s.engine.current name key

/-- Run alone, `m` answers `a` and leaves the state as it was. It is the specification of everything
the adapter looks at: callers rewrite with it and never look into the method. -/
structure Reads {α : Type} (m : AdapterM α) (s : Inner) (a : α) : Prop where
  eq : runA m s = (.ok a, s)

theorem runA_bind_reads {α β : Type} {m : AdapterM α} {f : α → AdapterM β} {s : Inner} {a : α}
    (h : Reads m s a) : runA (m >>= f) s = runA (f a) s := Prog.runE_bind_ok h.eq

theorem runA_bind_ok {α β : Type} {m : AdapterM α} {f : α → AdapterM β} {s s' : Inner} {a : α}
    (h : runA m s = (.ok a, s')) : runA (m >>= f) s = runA (f a) s' := Prog.runE_bind_ok h

theorem runA_bind_error {α β : Type} {m : AdapterM α} {f : α → AdapterM β} {s s' : Inner}
    {e : Fault Error} (h : runA m s = (.error e, s')) : runA (m >>= f) s = (.error e, s') :=
  Prog.runE_bind_error h

@[simp] theorem runA_map {α β : Type} (g : α → β) (m : AdapterM α) (s : Inner) :
    runA (g <$> m) s = ((runA m s).1.map g, (runA m s).2) := by
  rw [map_eq_pure_bind, runA, Prog.runE_bind, ← runA]
  cases runA m s with
  | mk r s' => cases r <;> rfl

theorem runA_unit {α : Type} (b : α) (m : AdapterM Unit) (s : Inner) :
    runA (do m; pure b) s = ((runA m s).1.map fun _ => b, (runA m s).2) := by
  have h := runA_map (fun _ => b) m s
  rwa [map_eq_pure_bind] at h

namespace Reads

variable {α β : Type} {s : Inner}

theorem pure (a : α) : Reads (Pure.pure a) s a := ⟨rfl⟩

theorem bind {m : AdapterM α} {f : α → AdapterM β} {a : α} {b : β} (hm : Reads m s a)
    (hf : Reads (f a) s b) : Reads (m >>= f) s b := ⟨(runA_bind_reads hm).trans hf.eq⟩

theorem map {m : AdapterM α} {a : α} (g : α → β) (hm : Reads m s a) :
    Reads (do let a ← m; Pure.pure (g a)) s (g a) := hm.bind (.pure _)

/-- A loop that only reads is a fold. -/
theorem foldlM {f : β → α → AdapterM β} {g : β → α → β} {xs : List α} {b : β}
    (h : ∀ b, ∀ x ∈ xs, Reads (f b x) s (g b x)) : Reads (xs.foldlM f b) s (xs.foldl g b) := by
  induction xs generalizing b with
  | nil => exact .pure b
  | cons x xs ih =>
      rw [List.foldlM_cons, List.foldl_cons]
      exact (h b x (List.mem_cons_self ..)).bind
        (ih fun b x hx => h b x (List.mem_cons_of_mem _ hx))

theorem current (name : String) (key : Key) : Reads (Adapter.current name key) s (s.doc name key) :=
  ⟨rfl⟩

theorem keys (name : String) : Reads (Adapter.keys name) s (s.engine.keys name) := ⟨rfl⟩

end Reads

/-! ### Loops that collect -/

/-- A fold that appends at most one item at each turn. -/
theorem foldl_collect {α β : Type} (f : α → Option β) (xs : List α) (found : List β) :
    xs.foldl (fun found x => match f x with
      | some y => found ++ [y]
      | none => found) found = found ++ xs.filterMap f := by
  induction xs generalizing found with
  | nil => exact (List.append_nil found).symm
  | cons x xs ih =>
      rw [List.foldl_cons, ih]
      cases h : f x with
      | none => simp [h]
      | some y => simp [h]

/-- What was picked leads back to what it was picked from, in the same order. -/
theorem map_filterMap_sublist {α β : Type} {f : α → Option β} {g : β → α} {l : List α}
    (h : ∀ x ∈ l, ∀ y, f x = some y → g y = x) : ((l.filterMap f).map g).Sublist l := by
  induction l with
  | nil => exact List.nil_sublist _
  | cons x l ih =>
      have hrest := ih fun x hx => h x (List.mem_cons_of_mem _ hx)
      cases hx : f x with
      | none =>
          rw [List.filterMap_cons_none hx]
          exact hrest.cons x
      | some y =>
          rw [List.filterMap_cons_some hx, List.map_cons, h x (List.mem_cons_self ..) y hx]
          exact hrest.cons_cons x

/-- A loop that reads something at each turn and may append one item. -/
theorem Reads.collect {α β : Type} {s : Inner} {f : α → Option β} {xs : List α}
    {body : List β → α → AdapterM (List β)}
    (h : ∀ found, ∀ x ∈ xs, Reads (body found x) s (match f x with
      | some y => found ++ [y]
      | none => found)) : Reads (xs.foldlM body []) s (xs.filterMap f) := by
  have hfold := Reads.foldlM (b := []) h
  rwa [foldl_collect, List.nil_append] at hfold

/-! ### What is there -/

namespace Inner

variable (s : Inner)

/-- The live documents of a type. -/
def docs (name : String) : List (Key × Value) :=
  (s.engine.keys name).filterMap fun key => (s.doc name key).map fun data => (key, data)

/-- The dependency edges. -/
def edges : List (String × String) := (s.engine.keys dependencyKind).filterMap edgeOf

/-- What an issue waits for, in the order of the edges. -/
def parents (id : String) : List String := (s.edges.filter fun e => e.1 = id).map Prod.snd

/-- What waits for an issue. -/
def children (id : String) : List String := (s.edges.filter fun e => e.2 = id).map Prod.fst

/-- What the document says its status is. -/
def statusOf (id : String) : Option String :=
  (s.doc issueKind [id]).bind fun data => (data.field "status").asStr

/-- There is such an issue and it is not closed. -/
def isOpen (id : String) : Bool := (s.statusOf id).any fun st => !isTerminal st

/-- The issue a document is reported as. -/
def view (id : String) (data : Value) : Issue :=
  issueOfJson id data (sortOn (fun p => p) (s.parents id)) ((s.parents id).countP s.isOpen)
    ((s.children id).countP s.isOpen)

/-- The issue a document is read as in this state. -/
def rowToIssue (id : String) : Option Issue := (s.doc issueKind [id]).map (s.view id)

/-- All issues, in the order of their keys. -/
def allIssues : List Issue :=
  (s.engine.keys issueKind).filterMap fun key => key.head?.bind s.rowToIssue

end Inner

@[simp] theorem mem_docs {s : Inner} {name : String} {d : Key × Value} :
    d ∈ s.docs name ↔ s.doc name d.1 = some d.2 := by
  unfold Inner.docs
  rw [List.mem_filterMap]
  constructor
  · rintro ⟨key, -, hdata⟩
    obtain ⟨data, hdoc, rfl⟩ := Option.map_eq_some_iff.mp hdata
    exact hdoc
  · intro h
    exact ⟨d.1, Engine.mem_keys.mpr ⟨d.2, h⟩, by rw [h]; rfl⟩

theorem nodup_docs (s : Inner) (name : String) : ((s.docs name).map Prod.fst).Nodup := by
  have hkeys : (s.docs name).map Prod.fst = (s.engine.keys name).filter fun key =>
      (s.doc name key).isSome := by
    unfold Inner.docs
    induction s.engine.keys name with
    | nil => rfl
    | cons key keys ih =>
        cases h : s.doc name key with
        | none => simp [h, ih]
        | some data => simp [h, ih]
  rw [hkeys]
  exact (Engine.nodup_keys s.engine name).filter _

section Programs

variable {s : Inner}

theorem reads_docs (name : String) : Reads (docs name) s (s.docs name) := by
  refine (Reads.keys name).bind (Reads.collect fun found key _ => ?_)
  refine (Reads.current name key).bind ?_
  cases s.doc name key with
  | none => exact .pure _
  | some data => exact .pure _

theorem reads_loadIssue (id : String) : Reads (loadIssue id) s (s.doc issueKind [id]) :=
  .current _ _

theorem reads_edges : Reads edges s s.edges := (Reads.keys dependencyKind).map _

theorem reads_statusOf (id : String) : Reads (statusOf id) s (s.statusOf id) :=
  (reads_loadIssue id).map _

theorem reads_countOpen (ids : List String) : Reads (countOpen ids) s (ids.countP s.isOpen) := by
  have hcount : ∀ (ids : List String) (n : Nat),
      ids.foldl (fun n id => if s.isOpen id then n + 1 else n) n = n + ids.countP s.isOpen := by
    intro ids
    induction ids with
    | nil => exact fun n => rfl
    | cons id ids ih =>
        intro n
        rw [List.foldl_cons, ih, List.countP_cons]
        split <;> omega
  have hfold : Reads (countOpen ids) s
      (ids.foldl (fun n id => if s.isOpen id then n + 1 else n) 0) :=
    Reads.foldlM fun n id _ => (reads_statusOf id).map _
  rwa [hcount, Nat.zero_add] at hfold

theorem reads_rowToIssue (id : String) : Reads (rowToIssue id) s (s.rowToIssue id) := by
  refine (reads_loadIssue id).bind ?_
  unfold Inner.rowToIssue
  cases s.doc issueKind [id] with
  | none => exact .pure none
  | some data =>
      refine reads_edges.bind ((reads_countOpen _).bind ?_)
      exact reads_edges.bind ((reads_countOpen _).map _)

/-- An issue that is there is read. -/
theorem reads_get {id : String} {issue : Issue} (h : s.rowToIssue id = some issue) :
    Reads (get id) s issue := by
  refine (reads_rowToIssue id).bind ?_
  rw [h]
  exact .pure issue

theorem get_missing {id : String} (h : s.rowToIssue id = none) :
    runA (get id) s = (.error (.fail (.notFound id)), s) := by
  have hread := reads_rowToIssue (s := s) id
  rw [h] at hread
  exact runA_bind_reads hread

theorem reads_allIssues : Reads allIssues s s.allIssues := by
  refine (Reads.keys issueKind).bind (Reads.collect fun found key _ => ?_)
  cases key with
  | nil => exact .pure found
  | cons id rest =>
      refine (reads_rowToIssue id).bind ?_
      simp only [List.head?_cons, Option.bind_some]
      cases s.rowToIssue id with
      | none => exact .pure _
      | some issue => exact .pure _

theorem reads_reachable (source target : String) :
    Reads (reachable source target) s (Graph.reachesDepthFirst s.edges source target) := by
  unfold reachable Graph.reachesDepthFirst
  by_cases h : source = target
  · rw [if_pos h, decide_eq_true h]
    exact .pure true
  · rw [if_neg h, decide_eq_false h]
    exact reads_edges.map _

/-- Is every dependency there and closed? -/
def Inner.unblocked (s : Inner) (id : String) : Bool :=
  (s.parents id).all fun p => (s.statusOf p).any isTerminal

theorem reads_unblocked (id : String) : Reads (unblocked id) s (s.unblocked id) := by
  have hall : ∀ (ids : List String) (free : Bool),
      ids.foldl (fun free p => if free then (s.statusOf p).any isTerminal else false) free =
        (free && ids.all fun p => (s.statusOf p).any isTerminal) := by
    intro ids
    induction ids with
    | nil => simp
    | cons p ids ih =>
        intro free
        rw [List.foldl_cons, ih]
        cases free <;> simp
  have hfold : Reads (unblocked id) s ((s.parents id).foldl
      (fun free p => if free then (s.statusOf p).any isTerminal else false) true) := by
    refine reads_edges.bind (Reads.foldlM fun free p _ => ?_)
    cases free with
    | true => exact (reads_statusOf p).map _
    | false => exact .pure false
  rwa [hall, Bool.true_and] at hfold

/-! ### Writing -/

/-- The state after one more revision. -/
def Inner.put (s : Inner) (name : String) (key : Key) (data : Value) (deleted : Bool) : Inner :=
  { s with engine := s.engine.append name key data deleted }

@[simp] theorem runA_append (name : String) (key : Key) (data : Value) :
    runA (append name key data) s = (.ok (), s.put name key data false) := rfl

@[simp] theorem runA_tombstone (name : String) (key : Key) :
    runA (tombstone name key) s = (.ok (), s.put name key .null true) := rfl

@[simp] theorem doc_put (name n : String) (key k : Key) (data : Value) (deleted : Bool) :
    (s.put name key data deleted).doc n k =
      if n = name ∧ k = key then (if deleted then none else some data) else s.doc n k :=
  Engine.current_append ..

/-- The state after an issue has been stored. -/
def Inner.save (s : Inner) (issue : Issue) : Inner :=
  s.put issueKind [issue.id] (issueToJson issue) false

@[simp]
theorem runA_saveIssue (issue : Issue) : runA (saveIssue issue) s = (.ok (), s.save issue) := rfl

@[simp] theorem doc_save (issue : Issue) (n : String) (k : Key) :
    (s.save issue).doc n k =
      if n = issueKind ∧ k = [issue.id] then some (issueToJson issue) else s.doc n k := by
  rw [Inner.save, doc_put]
  rfl

/-- The state after an outbound event. -/
def Inner.logOutbound (s : Inner) (storeId id : String) (seq : Nat) (ts : Int) (event : String) :
    Inner :=
  match s.doc issueKind [id] with
  | some data => s.put outboundEventKind [seq.repr]
      (outboundToJson seq storeId id (textOf "project" data) ts event) false
  | none => s

@[simp] theorem runA_logOutbound (storeId id : String) (seq : Nat) (ts : Int) (event : String) :
    runA (logOutbound storeId id seq ts event) s =
      (.ok (), s.logOutbound storeId id seq ts event) := by
  refine (runA_bind_reads (reads_loadIssue id)).trans ?_
  unfold Inner.logOutbound
  cases s.doc issueKind [id] with
  | none => rfl
  | some data => rfl

/-- The state after the audit counter has been used. -/
def Inner.count (s : Inner) : Inner := { s with seq := s.seq + 1 }

/-- The state after an event has been logged. It is the one state change that touches three things
at once: the counter, the event and the outbox. -/
def Inner.log (s : Inner) (storeId id : String) (ts : Int) (actor event detail : String) : Inner :=
  (s.count.put marblesEventKind [(s.seq + 1).repr] (eventToJson id ts actor event detail)
    false).logOutbound storeId id (s.seq + 1) ts event

@[simp] theorem runA_logEvent (storeId id : String) (ts : Int) (actor event detail : String) :
    runA (logEvent storeId id ts actor event detail) s =
      (.ok (), s.log storeId id ts actor event detail) := runA_logOutbound ..

@[simp] theorem seq_save (issue : Issue) : (s.save issue).seq = s.seq := rfl

@[simp] theorem seq_log (storeId id : String) (ts : Int) (actor event detail : String) :
    (s.log storeId id ts actor event detail).seq = s.seq + 1 := by
  unfold Inner.log Inner.logOutbound
  split <;> rfl

/-- An event is a document of its own; besides it only the outbox changes. -/
theorem doc_log {storeId id : String} {ts : Int} {actor event detail : String} {n : String}
    {k : Key} (h : n ≠ outboundEventKind) :
    (s.log storeId id ts actor event detail).doc n k =
      if n = marblesEventKind ∧ k = [(s.seq + 1).repr] then
        some (eventToJson id ts actor event detail) else s.doc n k := by
  have hevent : (s.count.put marblesEventKind [(s.seq + 1).repr]
      (eventToJson id ts actor event detail) false).doc n k =
      if n = marblesEventKind ∧ k = [(s.seq + 1).repr] then
        some (eventToJson id ts actor event detail) else s.doc n k := by
    rw [doc_put]
    rfl
  unfold Inner.log Inner.logOutbound
  split
  · rw [doc_put, if_neg (fun hn => h hn.1)]
    exact hevent
  · exact hevent

end Programs

end Marbles.Adapter
