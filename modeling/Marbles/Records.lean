import Mathlib.Data.List.Lex
import Mathlib.Data.String.Basic
import Mathlib.Logic.Function.Basic
import Marbles.Lib.Json
import Marbles.Lib.Sort

/-!
# The records engine

The append-only model of `records.rs`. Of each record type the engine keeps the trail of
revisions and the set of live keys; the current state of a key is its last revision,
unless that is a tombstone. That the live set lists the keys with a current state is an
invariant of the engine, carried as a field.

The tombstone is part of the trail and not the end of it: a key can be written again after it was
removed, under the next number. The invariant that ties the live set to the trails is a field of
the engine and is proved once for `push`, so no later result has to carry it along.
-/

namespace Marbles.Records

open Json (Value)
open Sorting (sortOn)

/-- A natural key, ordered component by component. -/
abbrev Key := List String

/-- The revision and origin a conditional write is checked against. -/
structure Version where
  revision : Nat
  origin : String
  deriving DecidableEq, Repr

/-- The result of a conditional write; on a conflict it carries the current state. -/
structure CasResult where
  applied : Bool
  version : Option Version
  data : Option Value
  deleted : Bool

/-! ### Trails -/

/-- A point in the trail of a record. -/
structure Revision where
  seq : Nat
  key : Key
  data : Value
  deleted : Bool

/-- The revisions of one record type, the newest first. -/
abbrev Trail := List Revision

namespace Trail

/-- The last revision of a key, tombstones included. -/
def latest (trail : Trail) (key : Key) : Option Revision := trail.find? fun r => r.key = key

/-- The current state of a key. -/
def current (trail : Trail) (key : Key) : Option Value :=
  (trail.latest key).bind fun r => if r.deleted then none else some r.data

@[simp] theorem latest_cons (r : Revision) (trail : Trail) (key : Key) :
    latest (r :: trail) key = if key = r.key then some r else trail.latest key := by
  rw [latest, List.find?_cons]
  by_cases h : key = r.key
  · simp [h]
  · simp [h, Ne.symm h, latest]

end Trail

/-! ### The engine in memory -/

/-- The trails and live keys of each record type, and the last sequence number. The last two
fields are what makes the live set trustworthy for the methods that list keys. -/
structure Engine where
  history : String → Trail
  live : String → List Key
  seq : Nat
  nodup : ∀ name, (live name).Nodup
  live_iff : ∀ name key, key ∈ live name ↔ ((history name).current key).isSome = true

namespace Engine

/-- An engine without revisions. -/
def new : Engine := ⟨fun _ => [], fun _ => [], 0, fun _ => List.nodup_nil, fun _ _ => by
  simp [Trail.current, Trail.latest]⟩

/-- The current state of a key. -/
def current (e : Engine) (name : String) (key : Key) : Option Value :=
  (e.history name).current key

/-- The live keys of a record type, in key order. -/
def keys (e : Engine) (name : String) : List Key := sortOn (fun k => k) (e.live name)

/-- The live set after a revision of a key. -/
def relive (live : List Key) (key : Key) (deleted : Bool) : List Key :=
  if deleted then live.filter (· ≠ key) else if key ∈ live then live else key :: live

@[simp] theorem mem_relive {live : List Key} {key k : Key} {deleted : Bool} :
    k ∈ relive live key deleted ↔ if k = key then deleted = false else k ∈ live := by
  unfold relive
  cases deleted with
  | true => by_cases h : k = key <;> simp [h]
  | false =>
      by_cases hmem : key ∈ live
      · by_cases h : k = key <;> simp [h, hmem]
      · by_cases h : k = key <;> simp [h, hmem]

theorem nodup_relive {live : List Key} {key : Key} {deleted : Bool} (h : live.Nodup) :
    (relive live key deleted).Nodup := by
  unfold relive
  cases deleted with
  | true => exact h.filter _
  | false =>
      by_cases hmem : key ∈ live
      · simpa [hmem] using h
      · simpa [hmem] using h

/-- Pushing a revision keeps the live keys apart. -/
theorem nodup_push {live : String → List Key} (h : ∀ name, (live name).Nodup) (name : String)
    (r : Revision) (n : String) :
    (Function.update live name (relive (live name) r.key r.deleted) n).Nodup := by
  by_cases hn : n = name
  · subst hn
    rw [Function.update_self]
    exact nodup_relive (h n)
  · rw [Function.update_of_ne hn]
    exact h n

/-- After pushing a revision the live keys are the ones with a current state. -/
theorem live_iff_push {history : String → Trail} {live : String → List Key}
    (h : ∀ name key, key ∈ live name ↔ ((history name).current key).isSome = true)
    (name : String) (r : Revision) (n : String) (k : Key) :
    k ∈ Function.update live name (relive (live name) r.key r.deleted) n ↔
      ((Function.update history name (r :: history name) n).current k).isSome = true := by
  by_cases hn : n = name
  · subst hn
    rw [Function.update_self, Function.update_self, mem_relive, Trail.current, Trail.latest_cons]
    by_cases hk : k = r.key
    · cases hdeleted : r.deleted <;> simp [hk, hdeleted]
    · simp only [hk, if_false]
      exact h n k
  · rw [Function.update_of_ne hn, Function.update_of_ne hn]
    exact h n k

/-- Append a revision under the next sequence number. -/
def append (e : Engine) (name : String) (key : Key) (data : Value) (deleted : Bool) : Engine where
  history := Function.update e.history name (⟨e.seq + 1, key, data, deleted⟩ :: e.history name)
  live := Function.update e.live name (relive (e.live name) key deleted)
  seq := e.seq + 1
  nodup := nodup_push e.nodup name ⟨e.seq + 1, key, data, deleted⟩
  live_iff := live_iff_push e.live_iff name ⟨e.seq + 1, key, data, deleted⟩

/-- The version of the last revision of a key, tombstones included. -/
def version (e : Engine) (name : String) (key : Key) : Option Version :=
  ((e.history name).latest key).map fun r => ⟨r.seq, "memory"⟩

/-- Create, replace or delete, if the last revision is the expected one. A conflict is an answer and
no error; only expecting a version of a document that has none is one. -/
def compareAndSwap (e : Engine) (name : String) (key : Key) (expected : Option Version)
    (data : Value) (deleted : Bool) : Except String CasResult × Engine :=
  let write : Except String CasResult × Engine :=
    (.ok ⟨true, some ⟨e.seq + 1, "memory"⟩, if deleted then none else some data, deleted⟩,
      e.append name key data deleted)
  let conflict := fun r : Revision =>
    (.ok ⟨false, some ⟨r.seq, "memory"⟩, if r.deleted then none else some r.data, r.deleted⟩, e)
  match expected, (e.history name).latest key with
  | none, none => write
  | none, some r => if r.deleted then write else conflict r
  | some _, none => (.error "not-found", e)
  | some v, some r => if v = ⟨r.seq, "memory"⟩ then write else conflict r

/-! ### What the operations leave -/

@[simp] theorem mem_keys {e : Engine} {name : String} {key : Key} :
    key ∈ e.keys name ↔ ∃ data, e.current name key = some data := by
  rw [keys, Sorting.mem_sortOn, e.live_iff, Option.isSome_iff_exists]
  rfl

theorem nodup_keys (e : Engine) (name : String) : (e.keys name).Nodup :=
  Sorting.nodup_sortOn.mpr (e.nodup name)

/-- The last revision of a key says what its current state is. -/
@[simp] theorem current_append (e : Engine) (name n : String) (key k : Key) (data : Value)
    (deleted : Bool) : (e.append name key data deleted).current n k =
      if n = name ∧ k = key then (if deleted then none else some data) else e.current n k := by
  unfold current append
  dsimp only
  by_cases h : n = name
  · subst h
    rw [Function.update_self, Trail.current, Trail.latest_cons]
    by_cases hk : k = key
    · cases deleted <;> simp [hk]
    · simp only [hk, if_false, and_false]
      rfl
  · rw [Function.update_of_ne h]
    simp [h]

theorem current_append_ne {e : Engine} {name n : String} {key k : Key} {data : Value}
    {deleted : Bool} (h : ¬ (n = name ∧ k = key)) :
    (e.append name key data deleted).current n k = e.current n k := by
  rw [current_append, if_neg h]

theorem keys_append_ne {e : Engine} {name n : String} {key : Key} {data : Value}
    {deleted : Bool} (h : n ≠ name) : (e.append name key data deleted).keys n = e.keys n := by
  unfold keys append
  dsimp only
  rw [Function.update_of_ne h]

/-- A live key has a version. -/
theorem version_of_current {e : Engine} {name : String} {key : Key} {data : Value}
    (h : e.current name key = some data) : ∃ v, e.version name key = some v := by
  obtain ⟨r, hr, -⟩ := Option.bind_eq_some_iff.mp h
  exact ⟨_, by rw [version, hr]; rfl⟩

/-- A conditional write under the version just read goes through. -/
theorem compareAndSwap_version {e : Engine} {name : String} {key : Key} {v : Version}
    (h : e.version name key = some v) (data : Value) (deleted : Bool) :
    ∃ result, result.applied = true ∧
      e.compareAndSwap name key (some v) data deleted =
        (.ok result, e.append name key data deleted) := by
  obtain ⟨r, hr, rfl⟩ := Option.map_eq_some_iff.mp h
  refine ⟨⟨true, some ⟨e.seq + 1, "memory"⟩, if deleted then none else some data, deleted⟩, rfl, ?_⟩
  unfold compareAndSwap
  rw [hr]
  exact if_pos rfl

/-- A conditional write is a write or nothing. -/
theorem compareAndSwap_engine (e : Engine) (name : String) (key : Key) (expected : Option Version)
    (data : Value) (deleted : Bool) :
    (e.compareAndSwap name key expected data deleted).2 = e.append name key data deleted ∨
      (e.compareAndSwap name key expected data deleted).2 = e := by
  unfold compareAndSwap
  cases expected with
  | none =>
      cases (e.history name).latest key with
      | none => exact Or.inl rfl
      | some r =>
          dsimp only
          split
          · exact Or.inl rfl
          · exact Or.inr rfl
  | some v =>
      cases (e.history name).latest key with
      | none => exact Or.inr rfl
      | some r =>
          dsimp only
          split
          · exact Or.inl rfl
          · exact Or.inr rfl

end Engine

end Marbles.Records
