import Marbles.Adapter.Store
import Marbles.Lib.Handler
import Marbles.Lib.Table

/-!
# The engine over a shared book

`soil_engine.rs` keeps every record of the store in one book that other invocations write
at the same time. Each engine function is a program over the calls of the book: it has no
lock, so others may come between any two of them.

Of the book only the laws of `Book` are assumed: a call is atomic, and a conditional write
is applied exactly when the stored version is the expected one. The body of an entry is
what its bytes parse as, `none` when they do not.

An answer may always be an error of the host instead, and a write that fails may still have been
carried out; the laws leave that open, so the results hold either way. How many pages of one scan
are looked at is a bound of the model and not of the source: a host that keeps giving pages is not
read to the end here.
-/

namespace Marbles.Adapter.Soil

open Json (Value)
open Records (Key Version)
open Sorting (sortOn)

/-- The largest page the host gives. -/
def maxPage : Nat := 512
/-- After that many live keys a scan stops, and what the rest of the book holds is not seen. -/
def maxKeys : Nat := 100000

/-! ### The calls of a book -/

/-- The last revision of a record. -/
structure Entry where
  id : String
  body : Option Value
  version : Version
  deleted : Bool

/-- What one scan returns: some records, and where to go on. -/
structure Page where
  entries : List Entry
  next : Option String

/-- The answer to a conditional write: on a conflict it carries the stored entry. -/
structure SoilCasResult where
  applied : Bool
  entry : Entry

/-- What `SoilEngine` asks of the host, one record or one page at a time. -/
inductive Call where
  | get (id : String)
  | scan (cursor : Option String) (limit : Nat)
  | upsert (id schema : String) (body : Value)
  | delete (id : String)
  | compareAndSwap (id : String) (expected : Option Version) (schema : String)
      (body : Option Value) (deleted : Bool)

namespace Call

/-- Every answer may be an error of the host instead. -/
@[reducible] def Resp : Call → Type
  | get _ => Except String (Option Entry)
  | scan .. => Except String Page
  | upsert .. => Except String Unit
  | delete _ => Except String Unit
  | compareAndSwap .. => Except String SoilCasResult

/-- The record a call writes, with the body and the mark it gives it. -/
def writes : Call → Option (String × Option Value × Bool)
  | get _ | scan .. => none
  | upsert id _ body => some (id, some body, false)
  | delete id => some (id, none, true)
  | compareAndSwap id _ _ body deleted => some (id, body, deleted)

end Call

/-- A book as its guests see it. -/
abbrev BookI : Interface := ⟨Call, Call.Resp⟩

/-- `e` is a revision with this body and mark, later than the one it replaces. -/
structure Entry.Replaces (e : Entry) (old : Option Entry) (body : Option Value)
    (deleted : Bool) : Prop where
  mark : e.deleted = deleted
  content : deleted = false → e.body = body
  later : ∀ o ∈ old, o.version.revision < e.version.revision

/-- A book. A call that fails may still have been carried out. These laws are what the host
documents; its representation of a book is not in the source. -/
structure Book where
  State : Type
  exec : (c : Call) → State → c.Resp × State
  /-- The last revision of every record, tombstones included. -/
  stored : State → String → Option Entry
  get_ok : ∀ {id s e}, (exec (.get id) s).1 = .ok e → e = stored s id
  frame : ∀ {c s id}, (∀ w ∈ c.writes, w.1 ≠ id) → stored (exec c s).2 id = stored s id
  write : ∀ {c s id body deleted}, c.writes = some (id, body, deleted) →
    stored (exec c s).2 id = stored s id ∨
      ∃ e, stored (exec c s).2 id = some e ∧ e.Replaces (stored s id) body deleted
  /-- A conditional write is applied exactly when the stored version is the expected one. -/
  cas_iff : ∀ {id v schema body deleted s r},
    (exec (.compareAndSwap id (some v) schema body deleted) s).1 = .ok r →
      (r.applied = true ↔ (stored s id).map Entry.version = some v)
  cas_applied : ∀ {id v schema body deleted s r},
    (exec (.compareAndSwap id (some v) schema body deleted) s).1 = .ok r → r.applied = true →
      ∃ e, stored (exec (.compareAndSwap id (some v) schema body deleted) s).2 id = some e ∧
        e.Replaces (stored s id) body deleted
  cas_skipped : ∀ {id v schema body deleted s}, (stored s id).map Entry.version ≠ some v →
    stored (exec (.compareAndSwap id (some v) schema body deleted) s).2 id = stored s id

/-! ### The engine -/

/-- What a guest is given: how the JSON text of a key is read, and how many pages of one
scan are looked at. -/
structure Guest where
  decode : String → Option Key
  pages : Nat

/-- What an adapter keeps between two calls of the book: its audit counter, and the keys its last
scan found, by type. Everything else is read from the book each time. -/
structure Local where
  seq : Nat
  cache : List (String × Key)

/-- The schema a record is written under. -/
def schemaId (name : String) : String := s!"marbles.{name}@1"

/-- The id of a record: its type and the JSON text of its key. -/
def id (name : String) (key : Key) : String :=
  name ++ "/" ++ Json.Value.text (.arr (key.map Value.str))

/-- `str::split_once`. -/
def splitOnce (s : String) (c : Char) : Option (String × String) :=
  match s.toList.span (· ≠ c) with
  | (before, _ :: after) => some (String.ofList before, String.ofList after)
  | (_, []) => none

/-- The way back from the id of a record to its type and key, for ids this guest has made. -/
def Guest.parseId (g : Guest) (id : String) : Option (String × Key) := do
  let (name, encoded) ← splitOnce id '/'
  let key ← g.decode encoded
  some (name, key)

/-- The state of an entry that is not a tombstone. -/
def Entry.current (e : Entry) : Option Value := if e.deleted then none else e.body

/-- The last revision of a record, nothing when the book does not answer. -/
def entryCurrent (name : String) (key : Key) : Prog BookI (Option Entry) :=
  .call (.get (id name key)) fun r : Except String (Option Entry) => .ret (r.toOption.join)

/-- The largest audit number among some entries, tombstones included. -/
def Guest.maxSeq (g : Guest) (entries : List Entry) (max : Nat) : Nat :=
  entries.foldl (fun max e => match g.parseId e.id with
    | some (name, first :: _) =>
        if name = marblesEventKind then Nat.max max ((parseI64 first).getD 0).toNat else max
    | _ => max) max

/-- Scan for the largest audit number. The bound on the pages is one of the model; a book that hands
out one cursor twice ends the scan. -/
def Guest.maxEventSeq (g : Guest) : Nat → Option String → Nat → Prog BookI (Option Nat)
  | 0, _, _ => .ret none
  | pages + 1, cursor, max =>
      .call (.scan cursor maxPage) fun r : Except String Page => match r with
        | .error _ => .ret none
        | .ok page =>
            let max := g.maxSeq page.entries max
            if page.next = none ∨ page.next = cursor then .ret (some max)
            else g.maxEventSeq pages page.next max

/-- The keys of some entries that are not tombstones, as long as there are not too many. -/
def Guest.collect (g : Guest) (entries : List Entry) (found : List (String × Key)) :
    List (String × Key) :=
  entries.foldl (fun found e =>
    if e.deleted ∨ found.length ≥ maxKeys then found else found ++ (g.parseId e.id).toList) found

/-- Scan for the keys of all records. -/
def Guest.scanKeys (g : Guest) :
    Nat → Option String → List (String × Key) → Prog BookI (Option (List (String × Key)))
  | 0, _, _ => .ret none
  | pages + 1, cursor, found =>
      .call (.scan cursor maxPage) fun r : Except String Page => match r with
        | .error _ => .ret none
        | .ok page =>
            let found := g.collect page.entries found
            if found.length ≥ maxKeys ∨ page.next = none ∨ page.next = cursor then
              .ret (some found)
            else g.scanKeys pages page.next found

/-- The keys of one type among those a scan found. -/
def keysOf (name : String) (found : List (String × Key)) : List Key :=
  sortOn (fun key => key) ((found.filter fun f => f.1 = name).map Prod.snd)

/-- An unconditional write; the book must answer it. -/
def appended (l : Local) : Except String Unit → Prog BookI (Option (Unit × Option Local))
  | .error _ => .ret none
  | .ok _ => .ret (some ((), some { l with cache := [] }))

/-- What a conditional write reports. -/
def casResult (r : SoilCasResult) : Records.CasResult :=
  ⟨r.applied, some r.entry.version, r.entry.current, r.entry.deleted⟩

def swapped (l : Local) : Except String SoilCasResult →
    Prog BookI (Option (Except String Records.CasResult × Option Local))
  | .error message => .ret (some (.error message, some l))
  | .ok r => .ret (some (.ok (casResult r),
      some { l with cache := if r.applied then [] else l.cache }))

/-- The engine functions of an adapter that is open. Each function is at most one call of the book,
so an engine call is as atomic as the book is. -/
def Guest.engine (g : Guest) (l : Local) :
    (c : Adapter.Call) → Prog BookI (Option (c.Resp × Option Local))
  | .append name key data deleted =>
      if deleted then .call (.delete (id name key)) (appended l)
      else .call (.upsert (id name key) (schemaId name) data) (appended l)
  | .current name key => do
      let e ← entryCurrent name key
      pure (some (e.bind Entry.current, some l))
  | .keys name =>
      if l.cache.any fun f => f.1 = name then .ret (some (keysOf name l.cache, some l))
      else do
        match ← g.scanKeys g.pages none [] with
        | none => pure none
        | some found => pure (some (keysOf name found, some { l with cache := found }))
  | .version name key => do
      let e ← entryCurrent name key
      pure (some (e.map Entry.version, some l))
  | .compareAndSwap name key expected data deleted =>
      .call (.compareAndSwap (id name key) expected (schemaId name)
        (if deleted then none else some data) deleted) (swapped l)
  | .nextSeq => .ret (some (l.seq + 1, some { l with seq := l.seq + 1 }))

/-- An adapter that is not open yet reads the audit number first. -/
def Guest.handler (g : Guest) : Handler InnerI BookI (Option Local)
  | c, some l => g.engine l c
  | c, none => do
      match ← g.maxEventSeq g.pages none 0 with
      | none => pure none
      | some seq => g.engine ⟨seq, []⟩ c

/-! ### What is left of an engine function -/

/-- The calls an adapter may answer by itself. -/
def isLocal : Adapter.Call → Bool
  | .keys _ | .nextSeq => true
  | _ => false

/-- What is left of answering `c`: more scans, or the one call that answers it. The scans that open
a guest come before the one call that answers. -/
inductive Serves (g : Guest) : (c : Adapter.Call) → Prog BookI (Option (c.Resp × Option Local)) →
    Prop
  | panics {c : Adapter.Call} : Serves g c (.ret none)
  | found {c : Adapter.Call} (h : isLocal c = true) (a : c.Resp × Option Local) :
      Serves g c (.ret (some a))
  | scans {c : Adapter.Call} {cursor : Option String}
      {k : Except String Page → Prog BookI (Option (c.Resp × Option Local))}
      (h : ∀ r, Serves g c (k r)) : Serves g c (.call (.scan cursor maxPage) k)
  | asks {c : Adapter.Call} (h : isLocal c = false) (l : Local) : Serves g c (g.engine l c)

variable {g : Guest} {c : Adapter.Call}

theorem serves_maxEventSeq {f : Option Nat → Prog BookI (Option (c.Resp × Option Local))}
    (hf : ∀ o, Serves g c (f o)) (pages : Nat) (cursor : Option String) (max : Nat) :
    Serves g c (g.maxEventSeq pages cursor max >>= f) := by
  induction pages generalizing cursor max with
  | zero => exact hf none
  | succ pages ih =>
      refine .scans fun r => ?_
      cases r with
      | error e => exact hf none
      | ok page =>
          dsimp only
          split
          · exact hf _
          · exact ih _ _

theorem serves_scanKeys {f : Option (List (String × Key)) →
    Prog BookI (Option (c.Resp × Option Local))}
    (hf : ∀ o, Serves g c (f o)) (pages : Nat) (cursor : Option String)
    (found : List (String × Key)) : Serves g c (g.scanKeys pages cursor found >>= f) := by
  induction pages generalizing cursor found with
  | zero => exact hf none
  | succ pages ih =>
      refine .scans fun r => ?_
      cases r with
      | error e => exact hf none
      | ok page =>
          dsimp only
          split
          · exact hf _
          · exact ih _ _

theorem serves_engine (l : Local) : Serves g c (g.engine l c) := by
  cases c with
  | keys name =>
      rw [Guest.engine]
      split
      · exact .found rfl _
      · refine serves_scanKeys (fun o => ?_) _ _ _
        cases o with
        | none => exact .panics
        | some found => exact .found rfl _
  | nextSeq => exact .found rfl _
  | append | current | version | compareAndSwap => exact .asks rfl l

theorem serves_handler (g : Guest) : ∀ (c : Adapter.Call) (l : Option Local),
    Serves g c (g.handler c l)
  | c, some l => serves_engine l
  | c, none => serves_maxEventSeq (fun o => by
      cases o with
      | none => exact .panics
      | some seq => exact serves_engine _) _ _ _

/-- An answer needs the book, but for keys and audit numbers. -/
theorem isLocal_of_silent (h : Client.Silent g.handler c) : isLocal c = true := by
  obtain ⟨l, a, hret⟩ := h
  cases l with
  | none =>
      rw [Guest.handler] at hret
      cases hpages : g.pages with
      | zero => rw [hpages] at hret; cases hret
      | succ pages => rw [hpages] at hret; cases hret
  | some l =>
      cases c with
      | keys | nextSeq => rfl
      | append name key data deleted =>
          rw [Guest.handler, Guest.engine] at hret
          split at hret <;> cases hret
      | current | version | compareAndSwap => cases hret

/-! ### One call of the book -/

namespace Book

variable (b : Book)

/-- The document of a record. -/
def docAt (s : b.State) (rid : String) : Option Value := (b.stored s rid).bind Entry.current

/-- A record is left alone, or gets a later revision. -/
theorem later (c : Call) (s : b.State) (rid : String) :
    b.stored (b.exec c s).2 rid = b.stored s rid ∨ ∃ e, b.stored (b.exec c s).2 rid = some e ∧
      ∀ o ∈ b.stored s rid, o.version.revision < e.version.revision := by
  by_cases hw : ∃ body deleted, c.writes = some (rid, body, deleted)
  · obtain ⟨body, deleted, hw⟩ := hw
    rcases b.write hw with hsame | ⟨e, hstored, he⟩
    · exact Or.inl hsame
    · exact Or.inr ⟨e, hstored, he.later⟩
  · refine Or.inl (b.frame fun w hmem hid => hw ⟨w.2.1, w.2.2, ?_⟩)
    rw [← hid]
    exact hmem

theorem docAt_of_replaces {b : Book} {s s' : b.State} {rid : String} {e : Entry} {data : Value}
    {deleted : Bool} (hstored : b.stored s' rid = some e)
    (he : e.Replaces (b.stored s rid) (if deleted then none else some data) deleted) :
    b.docAt s' rid = if deleted then none else some data := by
  rw [docAt, hstored, Option.bind_some, Entry.current, he.mark]
  cases deleted with
  | true => rfl
  | false => exact he.content rfl

end Book

/-- The record a call of the adapter may write. -/
def target : Adapter.Call → Option String
  | .append name key _ _ | .compareAndSwap name key _ _ _ => some (id name key)
  | _ => none

/-- What is known after a call of the book on behalf of `c`, which has been answered or not. -/
def Answers (b : Book) (s s' : b.State) : (c : Adapter.Call) → Option c.Resp → Prop
  | .current name key, answer => ∀ a ∈ answer, a = none ∨ a = b.docAt s (id name key)
  | .version name key, answer =>
      ∀ a ∈ answer, a = none ∨ a = (b.stored s (id name key)).map Entry.version
  | .append name key data deleted, _ => b.stored s' (id name key) = b.stored s (id name key) ∨
      b.docAt s' (id name key) = if deleted then none else some data
  | .compareAndSwap name key (some v) data deleted, answer =>
      (b.stored s' (id name key) = b.stored s (id name key) ∨
        ((b.stored s (id name key)).map Entry.version = some v ∧
          b.docAt s' (id name key) = if deleted then none else some data)) ∧
      ∀ result, answer = some (.ok result) → result.applied = true →
        b.docAt s' (id name key) = if deleted then none else some data
  | _, _ => True

/-- The answer at the end of what is left. -/
def answerOf {c : Adapter.Call} : Prog BookI (Option (c.Resp × Option Local)) → Option c.Resp
  | .ret o => o.map Prod.fst
  | .call _ _ => none

/-- What one call of the book on behalf of `c` does. -/
structure Turn (g : Guest) (b : Book) (c : Adapter.Call) (s s' : b.State)
    (q : Prog BookI (Option (c.Resp × Option Local))) : Prop where
  serves : (∃ o, q = .ret o) ∨ (Serves g c q ∧ b.stored s' = b.stored s)
  frame : ∀ rid, target c ≠ some rid → b.stored s' rid = b.stored s rid
  answers : Answers b s s' c (answerOf q)

theorem answers_local {b : Book} {s s' : b.State} (h : isLocal c = true) (o : Option c.Resp) :
    Answers b s s' c o := by
  cases c with
  | keys | nextSeq => exact trivial
  | append | current | version | compareAndSwap => cases h

/-- A write on behalf of `c` reaches the record of `c` only. -/
theorem frame_of_writes {b : Book} {a : Call} {w : String × Option Value × Bool}
    (hw : a.writes = some w) (s : b.State) {rid : String} (hne : some w.1 ≠ some rid) :
    b.stored (b.exec a s).2 rid = b.stored s rid :=
  b.frame fun w' hw' heq => hne (by rw [← heq, Option.some.inj (hw.symm.trans hw')])

theorem turn_append (b : Book) (s : b.State) (l : Local) {name : String} {key : Key} {data : Value}
    {deleted : Bool} {a : Call} (hw : a.writes =
      some (id name key, if deleted then none else some data, deleted)) (r : Except String Unit) :
    Turn g b (.append name key data deleted) s (b.exec a s).2 (appended l r) := by
  refine ⟨?_, fun rid hrid => frame_of_writes hw s hrid, ?_⟩
  · cases r with
    | error e => exact Or.inl ⟨_, rfl⟩
    | ok u => exact Or.inl ⟨_, rfl⟩
  · rcases @Book.write b a s _ _ _ hw with hsame | ⟨e, hstored, he⟩
    · exact Or.inl hsame
    · exact Or.inr (Book.docAt_of_replaces hstored he)

theorem turn_compareAndSwap (b : Book) (s : b.State) (l : Local) (name : String) (key : Key)
    (expected : Option Version) (data : Value) (deleted : Bool) :
    let a : Call := .compareAndSwap (id name key) expected (schemaId name)
      (if deleted then none else some data) deleted
    Turn g b (.compareAndSwap name key expected data deleted) s (b.exec a s).2
      (swapped l (b.exec a s).1) := by
  intro a
  have hw : a.writes = some (id name key, if deleted then none else some data, deleted) := rfl
  refine ⟨?_, fun rid hrid => frame_of_writes hw s hrid, ?_⟩
  · cases (b.exec a s).1 with
    | error e => exact Or.inl ⟨_, rfl⟩
    | ok r => exact Or.inl ⟨_, rfl⟩
  -- With a version expected, the swap replaces that version or is skipped; a swap that reports
  -- having applied has stored its data.
  · cases expected with
    | none => exact trivial
    | some v =>
        constructor
        · by_cases hv : (b.stored s (id name key)).map Entry.version = some v
          · rcases @Book.write b a s _ _ _ hw with hsame | ⟨e, hstored, he⟩
            · exact Or.inl hsame
            · exact Or.inr ⟨hv, Book.docAt_of_replaces hstored he⟩
          · exact Or.inl (b.cas_skipped hv)
        · intro result hresult happlied
          cases hr : (b.exec a s).1 with
          | error e =>
              rw [hr] at hresult
              cases hresult
          | ok r =>
              rw [hr] at hresult
              obtain rfl : casResult r = result := by
                have h := Option.some.inj hresult
                exact Except.ok.inj h
              obtain ⟨e, hstored, he⟩ := b.cas_applied hr happlied
              exact Book.docAt_of_replaces hstored he

/-- An engine function asks the book once. -/
theorem turn_engine (b : Book) (s : b.State) {l : Local} (hlocal : isLocal c = false) {a : Call}
    {k : a.Resp → Prog BookI (Option (c.Resp × Option Local))} (h : g.engine l c = .call a k) :
    Turn g b c s (b.exec a s).2 (k (b.exec a s).1) := by
  -- A read answers from one record and writes none; an append and a swap write their own record.
  cases c with
  | keys | nextSeq => cases hlocal
  | current name key =>
      cases h
      refine ⟨Or.inl ⟨_, rfl⟩, fun rid _ => b.frame fun w hw =>
        absurd hw (by simp [Call.writes]), ?_⟩
      rintro a ⟨⟩
      cases hget : (b.exec (.get (id name key)) s).1 with
      | error e => exact Or.inl rfl
      | ok e => exact Or.inr (by rw [b.get_ok hget]; rfl)
  | version name key =>
      cases h
      refine ⟨Or.inl ⟨_, rfl⟩, fun rid _ => b.frame fun w hw =>
        absurd hw (by simp [Call.writes]), ?_⟩
      rintro a ⟨⟩
      cases hget : (b.exec (.get (id name key)) s).1 with
      | error e => exact Or.inl rfl
      | ok e => exact Or.inr (by rw [b.get_ok hget]; rfl)
  | append name key data deleted =>
      cases deleted with
      | true =>
          cases h
          exact turn_append b s l rfl _
      | false =>
          cases h
          exact turn_append b s l rfl _
  | compareAndSwap name key expected data deleted =>
      cases h
      exact turn_compareAndSwap b s l name key expected data deleted

/-- A call that needs the book has no answer before it was asked. -/
theorem Serves.answerOf_eq_none {q : Prog BookI (Option (c.Resp × Option Local))}
    (h : Serves g c q) (hlocal : isLocal c = false) : answerOf q = none := by
  cases h with
  | panics | scans => rfl
  | found h => rw [h] at hlocal; cases hlocal
  | asks h l =>
      cases c with
      | keys | nextSeq => cases hlocal
      | append name key data deleted => cases deleted <;> rfl
      | current | version | compareAndSwap => rfl

/-- Nothing is known before there is an answer, but that nothing was written. -/
theorem answers_none {b : Book} {s s' : b.State} (h : b.stored s' = b.stored s) :
    Answers b s s' c none := by
  cases c with
  | keys | nextSeq => exact trivial
  | current | version => exact fun a ha => absurd ha (by simp)
  | append => exact Or.inl (congrFun h _)
  | compareAndSwap name key expected data deleted =>
      cases expected with
      | none => exact trivial
      | some v => exact ⟨Or.inl (congrFun h _), fun result hresult => by cases hresult⟩

theorem Serves.answers {b : Book} {s s' : b.State} {q : Prog BookI (Option (c.Resp × Option Local))}
    (h : Serves g c q) (hstored : b.stored s' = b.stored s) : Answers b s s' c (answerOf q) := by
  cases hlocal : isLocal c with
  | true => exact answers_local hlocal _
  | false =>
      rw [h.answerOf_eq_none hlocal]
      exact answers_none hstored

/-- What is left of answering `c` goes on with one call of the book. -/
theorem turn (b : Book) (s : b.State) {a : Call}
    {k : a.Resp → Prog BookI (Option (c.Resp × Option Local))}
    (h : Serves g c (@Prog.call BookI _ a k)) : Turn g b c s (b.exec a s).2 (k (b.exec a s).1) := by
  generalize hp : @Prog.call BookI _ a k = p at h
  cases h with
  | panics | found => cases hp
  | @scans cursor k hk =>
      cases hp
      have hstored : b.stored (b.exec (.scan cursor maxPage) s).2 = b.stored s :=
        funext fun rid => b.frame fun w hw => absurd hw (by simp [Call.writes])
      exact ⟨Or.inr ⟨hk _, hstored⟩, fun rid _ => congrFun hstored rid, (hk _).answers hstored⟩
  | asks hlocal l => exact turn_engine b s hlocal hp.symm

/-! ### Invocations -/

/-- One call on an adapter: a fresh one, or one that earlier calls of the same invocation have left
as it is. A fresh one has the store to open first, which writes. -/
structure Invocation where
  cfg : Config
  adapter : Option Local
  op : Op

/-- Opening an adapter records the store's own id. -/
def seedMeta (cfg : Config) : AdapterM Unit :=
  append storeMetaKind [cfg.storeId] (.obj [("value", .str cfg.storeId)])

/-- What an invocation runs. A fresh adapter writes its own id to the book before anything else. -/
def Invocation.program (v : Invocation) : Prog InnerI (Result Reply) :=
  match v.adapter with
  | some _ => (method v.cfg v.op).run
  | none => (do
      seedMeta v.cfg
      method v.cfg v.op : AdapterM Reply).run

end Marbles.Adapter.Soil
