import Marbles.Adapter.Methods
import Marbles.Db.Metrics
import Marbles.Lib.Machine

/-!
# The adapter in memory

Over the in-memory engine every question is answered at once, and the adapter holds one
lock for the whole of a method: a method that panics poisons it.

Nothing can come between two questions here, so a method runs to its end or panics, and the state
after it is that of its last write. The trait methods take the lock first; after a panic every one
of them panics too.
-/

namespace Marbles.Adapter

open Json (Value)
open Records (Engine Key)
open Sorting (groupOn)

/-! ### Pipeline measurements -/

/-- A backslash and a quote are escaped. A line end is not, unlike in the other stores. -/
def prometheusLabel (value : String) : String :=
  String.join (value.toList.map fun c => match c with
    | '\\' => "\\\\"
    | '"' => "\\\""
    | c => c.toString)

/-- One sample: a name, its labels and a value. -/
def sample (name : String) (labels : List (String × String)) (value : Int) : String :=
  name ++ "\x7b" ++ ",".intercalate (labels.map fun l =>
    l.1 ++ "=\"" ++ prometheusLabel l.2 ++ "\"") ++ "\x7d " ++ toString value ++ "\n"

/-- One sample for each pair of labels, counting how often it occurs. -/
def countSamples (name second : String) (pairs : List (String × String)) : String :=
  String.join ((groupOn (fun p => p) (pairs.map toLex)).map fun g =>
    sample name [("project", (ofLex g.1).1), (second, (ofLex g.1).2)] g.2.length)

/-- Sum and number of the durations of each project that are not negative. -/
def durationSamples (metric : String) (spans : List (String × Int × Int)) : String :=
  String.join ((groupOn (fun s => s.1) (spans.filter fun s => s.2.1 ≤ s.2.2)).map fun g =>
    let sum := g.2.foldl (fun sum s => wrapI64 (sum + (s.2.2 - s.2.1))) 0
    sample (metric ++ "_sum") [("project", g.1)] sum ++
      sample (metric ++ "_count") [("project", g.1)] g.2.length)

/-- The age of the oldest of these issues in each project. -/
def ageSamples (now : Int) (issues : List Issue) : String :=
  String.join ((groupOn (fun issue => issue.project) issues).map fun g =>
    let age := ((g.2.map fun issue => wrapI64 (now - issue.createdAt)).max?).getD 0
    sample "marbles_queue_oldest_age_seconds" [("project", g.1)] (max age 0))

/-- The project and kind of a live claim. -/
def activeClaim (now : Int) (data : Value) : Option (String × String) :=
  if (data.field "assignee") = .null || (data.field "expires_at").asInt.getD 0 ≤ now then none
  else some (textOf "project" data, textOf "actor_kind" data)

/-- The project and kind of an event about an issue that is there. -/
def eventLabels (event : Value) : AdapterM (Option (String × String)) := do
  match (event.field "issue_id").asStr with
  | none => pure none
  | some id => do
      pure ((← loadIssue id).map fun data => (textOf "project" data, textOf "event" event))

/-- The first time an event that satisfies `p` was recorded for an issue. -/
def firstEvent (p : Value → Bool) (id : String) : AdapterM (Option Int) := do
  let times := (← docs marblesEventKind).filterMap fun d =>
    if (d.2.field "issue_id").asStr = some id && p d.2 then
      some ((d.2.field "ts").asInt.getD 0) else none
  pure times.min?

/-- The spans of the issues that have both ends. An issue without one of them has no duration and is
left out of the sums. -/
def spans (span : String → Value → AdapterM (Option (Int × Int))) :
    AdapterM (List (String × Int × Int)) := do
  (← docs issueKind).foldlM (fun found d => do
    match d.1 with
    | id :: _ => do
        match ← span id d.2 with
        | some (first, last) => pure (found ++ [(textOf "project" d.2, first, last)])
        | none => pure found
    | [] => pure found) []

/-- From creation to the first claim. -/
def claimLatency (id : String) (data : Value) : AdapterM (Option (Int × Int)) := do
  pure ((← firstEvent (fun e => (e.field "event").asStr = some "claimed") id).map fun first =>
    ((data.field "created_at").asInt.getD 0, first))

/-- From creation to close. -/
def cycleTime (_ : String) (data : Value) : AdapterM (Option (Int × Int)) :=
  pure do
    let closed ← (data.field "closed_at").asInt
    let created ← (data.field "created_at").asInt
    some (created, closed)

/-- From the first review to close. -/
def reviewTime (id : String) (data : Value) : AdapterM (Option (Int × Int)) := do
  match (data.field "closed_at").asInt with
  | none => pure none
  | some closed => do
      let review := fun e : Value => (e.field "event").asStr = some "status" &&
        (e.field "detail").asStr = some "→ review"
      pure ((← firstEvent review id).map fun first => (first, closed))

/-- The samples in the order of the local store, each group from a pass of its own over the
documents. -/
def prometheusMetrics (now : Int) : AdapterM String := do
  let issues := (← docs issueKind).map fun d => (textOf "project" d.2, textOf "status" d.2)
  let queued ← ready none now
  let claims := (← docs issueKind).filterMap fun d => activeClaim now d.2
  let events ← (← docs marblesEventKind).foldlM (fun found d => do
    pure (found ++ (← eventLabels d.2).toList)) []
  let latency ← spans claimLatency
  let cycle ← spans cycleTime
  let review ← spans reviewTime
  pure (Db.metricsHeader ++ countSamples "marbles_issues" "status" issues ++
    ageSamples now queued ++ countSamples "marbles_claims_active" "actor_kind" claims ++
    countSamples "marbles_events_total" "event" events ++
    durationSamples "marbles_claim_latency_seconds" latency ++
    durationSamples "marbles_cycle_time_seconds" cycle ++
    durationSamples "marbles_review_time_seconds" review)

/-! ### The contract -/

section Contract

variable (cfg : Config)

/-- The method a call of the contract stands for. The adapter visits lapsed claims in the
order of their ids, whatever order the call carries. -/
def method : Op → AdapterM Reply
  | .ensureProject slug root idPrefix ts => do
      ensureProject slug root idPrefix ts
      pure .unit
  | .dropProject slug => .removal <$> dropProject slug
  | .projects => .projects <$> projects
  | .ensureFolder folder now => do
      ensureFolder folder now
      pure .unit
  | .setProjectFolder project folder now => do
      setProjectFolder project folder now
      pure .unit
  | .folderView => .folders <$> folderView
  | .pendingEvents now limit => .events <$> pendingEvents now limit
  | .markEventDelivered seq now => do
      markEventDelivered seq now
      pure .unit
  | .markEventFailed seq nextAttemptAt error => do
      markEventFailed seq nextAttemptAt error
      pure .unit
  | .create spec draws now => .id <$> create cfg spec draws now
  | .get id => .issue <$> get id
  | .list project all onlyId => .issues <$> list project all onlyId
  | .ready project now => .issues <$> ready project now
  | .update id patch actor now => .issue <$> update cfg id patch actor now
  | .addLabel id label actor now => do
      addLabel cfg id label actor now
      pure .unit
  | .removeLabel id label actor now => do
      removeLabel cfg id label actor now
      pure .unit
  | .addDep child parent actor now => do
      addDep cfg child parent actor now
      pure .unit
  | .removeDep child parent actor now => do
      removeDep cfg child parent actor now
      pure .unit
  | .claim req now => .receipt <$> claim cfg req now
  | .touch id assignee now => .expiry <$> touch cfg id assignee now
  | .release id actor now => do
      release cfg id actor now
      pure .unit
  | .sweep now _ => .swept <$> sweep cfg now
  | .close id reason evidence actor now => .issue <$> close cfg id reason evidence actor now
  | .supersede id replacement actor now => do
      supersede cfg id replacement actor now
      pure .unit
  | .history id => .history <$> history id
  | .stats => .stats <$> stats
  | .prometheusMetrics now => .text <$> prometheusMetrics now

/-! ### In memory -/

/-- The engine and the audit counter. -/
structure Inner where
  engine : Engine
  seq : Nat

/-- The in-memory engine answers at once. So under the lock a method is a function of the state, and
no other caller is seen. -/
def exec : (c : Call) → Inner → c.Resp × Inner
  | .append name key data deleted, s =>
      ((), { s with engine := s.engine.append name key data deleted })
  | .current name key, s => (s.engine.current name key, s)
  | .keys name, s => (s.engine.keys name, s)
  | .version name key, s => (s.engine.version name key, s)
  | .compareAndSwap name key expected data deleted, s =>
      let (result, engine) := s.engine.compareAndSwap name key expected data deleted
      (result, { s with engine := engine })
  | .nextSeq, s => (s.seq + 1, { s with seq := s.seq + 1 })

/-- Run a method on the state behind the lock. -/
def runA {α : Type} (m : AdapterM α) (s : Inner) : Result α × Inner :=
  Prog.runE (I := InnerI) exec m s

/-- A fresh adapter has one document, its own id. -/
def opened : Locked Inner :=
  .new ⟨Engine.new.append storeMetaKind [cfg.storeId] (.obj [("value", .str cfg.storeId)]) false, 0⟩

/-- One call, its outcome and the store it leaves. The lock is held throughout, so a panic inside
poisons it. -/
def perform (op : Op) : Locked Inner → Result Reply × Locked Inner :=
  Locked.withLock (runA (method cfg op))

/-- The state after one method, whatever it returned. -/
def step (op : Op) (s : Locked Inner) : Locked Inner := (perform cfg op s).2

/-- The store after a sequence of calls. -/
def run (ops : List Op) (s : Locked Inner) : Locked Inner := Machine.run (step cfg) ops s

end Contract

end Marbles.Adapter
