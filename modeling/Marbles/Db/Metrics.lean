import Marbles.Db.Tables

/-!
# Pipeline measurements

The samples `prometheus_metrics` renders, as a function of the rows the queries read:
both SQL backends issue the same queries over the same columns. A sum or a difference
that leaves the range of the column is an error on either; the order of the groups of a
query without `ORDER BY` is the order of their keys here.

Groups, sums and labels are computed here as the queries do, and the text is put together by the
same function for both backends.
-/

namespace Marbles.Db

open Sorting (groupOn)

/-- A value as a 64-bit column. -/
def column (n : Int) : Result Int :=
  if -2 ^ 63 ≤ n ∧ n < 2 ^ 63 then .ok n else Outcome.fail (.sqlite "integer overflow")

/-- What the exposition format asks to be escaped in the value of a label. -/
def prometheusLabel (value : String) : String :=
  String.join (value.toList.map fun c => match c with
    | '\\' => "\\\\"
    | '\n' => "\\n"
    | '"' => "\\\""
    | c => c.toString)

/-- One sample: a name, its labels and a value. -/
def sample (name : String) (labels : List (String × String)) (value : Int) : String :=
  name ++ "\x7b" ++ ",".intercalate (labels.map fun l =>
    l.1 ++ "=\"" ++ prometheusLabel l.2 ++ "\"") ++ "\x7d " ++ toString value ++ "\n"

/-- The header is there also when a family has no samples. -/
def metricsHeader : String :=
  "# HELP marbles_issues Current issues by project and status.\n" ++
  "# TYPE marbles_issues gauge\n" ++
  "# HELP marbles_queue_oldest_age_seconds Age of the oldest currently ready issue.\n" ++
  "# TYPE marbles_queue_oldest_age_seconds gauge\n" ++
  "# HELP marbles_claims_active Current unexpired claims by project and actor kind.\n" ++
  "# TYPE marbles_claims_active gauge\n" ++
  "# HELP marbles_events_total Durable tracker transitions by project and event.\n" ++
  "# TYPE marbles_events_total counter\n" ++
  "# HELP marbles_claim_latency_seconds Time from issue creation to first claim.\n" ++
  "# TYPE marbles_claim_latency_seconds summary\n" ++
  "# HELP marbles_cycle_time_seconds Time from issue creation to evidence-backed close.\n" ++
  "# TYPE marbles_cycle_time_seconds summary\n" ++
  "# HELP marbles_review_time_seconds Time from first review state to close.\n" ++
  "# TYPE marbles_review_time_seconds summary\n"

/-- The rows the measurements are taken from. -/
structure MetricRows where
  issues : List (String × IssueRow)
  deps : List (String × String)
  history : List HistoryRow

namespace MetricRows

/-- Does `id` wait on an issue that is there and not closed? -/
def isBlocked (m : MetricRows) (id : String) : Bool :=
  m.deps.any fun e => e.1 = id && m.issues.any fun r => r.1 = e.2 && r.2.status ≠ .closed

/-- Issues by project and status. -/
def issueSamples (m : MetricRows) : String :=
  String.join ((groupOn (fun r => toLex (r.2.project, r.2.status.asStr)) m.issues).map fun g =>
    sample "marbles_issues" [("project", (ofLex g.1).1), ("status", (ofLex g.1).2)] g.2.length)

/-- The open, unblocked issues past their grace. -/
def queued (m : MetricRows) (now : Int) : List (String × IssueRow) :=
  m.issues.filter fun r =>
    r.2.status = .«open» && r.2.availableAt.getD 0 ≤ now && !m.isBlocked r.1

/-- The age of the oldest queued issue of each project. -/
def queueAges (m : MetricRows) (now : Int) : Result (List (String × Int)) :=
  (groupOn (fun r => r.2.project) (m.queued now)).mapM fun g => do
    let age ← column (now - (g.2.map fun r => r.2.createdAt).min?.getD 0)
    pure (g.1, max age 0)

/-- The live claims by project and kind; a missing kind is not a text. -/
def claimsActive (m : MetricRows) (now : Int) : Result (List ((String × String) × Nat)) := do
  let kinds ← (m.issues.filter fun r => r.2.assignee.isSome && r.2.expiresAt.any (· > now)).mapM
    fun r => match r.2.actorKind with
      | some kind => .ok (toLex (r.2.project, kind))
      | none => Outcome.fail (.sqlite "Invalid column type Null at index: 1, name: actor_kind")
  pure ((groupOn (fun k => k) kinds).map fun g => (ofLex g.1, g.2.length))

/-- The project of an issue that is there. -/
def projectOf (m : MetricRows) (id : String) : Option String :=
  (m.issues.lookup id).map (·.project)

/-- Events about issues that were dropped are not counted: the join has no row for them. -/
def eventSamples (m : MetricRows) : String :=
  let events := m.history.filterMap fun h => (m.projectOf h.issueId).map fun p => toLex (p, h.event)
  String.join ((groupOn (fun e => e) events).map fun g =>
    sample "marbles_events_total" [("project", (ofLex g.1).1), ("event", (ofLex g.1).2)] g.2.length)

/-- The first time an event of this kind was recorded for an issue. -/
def firstEvent (m : MetricRows) (p : HistoryRow → Bool) (id : String) : Option Int :=
  ((m.history.filter fun h => h.issueId = id && p h).map (·.ts)).min?

/-- Sum and number of the durations of each project. -/
def durations (spans : List (String × Int × Int)) : Result (List (String × Int × Nat)) :=
  (groupOn (fun s => s.1) (spans.filter fun s => s.2.1 ≤ s.2.2)).mapM fun g => do
    let lengths ← g.2.mapM fun s => column (s.2.2 - s.2.1)
    let sum ← column lengths.sum
    pure (g.1, max sum 0, g.2.length)

/-- Sum and count of a summary, without quantiles. -/
def durationSamples (metric : String) (rows : List (String × Int × Nat)) : String :=
  String.join (rows.map fun r =>
    sample (metric ++ "_sum") [("project", r.1)] r.2.1 ++
      sample (metric ++ "_count") [("project", r.1)] r.2.2)

/-- From creation to the first claim. -/
def claimLatency (m : MetricRows) : List (String × Int × Int) :=
  m.issues.filterMap fun r =>
    (m.firstEvent (fun h => h.event = "claimed") r.1).map fun first =>
      (r.2.project, r.2.createdAt, first)

/-- From creation to close. -/
def cycleTime (m : MetricRows) : List (String × Int × Int) :=
  m.issues.filterMap fun r => r.2.closedAt.map fun closed => (r.2.project, r.2.createdAt, closed)

/-- From the first review to close. -/
def reviewTime (m : MetricRows) : List (String × Int × Int) :=
  m.issues.filterMap fun r => do
    let closed ← r.2.closedAt
    let first ← m.firstEvent (fun h => h.event = "status" && h.detail = "→ review") r.1
    some (r.2.project, first, closed)

/-- All samples, in the order they are rendered. The families come in one fixed order, each sorted,
so a scrape is a function of the rows. -/
def render (m : MetricRows) (now : Int) : Result String := do
  let ages ← m.queueAges now
  let claims ← m.claimsActive now
  let latency ← durations m.claimLatency
  let cycle ← durations m.cycleTime
  let review ← durations m.reviewTime
  pure (metricsHeader ++ m.issueSamples ++
    String.join (ages.map fun a =>
      sample "marbles_queue_oldest_age_seconds" [("project", a.1)] a.2) ++
    String.join (claims.map fun c =>
      sample "marbles_claims_active" [("project", c.1.1), ("actor_kind", c.1.2)] c.2) ++
    m.eventSamples ++
    durationSamples "marbles_claim_latency_seconds" latency ++
    durationSamples "marbles_cycle_time_seconds" cycle ++
    durationSamples "marbles_review_time_seconds" review)

end MetricRows

/-- All samples from one lock scope. A value that does not fit its column fails the whole scrape. -/
def prometheusMetricsQuery (now : Int) (t : Tables) : Result String :=
  MetricRows.render ⟨t.issue.rows, t.dep.keys, t.ledger.history.rows.map Prod.snd⟩ now

end Marbles.Db
