import Marbles.Adapter.Parity
import Marbles.Db.Fetching
import Marbles.Importing.Vacated
import Marbles.Lib.Extremes
import Marbles.Lib.Numeral
import Marbles.Offering
import Marbles.ReadyWork

/-!
# The age of the queue

Both stores publish the age of the oldest ready issue of each project. The adapter takes the issues
from `ready`. The local store restates the conditions of `ready` in a query of its own and leaves
the lease out, so that it counts an issue that someone is working on.

`queueAge_iff` says when the two publish the same ages, and those of the ready issues.

The statement compares texts, as that is what is scraped: the same lines in the answers of both
stores. It comes down to three things, namely that all numbers fit their columns, that no issue
under a lease is older than the oldest ready one, and that no label breaks its line. Each of them
is needed, and each has a lemma of its own that says what happens without it.
-/

namespace Marbles

open Extremes (greatest mem_greatest same_max?_iff max?_congr)
open Sorting (groupOn)

/-- The age of an issue, or zero if it was created later. -/
def ageAt (now created : Int) : Int := max (now - created) 0

namespace Db

/-! ### When the query answers -/

theorem column_eq_ok {n m : Int} : column n = .ok m ↔ IsI64 n ∧ m = n := by
  unfold column
  split
  · rename_i hfits
    constructor
    · intro h
      exact ⟨hfits, (Except.ok.inj h).symm⟩
    · intro h
      rw [h.2]
  · rename_i hover
    exact ⟨fun h => absurd h Outcome.fail_ne_ok, fun h => absurd h.1 hover⟩

theorem column_isOk {n : Int} : (∃ m, column n = .ok m) ↔ IsI64 n := by
  simp [column_eq_ok]

namespace MetricRows

variable {m : MetricRows} {now : Int}

/-- The age of the oldest queued issue of each project fits its column. -/
def AgesFit (m : MetricRows) (now : Int) : Prop :=
  ∀ g ∈ groupOn (fun r => r.2.project) (m.queued now),
    IsI64 (now - (g.2.map fun r => r.2.createdAt).min?.getD 0)

instance (m : MetricRows) (now : Int) : Decidable (m.AgesFit now) :=
  inferInstanceAs (Decidable (∀ g ∈ groupOn _ _, IsI64 _))

/-- The durations of each project and their sum fit their columns. -/
def SpansFit (spans : List (String × Int × Int)) : Prop :=
  ∀ g ∈ groupOn (fun s => s.1) (spans.filter fun s => s.2.1 ≤ s.2.2),
    (∀ s ∈ g.2, IsI64 (s.2.2 - s.2.1)) ∧ IsI64 (g.2.map fun s => s.2.2 - s.2.1).sum

instance (spans : List (String × Int × Int)) : Decidable (SpansFit spans) :=
  inferInstanceAs (Decidable (∀ g ∈ groupOn _ _, _ ∧ _))

/-- Every difference and every sum fits its column. -/
structure Fits (m : MetricRows) (now : Int) : Prop where
  ages : m.AgesFit now
  latency : SpansFit m.claimLatency
  cycle : SpansFit m.cycleTime
  review : SpansFit m.reviewTime

theorem queueAges_isOk : (∃ ages, m.queueAges now = .ok ages) ↔ m.AgesFit now := by
  rw [queueAges, Outcome.mapM_isOk]
  refine forall_congr' fun g => imp_congr_right fun _ => ?_
  simp only [Outcome.bind_isOk, column_eq_ok]
  constructor
  · intro h
    obtain ⟨age, hage, -⟩ := h
    exact hage.1
  · intro h
    exact ⟨_, ⟨h, rfl⟩, _, rfl⟩

theorem durations_isOk {spans : List (String × Int × Int)} :
    (∃ rows, durations spans = .ok rows) ↔ SpansFit spans := by
  rw [durations, Outcome.mapM_isOk]
  refine forall_congr' fun g => imp_congr_right fun _ => ?_
  have hlengths : ∀ lengths, (g.2.mapM fun s => column (s.2.2 - s.2.1)) = .ok lengths →
      lengths = g.2.map fun s => s.2.2 - s.2.1 := fun lengths h =>
    Outcome.mapM_eq_map h fun s _ n hn => (column_eq_ok.mp hn).2
  have hitems : (∃ lengths, (g.2.mapM fun s => column (s.2.2 - s.2.1)) = .ok lengths) ↔
      ∀ s ∈ g.2, IsI64 (s.2.2 - s.2.1) := by
    rw [Outcome.mapM_isOk]
    exact forall_congr' fun s => imp_congr_right fun _ => column_isOk
  constructor
  · intro h
    obtain ⟨row, hrow⟩ := h
    obtain ⟨lengths, hmap, hrow⟩ := Outcome.bind_eq_ok.mp hrow
    obtain ⟨sum, hsum, -⟩ := Outcome.bind_eq_ok.mp hrow
    refine ⟨hitems.mp ⟨lengths, hmap⟩, ?_⟩
    rw [← hlengths lengths hmap]
    exact (column_eq_ok.mp hsum).1
  · intro h
    obtain ⟨lengths, hmap⟩ := hitems.mpr h.1
    have hsum := h.2
    rw [← hlengths lengths hmap] at hsum
    exact Outcome.bind_isOk.mpr ⟨lengths, hmap, _, Outcome.bind_eq_ok.mpr
      ⟨_, column_eq_ok.mpr ⟨hsum, rfl⟩, rfl⟩⟩

/-- Where every claim has a kind, the live claims can be counted. -/
theorem claimsActive_isOk (hkind : ∀ r ∈ m.issues, r.2.actorKind.isSome = r.2.assignee.isSome) :
    ∃ claims, m.claimsActive now = .ok claims := by
  have hpure : ∀ {α : Type} (a : α), ∃ b, (pure a : Result α) = .ok b := fun a => ⟨a, rfl⟩
  simp only [claimsActive, Outcome.bind_isOk, hpure, and_true, Outcome.mapM_isOk]
  intro r hr
  obtain ⟨hmem, hlive⟩ := List.mem_filter.mp hr
  have hheld := (Bool.and_eq_true _ _ ▸ hlive).1
  obtain ⟨kind, hsome⟩ := Option.isSome_iff_exists.mp ((hkind r hmem).trans hheld)
  rw [hsome]
  exact ⟨_, rfl⟩

/-- The samples are rendered exactly when every difference and every sum fits. -/
theorem render_isOk (hkind : ∀ r ∈ m.issues, r.2.actorKind.isSome = r.2.assignee.isSome) :
    (∃ text, m.render now = .ok text) ↔ m.Fits now := by
  simp only [render, Outcome.bind_isOk]
  constructor
  · intro h
    obtain ⟨ages, hages, claims, -, latency, hlatency, cycle, hcycle, review, hreview, -⟩ := h
    exact ⟨queueAges_isOk.mp ⟨_, hages⟩, durations_isOk.mp ⟨_, hlatency⟩,
      durations_isOk.mp ⟨_, hcycle⟩, durations_isOk.mp ⟨_, hreview⟩⟩
  · intro h
    obtain ⟨ages, hages⟩ := queueAges_isOk.mpr h.ages
    obtain ⟨claims, hclaims⟩ := @claimsActive_isOk m now hkind
    obtain ⟨latency, hlatency⟩ := durations_isOk.mpr h.latency
    obtain ⟨cycle, hcycle⟩ := durations_isOk.mpr h.cycle
    obtain ⟨review, hreview⟩ := durations_isOk.mpr h.review
    exact ⟨ages, hages, claims, hclaims, latency, hlatency, cycle, hcycle, review, hreview, _, rfl⟩

end MetricRows

/-! ### What the local store publishes -/

open Importing (measured prometheusMetricsQuery_measured)

/-- The line of one sample. -/
def ageLine (a : String × Int) : String :=
  sample "marbles_queue_oldest_age_seconds" [("project", a.1)] a.2

/-- The ages that are published: none if the query fails. -/
def queueSamples (now : Int) (t : Tables) : List (String × Int) :=
  match prometheusMetricsQuery now t with
  | .ok _ => ((measured t).queueAges now).toOption.getD []
  | .error _ => []

/-- The lines of the samples are part of what the query answers. -/
theorem query_text {now : Int} {t : Tables} {text : String}
    (h : prometheusMetricsQuery now t = .ok text) :
    ∃ before after, text = before ++ String.join ((queueSamples now t).map ageLine) ++ after := by
  have hrender := h
  rw [prometheusMetricsQuery_measured] at hrender
  obtain ⟨ages, hages, hrender⟩ := Outcome.bind_eq_ok.mp hrender
  obtain ⟨claims, -, hrender⟩ := Outcome.bind_eq_ok.mp hrender
  obtain ⟨latency, -, hrender⟩ := Outcome.bind_eq_ok.mp hrender
  obtain ⟨cycle, -, hrender⟩ := Outcome.bind_eq_ok.mp hrender
  obtain ⟨review, -, hrender⟩ := Outcome.bind_eq_ok.mp hrender
  have hsamples : queueSamples now t = ages := by
    simp only [queueSamples, h, hages, Except.toOption, Option.getD_some]
  cases hrender
  rw [hsamples]
  refine ⟨metricsHeader ++ (measured t).issueSamples, String.join (claims.map fun c =>
      sample "marbles_claims_active" [("project", c.1.1), ("actor_kind", c.1.2)] c.2) ++
    ((measured t).eventSamples ++
    (MetricRows.durationSamples "marbles_claim_latency_seconds" latency ++
    (MetricRows.durationSamples "marbles_cycle_time_seconds" cycle ++
    MetricRows.durationSamples "marbles_review_time_seconds" review))), ?_⟩
  simp only [String.append_assoc]
  rfl

theorem ageAt_le (now : Int) {a b : Int} (hab : a ≤ b) : ageAt now b ≤ ageAt now a := by
  unfold ageAt
  omega

/-- Where everything fits, each project with a queued issue has the greatest age of those. -/
theorem queueSamples_eq {now : Int} {t : Tables}
    (hkind : ∀ r ∈ t.issue.rows, r.2.actorKind.isSome = r.2.assignee.isSome)
    (hfits : (measured t).Fits now) :
    queueSamples now t = greatest (fun r => r.2.project) (fun r => ageAt now r.2.createdAt)
      ((measured t).queued now) := by
  obtain ⟨text, htext⟩ := (MetricRows.render_isOk (m := measured t) hkind).mpr hfits
  obtain ⟨ages, hages⟩ := MetricRows.queueAges_isOk.mpr hfits.ages
  rw [← prometheusMetricsQuery_measured] at htext
  simp only [queueSamples, htext, hages, Except.toOption, Option.getD_some]
  refine Outcome.mapM_eq_map hages fun g hg a ha => ?_
  obtain ⟨age, hage, ha⟩ := Outcome.bind_eq_ok.mp ha
  obtain ⟨-, rfl⟩ := column_eq_ok.mp hage
  cases ha
  -- a group has an issue, so it has an oldest one
  obtain ⟨hproject, hgroup⟩ := Sorting.mem_groupOn.mp hg
  obtain ⟨r, hr, hkey⟩ := List.mem_map.mp hproject
  have hmem : r ∈ g.2 := by
    rw [hgroup]
    simp only [List.mem_filter, decide_eq_true_eq]
    exact ⟨hr, hkey⟩
  have hages : g.2.map (fun r => ageAt now r.2.createdAt) =
      (g.2.map fun r => r.2.createdAt).map (ageAt now) := by
    rw [List.map_map]
    rfl
  rw [hages, Extremes.max?_map_of_antitone (ageAt_le now)]
  cases hmin : (g.2.map fun r => r.2.createdAt).min? with
  | none =>
      rw [List.min?_eq_none_iff, List.map_eq_nil_iff] at hmin
      rw [hmin] at hmem
      cases hmem
  | some oldest => rfl

theorem queueSamples_of_unfit {now : Int} {t : Tables}
    (hkind : ∀ r ∈ t.issue.rows, r.2.actorKind.isSome = r.2.assignee.isSome)
    (hfits : ¬ (measured t).Fits now) : queueSamples now t = [] := by
  unfold queueSamples
  split
  · rename_i text htext
    exact absurd ((MetricRows.render_isOk (m := measured t) hkind).mp ⟨text, htext⟩) hfits
  · rfl

/-! ### What is queued and what is ready -/

/-- No issue is without a time from which it is available. -/
theorem Reachable.available {cfg : Config} {l : Locked Tables} (h : Reachable cfg l) {id : String}
    {row : IssueRow} (hrow : l.state.issue.find id = some row) : row.availableAt.isSome = true := by
  refine @Reachable.invariant cfg
    (fun t => ∀ id row, t.issue.find id = some row → row.availableAt.isSome = true)
    (fun storeId id row hrow => ?_) (fun t c t' ht he id row' hrow' => ?_) l h id row hrow
  · simp [Tables.empty] at hrow
  · cases he.row hrow' with
    | create => rfl
    | update hrow hnext hstatus =>
        show Option.isSome (Issue.availableAt _) = true
        rw [patch_apply_available hnext]
        rfl
    | kept hrow | setLabels hrow | addDep hrow | addRemoteDep hrow | claim _ hrow | touch hrow
    | release hrow | sweep hrow | closeUnchecked hrow =>
        have hold := ht _ _ hrow
        exact hold

/-- An issue that is there and not closed. -/
theorem any_rows_open (t : Tables) (id : String) :
    (t.issue.rows.any fun r => r.1 = id && r.2.status ≠ .closed) = t.isOpen id := by
  rw [Bool.eq_iff_iff, List.any_eq_true, Tables.isOpen, Option.any_eq_true]
  constructor
  · intro h
    obtain ⟨r, hr, hopen⟩ := h
    simp only [Bool.and_eq_true, decide_eq_true_eq] at hopen
    obtain ⟨hid, hstatus⟩ := hopen
    exact ⟨r.2, hid ▸ Table.mem_rows.mp hr, decide_eq_true hstatus⟩
  · intro h
    obtain ⟨row, hrow, hopen⟩ := h
    exact ⟨(id, row), Table.mem_rows.mpr hrow, by simpa using hopen⟩

theorem isBlocked_eq {t : Tables} {id : String} :
    (measured t).isBlocked id = false ↔ Unblocked t id := by
  simp only [MetricRows.isBlocked, measured, any_rows_open, List.any_eq_false, Bool.and_eq_true,
    decide_eq_true_eq, Unblocked, Tables.DependsOn]
  constructor
  · intro h p hp
    exact Bool.eq_false_of_not_eq_true fun hopen => h (id, p) hp ⟨rfl, hopen⟩
  · intro h e he hboth
    obtain ⟨hid, hopen⟩ := hboth
    rw [h e.2 (hid ▸ he)] at hopen
    cases hopen

/-- An issue is queued when it is open, past its grace and not blocked. -/
theorem mem_queued {now : Int} {t : Tables} {r : String × IssueRow}
    (havailable : r.2.availableAt.isSome = true) :
    r ∈ (measured t).queued now ↔ t.issue.find r.1 = some r.2 ∧ r.2.status = .«open» ∧
      r.2.availableAt.all (· ≤ now) = true ∧ Unblocked t r.1 := by
  obtain ⟨available, hsome⟩ := Option.isSome_iff_exists.mp havailable
  rw [MetricRows.queued, List.mem_filter, ← isBlocked_eq, measured, Table.mem_rows, hsome]
  simp [and_assoc]

end Db

namespace Adapter

open Db (Tables IssueRow readyIssues)
open Json (Value)

/-! ### What the adapter publishes -/

/-- The line of one sample. -/
def ageLine (a : String × Int) : String :=
  sample "marbles_queue_oldest_age_seconds" [("project", a.1)] a.2

/-- The age of an issue as it is computed, or zero. -/
def wrappedAge (now created : Int) : Int := max (wrapI64 (now - created)) 0

/-- The ages that are published. -/
def queueSamples (now : Int) (s : Inner) : List (String × Int) :=
  greatest (fun issue => issue.project) (fun issue => wrappedAge now issue.createdAt)
    (inOrder (s.allIssues.filter (s.offers none now)))

theorem ageSamples_eq (now : Int) (issues : List Issue) :
    ageSamples now issues = String.join ((greatest (fun issue => issue.project)
      (fun issue => wrappedAge now issue.createdAt) issues).map ageLine) := by
  rw [ageSamples, greatest, List.map_map]
  refine congrArg String.join (List.map_congr_left fun g _ => ?_)
  have hage := Extremes.max_getD_max? (g.2.map fun issue => wrapI64 (now - issue.createdAt)) 0
  rw [List.map_map] at hage
  dsimp only
  rw [hage]
  rfl

variable {s : Inner}

/-- A loop whose turns only read comes to something. -/
theorem exists_reads_foldlM {α β : Type} {f : β → α → AdapterM β} (xs : List α) (b : β)
    (h : ∀ b x, ∃ c, Reads (f b x) s c) : ∃ c, Reads (xs.foldlM f b) s c := by
  induction xs generalizing b with
  | nil => exact ⟨b, .pure b⟩
  | cons x xs ih =>
      obtain ⟨c, hc⟩ := h b x
      obtain ⟨d, hd⟩ := ih c
      rw [List.foldlM_cons]
      exact ⟨d, hc.bind hd⟩

theorem exists_reads_bind {α β : Type} {m : AdapterM α} {f : α → AdapterM β} {a : α}
    (hm : Reads m s a) (h : ∃ b, Reads (f a) s b) : ∃ b, Reads (m >>= f) s b :=
  h.imp fun _ hf => hm.bind hf

theorem exists_reads_eventLabels (event : Value) : ∃ labels, Reads
    (eventLabels event) s labels := by
  unfold eventLabels
  cases (event.field "issue_id").asStr with
  | none => exact ⟨_, .pure _⟩
  | some id => exact ⟨_, (reads_loadIssue id).map _⟩

theorem reads_firstEvent (p : Value → Bool) (id : String) : ∃ first, Reads
    (firstEvent p id) s first :=
  ⟨_, (reads_docs marblesEventKind).map _⟩

theorem exists_reads_spans {span : String → Value → AdapterM (Option (Int × Int))}
    (h : ∀ id data, ∃ found, Reads (span id data) s found) : ∃ found, Reads
    (spans span) s found := by
  unfold spans
  refine exists_reads_bind (reads_docs issueKind) (exists_reads_foldlM _ _ fun found d => ?_)
  obtain ⟨key, data⟩ := d
  cases key with
  | nil => exact ⟨found, .pure found⟩
  | cons id rest =>
      obtain ⟨ends, hends⟩ := h id data
      cases ends with
      | none => exact ⟨_, hends.bind (.pure _)⟩
      | some ends => exact ⟨_, hends.bind (.pure _)⟩

/-- The lines of the samples are part of what the adapter answers. -/
theorem reads_prometheusMetrics (now : Int) : ∃ before after, Reads (prometheusMetrics now) s
    (before ++ String.join ((queueSamples now s).map ageLine) ++ after) := by
  obtain ⟨events, hevents⟩ := exists_reads_foldlM (s := s) (f := fun found d => do
    pure (found ++ (← eventLabels d.2).toList)) (s.docs marblesEventKind) [] fun found d => by
      obtain ⟨labels, hlabels⟩ := @exists_reads_eventLabels s d.2
      exact ⟨_, hlabels.map _⟩
  obtain ⟨latency, hlatency⟩ := @exists_reads_spans s claimLatency fun id data => by
    obtain ⟨first, hfirst⟩ := @reads_firstEvent s
      (fun e => (e.field "event").asStr = some "claimed") id
    exact ⟨_, hfirst.map _⟩
  obtain ⟨cycle, hcycle⟩ := @exists_reads_spans s cycleTime fun id data => ⟨_, .pure _⟩
  obtain ⟨review, hreview⟩ := @exists_reads_spans s reviewTime fun id data => by
    unfold reviewTime
    cases (data.field "closed_at").asInt with
    | none => exact ⟨_, .pure _⟩
    | some closed =>
        obtain ⟨first, hfirst⟩ := @reads_firstEvent s (fun e => (e.field "event").asStr =
          some "status" && (e.field "detail").asStr = some "→ review") id
        exact ⟨_, hfirst.map _⟩
  let issues := (s.docs issueKind).map fun d => (textOf "project" d.2, textOf "status" d.2)
  let claims := (s.docs issueKind).filterMap fun d => activeClaim now d.2
  -- What stands before and after the ages is whatever the other families print; only that they read
  -- and do not write matters.
  refine ⟨Db.metricsHeader ++ countSamples "marbles_issues" "status" issues,
    countSamples "marbles_claims_active" "actor_kind" claims ++
    (countSamples "marbles_events_total" "event" events ++
    (durationSamples "marbles_claim_latency_seconds" latency ++
    (durationSamples "marbles_cycle_time_seconds" cycle ++
    durationSamples "marbles_review_time_seconds" review))), ?_⟩
  have hreads : Reads (prometheusMetrics now) s (Db.metricsHeader ++
      countSamples "marbles_issues" "status" issues ++
      ageSamples now (inOrder (s.allIssues.filter (s.offers none now))) ++
      countSamples "marbles_claims_active" "actor_kind" claims ++
      countSamples "marbles_events_total" "event" events ++
      durationSamples "marbles_claim_latency_seconds" latency ++
      durationSamples "marbles_cycle_time_seconds" cycle ++
      durationSamples "marbles_review_time_seconds" review) := by
    refine (reads_docs issueKind).bind ((reads_ready none now).bind ?_)
    refine (reads_docs issueKind).bind ((reads_docs marblesEventKind).bind (hevents.bind ?_))
    exact hlatency.bind (hcycle.bind (hreview.bind (.pure _)))
  rw [ageSamples_eq] at hreads
  simp only [String.append_assoc] at hreads ⊢
  exact hreads

variable {t : Tables} {now : Int}

/-- The adapter offers the issues the local store returns, up to the time of their last update. -/
theorem ready_alike (h : Sim s t) (hs : Db.Sound t) (project : Option String) (now : Int) :
    (inOrder (s.allIssues.filter (s.offers project now))).map forgetUpdate =
      (readyIssues project now t).map forgetUpdate := by
  -- The two stores offer the same ids in the same order, and read the same issue under each but for
  -- the time of saving.
  have hids := inOrder_ids h fun u hrow _ => offers_eq h hs project now u hrow
  let shown : String → Option Issue := fun id => (t.rowToIssue id).map forgetUpdate
  have hleft : ∀ issue ∈ inOrder (s.allIssues.filter (s.offers project now)),
      (some ∘ forgetUpdate) issue = (shown ∘ Issue.id) issue := by
    intro issue hissue
    have hmem := (List.mem_filter.mp (Sorting.mem_sortOn.mp hissue)).1
    have hread := (mem_allIssues h).mp hmem
    cases hrow : t.issue.find issue.id with
    | none =>
        rw [h.rowToIssue_none hrow] at hread
        cases hread
    | some row =>
        obtain ⟨u, -, hview⟩ := h.rowToIssue hrow
        have hshown : shown issue.id = some (forgetUpdate (t.view issue.id row)) := by
          simp only [shown, Db.rowToIssue_eq_some.mpr ⟨row, hrow, rfl⟩, Option.map_some]
        rw [Function.comp_apply, Function.comp_apply, hshown,
          Option.some.inj (hread.symm.trans hview)]
        rfl
  have hright : ∀ r ∈ Db.select t (Db.eligible t project now),
      ((some ∘ forgetUpdate) ∘ fun r => t.view r.1 r.2) r = (shown ∘ Prod.fst) r := by
    intro r hr
    have hrow := (Db.mem_select.mp hr).1
    simp only [Function.comp_apply, shown, Db.rowToIssue_eq_some.mpr ⟨r.2, hrow, rfl⟩,
      Option.map_some]
  refine List.map_injective_iff.mpr (Option.some_injective Issue) ?_
  rw [readyIssues, List.map_map, List.map_map, List.map_map, List.map_congr_left hleft,
    List.map_congr_left hright, ← List.map_map, ← List.map_map]
  exact congrArg (List.map shown) hids

/-- The adapter publishes the ages of the ready issues, as it computes them. -/
theorem queueSamples_eq (h : Sim s t) (hs : Db.Sound t) (now : Int) :
    queueSamples now s = greatest (fun issue => issue.project)
      (fun issue => wrappedAge now issue.createdAt) (readyIssues none now t) := by
  have hkept : ∀ issues : List Issue, greatest (fun issue => issue.project)
      (fun issue => wrappedAge now issue.createdAt) (issues.map forgetUpdate) =
      greatest (fun issue => issue.project) (fun issue => wrappedAge now issue.createdAt) issues :=
    fun issues => Extremes.greatest_map _ _ _ _
  rw [queueSamples, ← hkept, ready_alike h hs none now, hkept]

end Adapter

/-! ### Labels -/

theorem Db.toList_prometheusLabel (value : String) : (Db.prometheusLabel value).toList =
    value.toList.flatMap fun c => if c = '\\' then ['\\', '\\'] else if c = '\n' then ['\\', 'n']
      else if c = '"' then ['\\', '"'] else [c] := by
  rw [Db.prometheusLabel, String.toList_join, List.flatMap_map]
  refine List.flatMap_congr fun c _ => ?_
  split <;> simp_all

theorem Adapter.toList_prometheusLabel (value : String) : (Adapter.prometheusLabel value).toList =
    value.toList.flatMap fun c => if c = '\\' then ['\\', '\\']
      else if c = '"' then ['\\', '"'] else [c] := by
  rw [Adapter.prometheusLabel, String.toList_join, List.flatMap_map]
  refine List.flatMap_congr fun c _ => ?_
  split <;> simp_all

/-- The labels of both stores agree up to the first line break. -/
theorem label_append_iff {chars x y : List Char} :
    (chars.flatMap fun c => if c = '\\' then ['\\', '\\'] else if c = '\n' then ['\\', 'n']
      else if c = '"' then ['\\', '"'] else [c]) ++ x =
    (chars.flatMap fun c => if c = '\\' then ['\\', '\\']
      else if c = '"' then ['\\', '"'] else [c]) ++ y ↔ '\n' ∉ chars ∧ x = y := by
  induction chars with
  | nil => simp
  | cons c chars ih =>
      simp only [List.flatMap_cons, List.append_assoc, List.mem_cons, not_or]
      by_cases hbreak : c = '\n'
      · subst hbreak
        simp
      · have hne : ¬ '\n' = c := Ne.symm hbreak
        simp only [hbreak, if_false, hne, not_false_eq_true, true_and]
        rw [List.append_cancel_left_eq, ih]

/-- Both stores write the same line when the label has no line break and the age is the same. -/
theorem ageLine_eq_iff {project : String} {age age' : Int} :
    Db.ageLine (project, age) = Adapter.ageLine (project, age') ↔
      '\n' ∉ project.toList ∧ age = age' := by
  rw [← String.toList_inj]
  simp only [Db.ageLine, Adapter.ageLine, Db.sample, Adapter.sample, List.map_cons, List.map_nil,
    String.intercalate_singleton, String.toList_append, List.append_assoc,
    List.append_cancel_left_eq, Db.toList_prometheusLabel, Adapter.toList_prometheusLabel,
    label_append_iff, List.append_cancel_right_eq, String.toList_inj]
  rw [Numeral.toString_injective.eq_iff]

/-! ### When the samples measure the ready issues -/

section Measures

open Db (Tables IssueRow Reachable Action readyIssues Unblocked opened)
open Importing (measured)

variable {t : Tables} {now : Int}

/-- The ages of the ready issues of a project. -/
def readyAges (t : Tables) (project : String) (now : Int) : List Int :=
  (readyIssues (some project) now t).map fun issue => ageAt now issue.createdAt

/-- Nothing that is only kept from being ready by a live lease is older than all that is ready in
its project. -/
def Leased (t : Tables) (now : Int) : Prop :=
  ∀ id row, t.issue.find id = some row → row.status = .«open» →
    row.availableAt.all (· ≤ now) = true → Unblocked t id →
    heldAt row.assignee row.expiresAt now = true →
    ∃ age ∈ readyAges t row.project now, ageAt now row.createdAt ≤ age

/-- No age of a ready issue that wraps around exceeds those of its project. -/
def Wrapped (t : Tables) (now : Int) : Prop :=
  ∀ issue ∈ readyIssues none now t, ∃ age ∈ readyAges t issue.project now,
    Adapter.wrappedAge now issue.createdAt ≤ age

/-- No project with a ready issue has a line break in its name. -/
def OneLine (t : Tables) (now : Int) : Prop :=
  ∀ issue ∈ readyIssues none now t, '\n' ∉ issue.project.toList

/-- The local store publishes the age of the oldest ready issue of each project that has one, and
the adapter the same lines. -/
structure Measures (s : Adapter.Inner) (t : Tables) (now : Int) : Prop where
  oldest : ∀ project age, (project, age) ∈ Db.queueSamples now t ↔
    (readyAges t project now).max? = some age
  lines : (Adapter.queueSamples now s).map Adapter.ageLine = (Db.queueSamples now t).map Db.ageLine

theorem mem_readyIssues_some {project : String} {issue : Issue} :
    issue ∈ readyIssues (some project) now t ↔
      issue ∈ readyIssues none now t ∧ issue.project = project := by
  simp only [Report.mem_readyIssues, Db.eligible_iff]
  constructor
  · intro h
    obtain ⟨row, hrow, ⟨hopen, hpast, hscope, hfree⟩, hview⟩ := h
    refine ⟨⟨row, hrow, ⟨hopen, hpast, rfl, hfree⟩, hview⟩, ?_⟩
    rw [← hview]
    simpa [Db.matchesScope, eq_comm] using hscope
  · intro h
    obtain ⟨⟨row, hrow, ⟨hopen, hpast, -, hfree⟩, hview⟩, hproject⟩ := h
    refine ⟨row, hrow, ⟨hopen, hpast, ?_, hfree⟩, hview⟩
    rw [← hproject, ← hview]
    simp [Db.matchesScope]

/-- The ready issues of a project, picked from all. -/
theorem max?_readyIssues (project : String) (value : Issue → Int) :
    (((readyIssues none now t).filter fun issue => issue.project = project).map value).max? =
      ((readyIssues (some project) now t).map value).max? := by
  refine max?_congr fun a => ?_
  simp only [List.mem_map, List.mem_filter, decide_eq_true_eq, mem_readyIssues_some]

/-- A sound state in which every issue has a time from which it is available, so that what is ready
is queued. -/
structure Queued (t : Tables) (now : Int) : Prop where
  sound : Db.Sound t
  available : ∀ {id row}, t.issue.find id = some row → row.availableAt.isSome = true

namespace Queued

theorem kind (h : Queued t now) :
    ∀ r ∈ t.issue.rows, r.2.actorKind.isSome = r.2.assignee.isSome :=
  fun _ hr => (h.sound.whole (Table.mem_rows.mp hr)).kind

/-- The ages of the queued issues of a project. -/
def ages (t : Tables) (project : String) (now : Int) : List Int :=
  (((measured t).queued now).filter fun r => r.2.project = project).map fun r =>
    ageAt now r.2.createdAt

theorem mem_ages (h : Queued t now) {project : String} {age : Int} :
    age ∈ ages t project now ↔ ∃ id row, t.issue.find id = some row ∧ row.status = .«open» ∧
      row.availableAt.all (· ≤ now) = true ∧ Unblocked t id ∧ row.project = project ∧
      age = ageAt now row.createdAt := by
  simp only [ages, List.mem_map, List.mem_filter, decide_eq_true_eq]
  constructor
  · intro hage
    obtain ⟨r, ⟨hr, hproject⟩, rfl⟩ := hage
    have hrow : t.issue.find r.1 = some r.2 := Table.mem_rows.mp (List.mem_filter.mp hr).1
    obtain ⟨-, hopen, hpast, hunblocked⟩ := (Db.mem_queued (h.available hrow)).mp hr
    exact ⟨r.1, r.2, hrow, hopen, hpast, hunblocked, hproject, rfl⟩
  · intro hage
    obtain ⟨id, row, hrow, hopen, hpast, hunblocked, hproject, rfl⟩ := hage
    exact ⟨(id, row), ⟨(Db.mem_queued (r := (id, row)) (h.available hrow)).mpr
      ⟨hrow, hopen, hpast, hunblocked⟩, hproject⟩, rfl⟩

theorem mem_readyAges {project : String} {age : Int} :
    age ∈ readyAges t project now ↔ ∃ id row, t.issue.find id = some row ∧
      Db.eligible t (some project) now id row = true ∧ age = ageAt now row.createdAt := by
  simp only [readyAges, List.mem_map, Report.mem_readyIssues]
  constructor
  · intro h
    obtain ⟨issue, ⟨row, hrow, heligible, hview⟩, rfl⟩ := h
    refine ⟨issue.id, row, hrow, heligible, ?_⟩
    rw [← hview]
    rfl
  · intro h
    obtain ⟨id, row, hrow, heligible, rfl⟩ := h
    exact ⟨t.view id row, ⟨row, hrow, heligible, rfl⟩, rfl⟩

theorem scope_iff {project : String} {row : IssueRow} :
    Db.matchesScope (some project) row.project = true ↔ row.project = project := by
  simp [Db.matchesScope, eq_comm]

/-- What is ready in a project is queued in it. -/
theorem ages_of_ready (h : Queued t now) {project : String} {age : Int}
    (hage : age ∈ readyAges t project now) : age ∈ ages t project now := by
  obtain ⟨id, row, hrow, heligible, rfl⟩ := mem_readyAges.mp hage
  obtain ⟨hopen, hpast, hscope, hunblocked, -⟩ := Db.eligible_iff.mp heligible
  exact h.mem_ages.mpr ⟨id, row, hrow, hopen, hpast, hunblocked, scope_iff.mp hscope, rfl⟩

/-- The oldest queued issue of every project is as old as its oldest ready issue when no lease is
on an older one. -/
theorem leased_iff (h : Queued t now) :
    (∀ project, (ages t project now).max? = (readyAges t project now).max?) ↔ Leased t now := by
  simp only [same_max?_iff]
  constructor
  · intro hsame id row hrow hopen hpast hunblocked _
    exact (hsame row.project).1 _ (h.mem_ages.mpr
      ⟨id, row, hrow, hopen, hpast, hunblocked, rfl, rfl⟩)
  · intro hleased project
    refine ⟨fun age hage => ?_, fun age hage => ⟨age, h.ages_of_ready hage, le_rfl⟩⟩
    obtain ⟨id, row, hrow, hopen, hpast, hunblocked, rfl, rfl⟩ := h.mem_ages.mp hage
    cases hheld : heldAt row.assignee row.expiresAt now with
    | true => exact hleased id row hrow hopen hpast hunblocked hheld
    | false =>
        have hfree := Adapter.not_heldAt (h.sound.whole hrow) now
        rw [hheld, Bool.not_false, eq_comm, Bool.or_eq_true, Option.isNone_iff_eq_none] at hfree
        exact ⟨_, mem_readyAges.mpr ⟨id, row, hrow, Db.eligible_iff.mpr
          ⟨hopen, hpast, scope_iff.mpr rfl, hunblocked, hfree⟩, rfl⟩, le_rfl⟩

/-- Where the ages fit, no age of a ready issue is too great for the adapter to compute. -/
theorem age_le_wrapped (h : Queued t now) (hfits : (measured t).AgesFit now) {issue : Issue}
    (hissue : issue ∈ readyIssues none now t) :
    ageAt now issue.createdAt ≤ Adapter.wrappedAge now issue.createdAt := by
  obtain ⟨row, hrow, heligible, hview⟩ := Report.mem_readyIssues.mp hissue
  obtain ⟨hopen, hpast, -, hunblocked, -⟩ := Db.eligible_iff.mp heligible
  have hcreated : issue.createdAt = row.createdAt := by
    rw [← hview]
    rfl
  have hqueued : (issue.id, row) ∈ (measured t).queued now :=
    (Db.mem_queued (r := (issue.id, row)) (h.available hrow)).mpr ⟨hrow, hopen, hpast, hunblocked⟩
  -- the oldest queued issue of the project is at least as old
  have hgroup := hfits (row.project, ((measured t).queued now).filter fun r =>
    r.2.project = row.project)
    (Sorting.mem_groupOn.mpr ⟨List.mem_map_of_mem (f := fun r => r.2.project) hqueued, rfl⟩)
  have hmem : row.createdAt ∈ (((measured t).queued now).filter fun r =>
      r.2.project = row.project).map fun r => r.2.createdAt := by
    simp only [List.mem_map, List.mem_filter, decide_eq_true_eq]
    exact ⟨(issue.id, row), ⟨hqueued, rfl⟩, rfl⟩
  have hyoung : now - issue.createdAt < 2 ^ 63 := by
    rw [hcreated]
    cases hmin : ((((measured t).queued now).filter fun r => r.2.project = row.project).map fun r =>
        r.2.createdAt).min? with
    | none =>
        rw [List.min?_eq_none_iff.mp hmin] at hmem
        cases hmem
    | some oldest =>
        have hle := (List.min?_eq_some_iff.mp hmin).2 _ hmem
        rw [hmin] at hgroup
        have hlt : now - oldest < 2 ^ 63 := hgroup.2
        omega
  unfold ageAt Adapter.wrappedAge
  by_cases hlow : -2 ^ 63 ≤ now - issue.createdAt
  · rw [wrapI64_of_range hlow hyoung]
  · omega

theorem wrapped_iff (h : Queued t now) (hfits : (measured t).AgesFit now) :
    (∀ project, ((readyIssues (some project) now t).map fun issue =>
      Adapter.wrappedAge now issue.createdAt).max? = (readyAges t project now).max?) ↔
        Wrapped t now := by
  simp only [same_max?_iff]
  constructor
  · intro hsame issue hissue
    exact (hsame issue.project).1 _ (List.mem_map_of_mem
      (f := fun issue : Issue => Adapter.wrappedAge now issue.createdAt)
      (mem_readyIssues_some.mpr ⟨hissue, rfl⟩))
  · intro hwrapped project
    constructor
    · intro age hage
      obtain ⟨issue, hissue, rfl⟩ := List.mem_map.mp hage
      obtain ⟨hready, rfl⟩ := mem_readyIssues_some.mp hissue
      exact hwrapped issue hready
    · intro age hage
      obtain ⟨issue, hissue, rfl⟩ := List.mem_map.mp hage
      exact ⟨_, List.mem_map_of_mem (f := fun issue : Issue =>
        Adapter.wrappedAge now issue.createdAt) hissue,
        h.age_le_wrapped hfits (mem_readyIssues_some.mp hissue).1⟩

end Queued

theorem queued_of_reachable {cfg : Db.Config} {l : Locked Tables} (h : Reachable cfg l)
    (now : Int) :
    Queued l.state now where
  sound := ⟨h.wellFormed, fun hrow => Plan.whole_of_reachable h hrow⟩
  available := fun hrow => h.available hrow

variable {s : Adapter.Inner}

/-- Where the query answers, the samples measure the ready issues under three conditions. -/
theorem measures_of_fits (h : Queued t now) (hsim : Adapter.Sim s t)
    (hfits : (measured t).Fits now) :
    Measures s t now ↔ Leased t now ∧ Wrapped t now ∧ OneLine t now := by
  have hsamples := Db.queueSamples_eq h.kind hfits
  have hadapter := Adapter.queueSamples_eq hsim h.sound now
  -- The local gauge: one sample for each project is the age of its oldest ready issue exactly when
  -- leases are read alike.
  have holdest : (∀ project age, (project, age) ∈ Db.queueSamples now t ↔
      (readyAges t project now).max? = some age) ↔ Leased t now := by
    rw [← h.leased_iff]
    refine forall_congr' fun project => ?_
    simp only [hsamples, mem_greatest]
    exact ⟨fun hsame => Option.ext hsame, fun hsame age => by rw [← hsame]; rfl⟩
  -- Given that, the lines of the two scrapes agree exactly when no age wraps and every age prints
  -- on one line.
  have hlines : Leased t now → ((Adapter.queueSamples now s).map Adapter.ageLine =
      (Db.queueSamples now t).map Db.ageLine ↔ Wrapped t now ∧ OneLine t now) := by
    intro hleased
    have hready : Db.queueSamples now t = greatest (fun issue => issue.project)
        (fun issue => ageAt now issue.createdAt) (readyIssues none now t) := by
      rw [hsamples]
      exact Extremes.greatest_congr fun project =>
        (h.leased_iff.mpr hleased project).trans (max?_readyIssues project _).symm
    rw [hadapter, hready, eq_comm, Extremes.map_eq_map_iff (by
      rw [Extremes.map_fst_greatest, Extremes.map_fst_greatest]) (Extremes.nodup_greatest ..)]
    simp only [mem_greatest, max?_readyIssues, ageLine_eq_iff]
    rw [← h.wrapped_iff hfits.ages]
    constructor
    · intro hall
      refine ⟨fun project => ?_, fun issue hissue => ?_⟩
      · cases hage : (readyAges t project now).max? with
        | none =>
            rw [List.max?_eq_none_iff, readyAges, List.map_eq_nil_iff] at hage
            rw [hage]
            rfl
        | some age =>
            obtain ⟨issue, hissue, -⟩ := List.mem_map.mp (List.max?_eq_some_iff.mp hage).1
            obtain ⟨age', hage'⟩ := Extremes.exists_max? (List.mem_map_of_mem
              (f := fun issue : Issue => Adapter.wrappedAge now issue.createdAt) hissue)
            rw [hage', (hall project age age' hage hage').2]
      · have hmem := mem_readyIssues_some.mpr ⟨hissue, rfl⟩
        obtain ⟨age, hage⟩ := Extremes.exists_max? (List.mem_map_of_mem
          (f := fun issue : Issue => ageAt now issue.createdAt) hmem)
        obtain ⟨age', hage'⟩ := Extremes.exists_max? (List.mem_map_of_mem
          (f := fun issue : Issue => Adapter.wrappedAge now issue.createdAt) hmem)
        exact (hall issue.project age age' hage hage').1
    · intro hboth project age age' hage hage'
      obtain ⟨hwrapped, honeLine⟩ := hboth
      obtain ⟨issue, hissue, -⟩ := List.mem_map.mp (List.max?_eq_some_iff.mp hage).1
      obtain ⟨hready, rfl⟩ := mem_readyIssues_some.mp hissue
      refine ⟨honeLine issue hready, Option.some.inj ?_⟩
      rw [← hage, ← hage']
      exact (hwrapped issue.project).symm
  constructor
  · intro hm
    have hleased := holdest.mp hm.oldest
    exact ⟨hleased, (hlines hleased).mp hm.lines⟩
  · intro hcond
    exact ⟨holdest.mpr hcond.1, (hlines hcond.1).mpr hcond.2⟩

/-- Where the query fails, nothing is published, and that is right when nothing is ready. -/
theorem measures_of_unfit (h : Queued t now) (hsim : Adapter.Sim s t)
    (hfits : ¬ (measured t).Fits now) :
    Measures s t now ↔ readyIssues none now t = [] := by
  have hnone := Db.queueSamples_of_unfit h.kind hfits
  constructor
  · intro hm
    rw [List.eq_nil_iff_forall_not_mem]
    intro issue hissue
    have hage : ageAt now issue.createdAt ∈ readyAges t issue.project now :=
      List.mem_map_of_mem (f := fun issue : Issue => ageAt now issue.createdAt)
        (mem_readyIssues_some.mpr ⟨hissue, rfl⟩)
    obtain ⟨age, hmax⟩ := Extremes.exists_max? hage
    have hsample := (hm.oldest issue.project age).mpr hmax
    rw [hnone] at hsample
    cases hsample
  · intro hempty
    have hages : ∀ project, readyAges t project now = [] := by
      intro project
      rw [readyAges, List.map_eq_nil_iff, List.eq_nil_iff_forall_not_mem]
      intro issue hissue
      have hready := (mem_readyIssues_some.mp hissue).1
      rw [hempty] at hready
      cases hready
    refine ⟨fun project age => ?_, ?_⟩
    · rw [hnone, hages]
      simp
    · rw [hnone, Adapter.queueSamples_eq hsim h.sound, hempty]
      rfl

/-- In every reachable state, and on an adapter in step with it, the published ages are those of the
ready issues exactly when no age or duration leaves its column, no older issue is under a lease, no
age wraps around and no project name has a line break; or when nothing is published because one
does, and nothing is ready. The local store counts what is open, past its grace and unblocked; a
lease is no part of its query. -/
theorem queueAge_iff {cfg : Db.Config} {l : Locked Tables} (h : Reachable cfg l)
    {s : Adapter.Inner} (hsim : Adapter.Sim s l.state) (now : Int) :
    Measures s l.state now ↔
      ((measured l.state).Fits now ∧ Leased l.state now ∧ Wrapped l.state now ∧
        OneLine l.state now) ∨
      (¬ (measured l.state).Fits now ∧ readyIssues none now l.state = []) := by
  have hqueued := queued_of_reachable h now
  by_cases hfits : (measured l.state).Fits now
  · rw [measures_of_fits hqueued hsim hfits]
    simp [hfits]
  · rw [measures_of_unfit hqueued hsim hfits]
    simp [hfits]

/-- An issue that is ready a while after it was created. -/
def queuedIssue : List Action := [.op (.ensureProject "p" "/p" "p" 0),
  .op (.create { id := some "x", project := some "p" } [] 0)]

/-- The same issue, claimed by an agent. -/
def workedIssue : List Action := queuedIssue ++ [.op (.claim ⟨"x", "a", .agent, some 60⟩ 1000000)]

/-- The adapter can be given the same calls. -/
theorem sim_queuedIssue : ∃ s, Adapter.Sim s (Action.run {} queuedIssue (opened "s")).state := by
  have hstarted := @Adapter.inStep_started False {} "s" [⟨"p", "/p", "p", 0⟩] (by decide)
  have hstep := (@Adapter.InStep.step _ {} _ _ hstarted
    (.create { id := some "x", project := some "p" } [] 0) rfl trivial False.elim).1
  generalize hl : Db.step _ _ _ = l' at hstep
  have hstate : (Action.run {} queuedIssue (opened "s")) = l' := hl
  rw [hstate]
  cases hstep with
  | healthy h hs => exact ⟨_, h.sim⟩
  | poisoned h h' =>
      rw [← hstate] at h'
      cases h'

/-- The age of the only issue is published by both stores. -/
theorem queueAge_queued : ∃ s, Measures s (Action.run {} queuedIssue (opened "s")).state 1000000 ∧
    (readyAges (Action.run {} queuedIssue (opened "s")).state "p" 1000000).max? = some 1000000 := by
  obtain ⟨s, hsim⟩ := sim_queuedIssue
  refine ⟨s, (queueAge_iff ⟨"s", queuedIssue, rfl⟩ hsim 1000000).mpr (Or.inl ⟨?_, ?_, ?_, ?_⟩), ?_⟩
  · exact ⟨by decide, by decide, by decide, by decide⟩
  · intro id row hrow _ _ _ hheld
    have hfree : ∀ r ∈ (Action.run {} queuedIssue (opened "s")).state.issue.rows,
        heldAt r.2.assignee r.2.expiresAt 1000000 = false := by decide
    rw [hfree (id, row) (Table.mem_rows.mpr hrow)] at hheld
    cases hheld
  · unfold Wrapped
    decide
  · unfold OneLine
    decide
  · decide

/-- While the agent works on the issue, nothing is ready, and the local store publishes its age. -/
theorem queueAge_worked : Reachable {} (Action.run {} workedIssue (opened "s")) ∧
    (readyAges (Action.run {} workedIssue (opened "s")).state "p" 1000000).max? = none ∧
    ("p", 1000000) ∈ Db.queueSamples 1000000 (Action.run {} workedIssue (opened "s")).state := by
  have hfits : (measured (Action.run {} workedIssue (opened "s")).state).Fits 1000000 :=
    ⟨by decide, by decide, by decide, by decide⟩
  refine ⟨⟨"s", workedIssue, rfl⟩, by decide, ?_⟩
  rw [Db.queueSamples_eq (by decide) hfits, mem_greatest]
  decide

end Measures

end Marbles
