import Marbles.Db.History
import Marbles.Hierarchy
import Marbles.Lib.Counts
import Marbles.Lib.Exposition
import Marbles.QueueAge
import Mathlib.Algebra.BigOperators.Ring.Finset
import Mathlib.Algebra.Order.BigOperators.Group.List

/-!
# What a scrape reads

The measurements are published as a text, and a scraper reads the text. `scraped` says that it reads
exactly what the rows hold, whatever the projects are called: no value of a label ends a line or a
quote, and no series is published twice.

`counters_never_reset` is about two scrapes with any scopes in between. `active_or_escalated` is
about a scrape after a sweep.

The text is parsed here by a small reader of the exposition format. The escaping of label values
is shown to be undone by the reader, for every text, and the names of the series are shown to be
different from each other; together these say that nothing is lost or merged on the way.
-/

namespace Marbles.Db

open Exposition (Sample Family)
open Importing (measured prometheusMetricsQuery_measured)
open Sorting (groupOn tally)

/-! ### The text is a log of lines -/

theorem prometheusLabel_escape (value : String) :
    (prometheusLabel value).toList = Exposition.escape value.toList := by
  rw [prometheusLabel, String.toList_join, List.flatMap_map, Exposition.escape]
  refine congrArg (fun f => List.flatMap f value.toList) (funext fun c => ?_)
  split
  · rfl
  · rfl
  · rfl
  · rename_i hslash hline hquote
    rw [Exposition.escapeChar.eq_4 _ hslash hline hquote]
    exact String.toList_singleton _

theorem sample_eq (name : String) (labels : List (String × String)) (value : Int) :
    sample name labels value = Lines.render [Exposition.line ⟨name, labels, value⟩] := by
  have hlabels : labels.map (String.toList ∘ fun l => l.1 ++ "=\"" ++ prometheusLabel l.2 ++ "\"") =
      labels.map Exposition.labelChars := by
    refine List.map_congr_left fun l _ => ?_
    rw [Function.comp_apply, String.toList_append, String.toList_append, String.toList_append,
      prometheusLabel_escape, Exposition.labelChars, List.append_assoc, List.append_assoc]
    rfl
  rw [← String.toList_inj, Lines.toList_render, sample, List.flatMap_singleton, Exposition.line,
    String.toList_ofList]
  simp only [String.toList_append, String.toList_intercalate, List.map_map, hlabels,
    List.append_assoc, List.cons_append]
  rfl

theorem join_samples {α : Type} (items : List α) (f : α → Sample) :
    String.join (items.map fun a => sample (f a).name (f a).labels (f a).value) =
      Lines.render ((items.map f).map Exposition.line) := by
  induction items with
  | nil => rfl
  | cons a items ih =>
      rw [List.map_cons, String.join_cons, ih, sample_eq, ← Lines.render_append]
      rfl

/-- What the measurements are, as comments. A scraper passes over them, but they have to be lines of
the format. -/
def headerLines : List String :=
  ["# HELP marbles_issues Current issues by project and status.",
    "# TYPE marbles_issues gauge",
    "# HELP marbles_queue_oldest_age_seconds Age of the oldest currently ready issue.",
    "# TYPE marbles_queue_oldest_age_seconds gauge",
    "# HELP marbles_claims_active Current unexpired claims by project and actor kind.",
    "# TYPE marbles_claims_active gauge",
    "# HELP marbles_events_total Durable tracker transitions by project and event.",
    "# TYPE marbles_events_total counter",
    "# HELP marbles_claim_latency_seconds Time from issue creation to first claim.",
    "# TYPE marbles_claim_latency_seconds summary",
    "# HELP marbles_cycle_time_seconds Time from issue creation to evidence-backed close.",
    "# TYPE marbles_cycle_time_seconds summary",
    "# HELP marbles_review_time_seconds Time from first review state to close.",
    "# TYPE marbles_review_time_seconds summary"]

theorem metricsHeader_eq : metricsHeader = Lines.render headerLines := by
  unfold metricsHeader headerLines
  simp only [Lines.render_cons, Lines.render_nil, String.append_assoc, String.append_empty]
  rfl

theorem headerLines_comments :
    ∀ c ∈ headerLines, Lines.OneLine c ∧ Exposition.isComment c = true := by
  intro c hc
  have hall : ∀ c ∈ headerLines, ('\n' ∉ c.toList ∧ c.toList.getLast? ≠ some '\r') ∧
    Exposition.isComment c = true := by decide +kernel
  exact ⟨⟨(hall c hc).1.1, (hall c hc).1.2⟩, (hall c hc).2⟩

/-! ### The families -/

/-- How often each pair of labels occurs. -/
def countFamily (name second : String) (pairs : List (String × String)) : Family where
  names := [name]
  samples := (tally (pairs.map toLex)).map fun c =>
    ⟨name, [("project", (ofLex c.1).1), (second, (ofLex c.1).2)], c.2⟩
  named := fun s hs => by
    obtain ⟨c, -, rfl⟩ := List.mem_map.mp hs
    exact List.mem_singleton_self _

/-- The age of the oldest queued issue of each project. -/
def ageFamily (name : String) (now : Int) (queued : List (String × IssueRow)) : Family where
  names := [name]
  samples := (groupOn (fun r => r.2.project) queued).map fun g =>
    ⟨name, [("project", g.1)], max (now - (g.2.map fun r => r.2.createdAt).min?.getD 0) 0⟩
  named := fun s hs => by
    obtain ⟨c, -, rfl⟩ := List.mem_map.mp hs
    exact List.mem_singleton_self _

/-- Sum and number of the durations of each project that are not negative. A negative duration, of a
clock that was set back, is left out by the source. -/
def spanFamily (metric : String) (spans : List (String × Int × Int)) : Family where
  names := [metric ++ "_sum", metric ++ "_count"]
  samples := (groupOn (fun s => s.1) (spans.filter fun s => s.2.1 ≤ s.2.2)).flatMap fun g =>
    [⟨metric ++ "_sum", [("project", g.1)], (g.2.map fun s => s.2.2 - s.2.1).sum⟩,
      ⟨metric ++ "_count", [("project", g.1)], g.2.length⟩]
  named := fun s hs => by
    obtain ⟨g, -, hs⟩ := List.mem_flatMap.mp hs
    rcases List.mem_cons.mp hs with rfl | hs
    · exact List.mem_cons_self ..
    · obtain rfl := List.mem_singleton.mp hs
      exact List.mem_cons_of_mem _ (List.mem_singleton_self _)

namespace MetricRows

/-- The claims that have not lapsed. -/
def live (m : MetricRows) (now : Int) : List (String × IssueRow) :=
  m.issues.filter fun r => r.2.assignee.isSome && r.2.expiresAt.any (· > now)

/-- The project and the kind of every event about an issue that is there. -/
def events (m : MetricRows) : List (String × String) :=
  m.history.filterMap fun h => (m.projectOf h.issueId).map fun p => (p, h.event)

/-- The families of a scrape, in the order in which they are printed. The text is rendered from
them, and what a scraper reads is compared with them. -/
def families (m : MetricRows) (now : Int) : List Family :=
  [countFamily "marbles_issues" "status" (m.issues.map fun r => (r.2.project, r.2.status.asStr)),
    ageFamily "marbles_queue_oldest_age_seconds" now (m.queued now),
    countFamily "marbles_claims_active" "actor_kind"
      ((m.live now).filterMap fun r => r.2.actorKind.map fun kind => (r.2.project, kind)),
    countFamily "marbles_events_total" "event" m.events,
    spanFamily "marbles_claim_latency_seconds" m.claimLatency,
    spanFamily "marbles_cycle_time_seconds" m.cycleTime,
    spanFamily "marbles_review_time_seconds" m.reviewTime]

/-- All samples, without the families they are in. -/
def samples (m : MetricRows) (now : Int) : List Sample := (m.families now).flatMap Family.samples

theorem families_disjoint (m : MetricRows) (now : Int) :
    ((m.families now).map Family.names).Pairwise List.Disjoint := by
  change List.Pairwise List.Disjoint [["marbles_issues"], ["marbles_queue_oldest_age_seconds"],
    ["marbles_claims_active"], ["marbles_events_total"],
    ["marbles_claim_latency_seconds" ++ "_sum", "marbles_claim_latency_seconds" ++ "_count"],
    ["marbles_cycle_time_seconds" ++ "_sum", "marbles_cycle_time_seconds" ++ "_count"],
    ["marbles_review_time_seconds" ++ "_sum", "marbles_review_time_seconds" ++ "_count"]]
  simp [List.disjoint_left]

/-! ### What is rendered -/

/-- The groups of a query are counted as one family. -/
theorem join_counts {α : Type} {name second : String} {key : α → Lex (String × String)}
    {pairs : List (String × String)} (l : List α) (hpairs : pairs.map toLex = l.map key) :
    String.join ((groupOn key l).map fun g =>
      sample name [("project", (ofLex g.1).1), (second, (ofLex g.1).2)] g.2.length) =
        Lines.render ((countFamily name second pairs).samples.map Exposition.line) := by
  have hgroups : (countFamily name second pairs).samples = (groupOn key l).map fun g =>
      ⟨name, [("project", (ofLex g.1).1), (second, (ofLex g.1).2)], g.2.length⟩ := by
    change (tally (pairs.map toLex)).map _ = _
    rw [hpairs, Sorting.tally_map, List.map_map]
    rfl
  rw [hgroups]
  exact join_samples (groupOn key l) fun g =>
    ⟨name, [("project", (ofLex g.1).1), (second, (ofLex g.1).2)], g.2.length⟩

theorem queueAges_ok {m : MetricRows} {now : Int} {ages : List (String × Int)}
    (h : m.queueAges now = .ok ages) : ages = (groupOn (fun r => r.2.project) (m.queued now)).map
      fun g => (g.1, max (now - (g.2.map fun r => r.2.createdAt).min?.getD 0) 0) := by
  refine Outcome.mapM_eq_map h fun g _ a ha => ?_
  obtain ⟨age, hage, ha⟩ := Outcome.bind_eq_ok.mp ha
  obtain ⟨-, rfl⟩ := column_eq_ok.mp hage
  cases ha
  rfl

theorem claimsActive_ok {m : MetricRows} {now : Int} {claims : List ((String × String) × Nat)}
    (h : m.claimsActive now = .ok claims) : ∃ kinds : List (Lex (String × String)),
      kinds = ((m.live now).filterMap fun r => r.2.actorKind.map fun kind =>
        (r.2.project, kind)).map toLex ∧
      claims = (groupOn (fun k => k) kinds).map fun g => (ofLex g.1, g.2.length) := by
  obtain ⟨kinds, hkinds, h⟩ := Outcome.bind_eq_ok.mp h
  cases h
  refine ⟨kinds, ?_, rfl⟩
  rw [List.map_filterMap]
  refine Outcome.mapM_eq_filterMap hkinds fun r k hk => ?_
  split at hk
  · rename_i kind hkind
    cases hk
    rw [hkind]
    rfl
  · exact absurd hk Outcome.fail_ne_ok

theorem durations_ok {spans : List (String × Int × Int)} {rows : List (String × Int × Nat)}
    (h : durations spans = .ok rows) :
    rows = (groupOn (fun s => s.1) (spans.filter fun s => s.2.1 ≤ s.2.2)).map fun g =>
      (g.1, (g.2.map fun s => s.2.2 - s.2.1).sum, g.2.length) := by
  refine Outcome.mapM_eq_map h fun g hg row hrow => ?_
  obtain ⟨lengths, hlengths, hrow⟩ := Outcome.bind_eq_ok.mp hrow
  obtain ⟨sum, hsum, hrow⟩ := Outcome.bind_eq_ok.mp hrow
  have hmap : lengths = g.2.map fun s => s.2.2 - s.2.1 :=
    Outcome.mapM_eq_map hlengths fun s _ n hn => (column_eq_ok.mp hn).2
  obtain ⟨-, rfl⟩ := column_eq_ok.mp hsum
  cases hrow
  -- only spans that are not negative are summed
  have hpos : 0 ≤ lengths.sum := by
    rw [hmap]
    refine List.sum_nonneg fun n hn => ?_
    obtain ⟨s, hs, rfl⟩ := List.mem_map.mp hn
    rw [(Sorting.mem_groupOn.mp hg).2] at hs
    have hle := (List.mem_filter.mp (List.mem_filter.mp hs).1).2
    have hspan : s.2.1 ≤ s.2.2 := of_decide_eq_true hle
    omega
  rw [max_eq_left hpos, hmap]

theorem durationSamples_eq {metric : String} {spans : List (String × Int × Int)}
    {rows : List (String × Int × Nat)} (h : durations spans = .ok rows) :
    durationSamples metric rows =
      Lines.render ((spanFamily metric spans).samples.map Exposition.line) := by
  rw [durations_ok h, durationSamples]
  change _ = Lines.render ((List.flatMap _ (groupOn (fun s => s.1) (spans.filter fun s =>
    s.2.1 ≤ s.2.2))).map Exposition.line)
  induction groupOn (fun s => s.1) (spans.filter fun s => s.2.1 ≤ s.2.2) with
  | nil => rfl
  | cons g groups ih =>
      rw [List.map_cons, List.map_cons, String.join_cons, ih, List.flatMap_cons, List.map_append,
        Lines.render_append, sample_eq, sample_eq, ← Lines.render_append]
      rfl

/-- What is answered is the comments and the samples, a line each. -/
theorem render_ok {m : MetricRows} {now : Int} {text : String} (h : m.render now = .ok text) :
    text = Lines.render (headerLines ++ (m.samples now).map Exposition.line) := by
  obtain ⟨ages, hages, h⟩ := Outcome.bind_eq_ok.mp h
  obtain ⟨claims, hclaims, h⟩ := Outcome.bind_eq_ok.mp h
  obtain ⟨latency, hlatency, h⟩ := Outcome.bind_eq_ok.mp h
  obtain ⟨cycle, hcycle, h⟩ := Outcome.bind_eq_ok.mp h
  obtain ⟨review, hreview, h⟩ := Outcome.bind_eq_ok.mp h
  cases h
  obtain ⟨kinds, hkinds, hcounts⟩ := claimsActive_ok hclaims
  -- One block of the text after the other, each the lines of one family of samples.
  have hissues : m.issueSamples = Lines.render ((countFamily "marbles_issues" "status"
      (m.issues.map fun r => (r.2.project, r.2.status.asStr))).samples.map Exposition.line) :=
    join_counts m.issues (List.map_map ..)
  have hqueue : String.join (ages.map fun a =>
      sample "marbles_queue_oldest_age_seconds" [("project", a.1)] a.2) =
        Lines.render ((ageFamily "marbles_queue_oldest_age_seconds" now (m.queued now)).samples.map
          Exposition.line) := by
    rw [queueAges_ok hages, List.map_map]
    exact join_samples (groupOn (fun r => r.2.project) (m.queued now)) fun g =>
      ⟨"marbles_queue_oldest_age_seconds", [("project", g.1)],
        max (now - (g.2.map fun r => r.2.createdAt).min?.getD 0) 0⟩
  have hlive : String.join (claims.map fun c =>
      sample "marbles_claims_active" [("project", c.1.1), ("actor_kind", c.1.2)] c.2) =
        Lines.render ((countFamily "marbles_claims_active" "actor_kind"
          ((m.live now).filterMap fun r => r.2.actorKind.map fun kind =>
            (r.2.project, kind))).samples.map Exposition.line) := by
    rw [hcounts, List.map_map]
    exact join_counts kinds (by rw [List.map_id', hkinds])
  have hevents : m.eventSamples = Lines.render ((countFamily "marbles_events_total" "event"
      m.events).samples.map Exposition.line) := by
    refine join_counts _ ?_
    rw [List.map_id', events, List.map_filterMap]
    refine congrArg (fun f => List.filterMap f m.history) (funext fun e => ?_)
    rw [Option.map_map]
    rfl
  rw [metricsHeader_eq, hissues, hqueue, hlive, hevents, durationSamples_eq hlatency,
    durationSamples_eq hcycle, durationSamples_eq hreview, samples, families]
  simp only [← Lines.render_append, List.flatMap_cons, List.flatMap_nil, List.map_append,
    List.append_nil, List.append_assoc]

/-! ### Names -/

/-- A name of the format. -/
def IsName (name : String) : Prop :=
  name.toList ≠ [] ∧ ∀ c ∈ name.toList, Exposition.isNameChar c = true

/-- Whether a text is a name is read off its characters. -/
theorem isName_of_all {name : String} (hsome : name.toList.isEmpty = false)
    (hall : name.toList.all Exposition.isNameChar = true) : IsName name :=
  ⟨List.isEmpty_eq_false_iff.mp hsome, List.all_eq_true.mp hall⟩

theorem IsName.append {name suffix : String} (h : IsName name)
    (hsuffix : ∀ c ∈ suffix.toList, Exposition.isNameChar c = true) : IsName (name ++ suffix) := by
  rw [IsName, String.toList_append]
  refine ⟨List.append_ne_nil_of_left_ne_nil h.1 _, fun c hc => ?_⟩
  exact (List.mem_append.mp hc).elim (h.2 c) (hsuffix c)

theorem isName_project : IsName "project" := isName_of_all rfl rfl

/-- A sample about a project is under a name, and its labels are. -/
theorem named_project {name : String} (hname : IsName name) (project : String) (value : Int) :
    (⟨name, [("project", project)], value⟩ : Sample).Named where
  nonempty := hname.1
  name := hname.2
  some := List.cons_ne_nil _ _
  labels := by
    intro l hl
    obtain rfl := List.mem_singleton.mp hl
    exact isName_project.2

theorem named_countFamily {name second : String} {pairs : List (String × String)}
    (hname : IsName name) (hsecond : IsName second) :
    ∀ s ∈ (countFamily name second pairs).samples, s.Named := by
  intro s hs
  obtain ⟨c, -, rfl⟩ := List.mem_map.mp hs
  refine ⟨hname.1, hname.2, List.cons_ne_nil _ _, fun l hl => ?_⟩
  rcases List.mem_cons.mp hl with rfl | hl
  · exact isName_project.2
  · obtain rfl := List.mem_singleton.mp hl
    exact hsecond.2

theorem named_spanFamily {metric : String} {spans : List (String × Int × Int)}
    (hmetric : IsName metric) : ∀ s ∈ (spanFamily metric spans).samples, s.Named := by
  have hsum : IsName (metric ++ "_sum") := hmetric.append (List.all_eq_true.mp rfl)
  have hcount : IsName (metric ++ "_count") := hmetric.append (List.all_eq_true.mp rfl)
  intro s hs
  obtain ⟨g, -, hs⟩ := List.mem_flatMap.mp hs
  rcases List.mem_cons.mp hs with rfl | hs
  · exact named_project hsum _ _
  · obtain rfl := List.mem_singleton.mp hs
    exact named_project hcount _ _

theorem named_samples (m : MetricRows) (now : Int) : ∀ s ∈ m.samples now, s.Named := by
  intro s hs
  obtain ⟨f, hf, hs⟩ := List.mem_flatMap.mp hs
  simp only [families, List.mem_cons, List.not_mem_nil, or_false] at hf
  rcases hf with rfl | rfl | rfl | rfl | rfl | rfl | rfl
  · exact named_countFamily (isName_of_all rfl rfl) (isName_of_all rfl rfl) s hs
  · obtain ⟨g, -, rfl⟩ := List.mem_map.mp hs
    exact named_project (isName_of_all rfl rfl) _ _
  · exact named_countFamily (isName_of_all rfl rfl) (isName_of_all rfl rfl) s hs
  · exact named_countFamily (isName_of_all rfl rfl) (isName_of_all rfl rfl) s hs
  · exact named_spanFamily (isName_of_all rfl rfl) s hs
  · exact named_spanFamily (isName_of_all rfl rfl) s hs
  · exact named_spanFamily (isName_of_all rfl rfl) s hs

/-- A scraper reads the samples. -/
theorem scrape_render {m : MetricRows} {now : Int} {text : String} (h : m.render now = .ok text) :
    Exposition.scrape text = some (m.samples now) := by
  rw [render_ok h]
  exact Exposition.scrape_text headerLines_comments (m.named_samples now)

/-! ### Each series once -/

theorem once_countFamily (name second : String) (pairs : List (String × String)) :
    ((countFamily name second pairs).samples.map Sample.series).Nodup := by
  have hseries : (countFamily name second pairs).samples.map Sample.series =
      ((tally (pairs.map toLex)).map Prod.fst).map fun k =>
        (name, [("project", (ofLex k).1), (second, (ofLex k).2)]) := by
    rw [countFamily, List.map_map, List.map_map]
    rfl
  rw [hseries]
  refine (Sorting.nodup_tally _).map fun k k' heq => ?_
  simp only [Prod.mk.injEq, List.cons.injEq, true_and, and_true] at heq
  exact ofLex.injective (Prod.ext heq.1 heq.2)

theorem once_ageFamily (name : String) (now : Int) (queued : List (String × IssueRow)) :
    ((ageFamily name now queued).samples.map Sample.series).Nodup := by
  have hseries : (ageFamily name now queued).samples.map Sample.series =
      ((groupOn (fun r => r.2.project) queued).map Prod.fst).map fun project =>
        (name, [("project", project)]) := by
    rw [ageFamily, List.map_map, List.map_map]
    rfl
  rw [hseries]
  refine (Sorting.nodup_groupOn _ _).map fun project project' heq => ?_
  simpa using heq

theorem once_spanFamily (metric : String) (spans : List (String × Int × Int)) :
    ((spanFamily metric spans).samples.map Sample.series).Nodup := by
  have hnames : metric ++ "_sum" ≠ metric ++ "_count" := by
    intro heq
    rw [← String.toList_inj, String.toList_append, String.toList_append] at heq
    exact absurd (List.append_cancel_left heq) (by decide +kernel)
  change (List.map Sample.series (List.flatMap _ _)).Nodup
  rw [List.map_flatMap, List.nodup_flatMap]
  constructor
  · intro g _
    simp [Sample.series, hnames]
  · have hkeys := Sorting.nodup_groupOn (fun s : String × Int × Int => s.1)
      (spans.filter fun s => s.2.1 ≤ s.2.2)
    refine (List.pairwise_map.mp hkeys).imp fun hne => ?_
    intro series hleft hright
    simp only [Sample.series, List.map_cons, List.map_nil, List.mem_cons, List.not_mem_nil,
      or_false] at hleft hright
    rcases hleft with rfl | rfl <;> simp [hne, hnames, Ne.symm hnames] at hright

/-- No series is published twice. -/
theorem once_samples (m : MetricRows) (now : Int) :
    ((m.samples now).map Sample.series).Nodup := by
  refine Exposition.nodup_series (m.families_disjoint now) fun f hf => ?_
  simp only [families, List.mem_cons, List.not_mem_nil, or_false] at hf
  rcases hf with rfl | rfl | rfl | rfl | rfl | rfl | rfl
  · exact once_countFamily ..
  · exact once_ageFamily ..
  · exact once_countFamily ..
  · exact once_countFamily ..
  · exact once_spanFamily ..
  · exact once_spanFamily ..
  · exact once_spanFamily ..

/-! ### What is counted -/

/-- A pair of labels is shown with its count exactly when it occurs. -/
theorem mem_countFamily {name second project label : String} {pairs : List (String × String)}
    {n : Int} : (⟨name, [("project", project), (second, label)], n⟩ : Sample) ∈
      (countFamily name second pairs).samples ↔
        n = pairs.count (project, label) ∧ 0 < pairs.count (project, label) := by
  have hcount : @List.count _ instBEqOfDecidableEq (toLex (project, label)) (pairs.map toLex) =
      pairs.count (project, label) :=
    @List.count_map_of_injective _ _ _ _ instBEqOfDecidableEq inferInstance pairs toLex
      toLex.injective _
  change _ ∈ (tally (pairs.map toLex)).map _ ↔ _
  rw [List.mem_map]
  constructor
  · intro h
    obtain ⟨⟨k, count⟩, hc, heq⟩ := h
    simp only [Sample.mk.injEq, List.cons.injEq, Prod.mk.injEq, true_and, and_true] at heq
    obtain ⟨⟨hproject, hlabel⟩, rfl⟩ := heq
    have hk : k = toLex (project, label) := ofLex.injective (Prod.ext hproject hlabel)
    rw [hk] at hc
    obtain ⟨rfl, hpos⟩ := Sorting.mem_tally.mp hc
    exact ⟨congrArg Int.ofNat hcount, hcount ▸ hpos⟩
  · intro h
    obtain ⟨rfl, hpos⟩ := h
    refine ⟨(toLex (project, label), pairs.count (project, label)), ?_, rfl⟩
    exact Sorting.mem_tally.mpr ⟨hcount.symm, hpos⟩

/-- The durations of a project that are not negative. -/
def spansOf (spans : List (String × Int × Int)) (project : String) : List (String × Int × Int) :=
  spans.filter fun s => s.1 = project ∧ s.2.1 ≤ s.2.2

theorem mem_groups {spans : List (String × Int × Int)} {g : String × List (String × Int × Int)} :
    g ∈ groupOn (fun s => s.1) (spans.filter fun s => s.2.1 ≤ s.2.2) ↔
      g.2 = spansOf spans g.1 ∧ spansOf spans g.1 ≠ [] := by
  have hfilter : (spans.filter fun s => s.2.1 ≤ s.2.2).filter (fun s => s.1 = g.1) =
      spansOf spans g.1 := by
    rw [List.filter_filter, spansOf]
    refine List.filter_congr fun s _ => ?_
    rw [← Bool.decide_and]
  have hkey : g.1 ∈ (spans.filter fun s => s.2.1 ≤ s.2.2).map (fun s => s.1) ↔
      spansOf spans g.1 ≠ [] := by
    rw [← hfilter, Ne, List.filter_eq_nil_iff]
    simp [List.mem_map]
  rw [Sorting.mem_groupOn, hkey, hfilter]
  exact and_comm

/-- Sum and number are shown of the durations of a project that has any. -/
theorem mem_spanFamily {metric project : String} {spans : List (String × Int × Int)} {n : Int} :
    ((⟨metric ++ "_sum", [("project", project)], n⟩ : Sample) ∈ (spanFamily metric spans).samples ↔
      n = ((spansOf spans project).map fun s => s.2.2 - s.2.1).sum ∧ spansOf spans project ≠ []) ∧
    ((⟨metric ++ "_count", [("project", project)], n⟩ : Sample) ∈
        (spanFamily metric spans).samples ↔
      n = (spansOf spans project).length ∧ spansOf spans project ≠ []) := by
  -- A family has two samples for each project, and their names tell them apart.
  have hnames : metric ++ "_sum" ≠ metric ++ "_count" := by
    intro heq
    rw [← String.toList_inj, String.toList_append, String.toList_append] at heq
    exact absurd (List.append_cancel_left heq) (by decide +kernel)
  have hmem : ∀ s : Sample, s ∈ (spanFamily metric spans).samples ↔
      ∃ g ∈ groupOn (fun s => s.1) (spans.filter fun s => s.2.1 ≤ s.2.2),
        s = ⟨metric ++ "_sum", [("project", g.1)], (g.2.map fun s => s.2.2 - s.2.1).sum⟩ ∨
          s = ⟨metric ++ "_count", [("project", g.1)], g.2.length⟩ := by
    intro s
    change s ∈ List.flatMap _ _ ↔ _
    rw [List.mem_flatMap]
    simp only [List.mem_cons, List.not_mem_nil, or_false]
  constructor
  · rw [hmem]
    constructor
    · intro h
      obtain ⟨g, hg, heq | heq⟩ := h
      · simp only [Sample.mk.injEq, List.cons.injEq, Prod.mk.injEq, true_and, and_true] at heq
        obtain ⟨rfl, rfl⟩ := heq
        obtain ⟨hspans, hsome⟩ := mem_groups.mp hg
        exact ⟨by rw [hspans], hsome⟩
      · exact absurd (congrArg Sample.name heq) hnames
    · intro h
      obtain ⟨rfl, hsome⟩ := h
      exact ⟨(project, spansOf spans project), mem_groups.mpr ⟨rfl, hsome⟩, Or.inl rfl⟩
  · rw [hmem]
    constructor
    · intro h
      obtain ⟨g, hg, heq | heq⟩ := h
      · exact absurd (congrArg Sample.name heq) hnames.symm
      · simp only [Sample.mk.injEq, List.cons.injEq, Prod.mk.injEq, true_and, and_true] at heq
        obtain ⟨rfl, rfl⟩ := heq
        obtain ⟨hspans, hsome⟩ := mem_groups.mp hg
        exact ⟨by rw [hspans], hsome⟩
    · intro h
      obtain ⟨rfl, hsome⟩ := h
      exact ⟨(project, spansOf spans project), mem_groups.mpr ⟨rfl, hsome⟩, Or.inr rfl⟩

/-- What the samples of a scrape say of the rows. Each series stands there once, so its number is
the number. -/
structure Shown (m : MetricRows) (now : Int) (samples : List Sample) : Prop where
  once : (samples.map Sample.series).Nodup
  issues : ∀ project status (n : Int),
    ⟨"marbles_issues", [("project", project), ("status", status)], n⟩ ∈ samples ↔
      n = (m.issues.countP fun r => r.2.project = project ∧ r.2.status.asStr = status) ∧ 0 < n
  claims : ∀ project kind (n : Int),
    ⟨"marbles_claims_active", [("project", project), ("actor_kind", kind)], n⟩ ∈ samples ↔
      n = ((m.live now).countP fun r => r.2.project = project ∧ r.2.actorKind = some kind) ∧ 0 < n
  events : ∀ project event (n : Int),
    ⟨"marbles_events_total", [("project", project), ("event", event)], n⟩ ∈ samples ↔
      n = (m.history.countP fun h => m.projectOf h.issueId = some project ∧ h.event = event) ∧ 0 < n
  spans : ∀ metric spans, (metric, spans) ∈ [("marbles_claim_latency_seconds", m.claimLatency),
      ("marbles_cycle_time_seconds", m.cycleTime), ("marbles_review_time_seconds", m.reviewTime)] →
    ∀ project (n : Int),
      (⟨metric ++ "_sum", [("project", project)], n⟩ ∈ samples ↔
        n = ((spansOf spans project).map fun s => s.2.2 - s.2.1).sum ∧
          spansOf spans project ≠ []) ∧
      (⟨metric ++ "_count", [("project", project)], n⟩ ∈ samples ↔
        n = (spansOf spans project).length ∧ spansOf spans project ≠ [])

theorem count_eq {α : Type} {f : α → Option (String × String)} {p : α → Bool} (l : List α)
    {k : String × String} (h : ∀ a, f a = some k ↔ p a = true) :
    (l.filterMap f).count k = l.countP p := by
  rw [List.count, List.countP_filterMap]
  refine List.countP_congr fun a _ => ?_
  rw [← h a]
  cases f a with
  | none => simp
  | some b => simp

theorem shown_samples (m : MetricRows) (now : Int) : Shown m now (m.samples now) := by
  have hpos : ∀ {n : Int} {c : Nat}, n = c ∧ 0 < c ↔ n = c ∧ 0 < n := by omega
  have hin : ∀ {f : Family}, f ∈ m.families now → ∀ {s : Sample}, s.name ∈ f.names →
      (s ∈ m.samples now ↔ s ∈ f.samples) := fun hf _ hs =>
    Exposition.mem_samples (m.families_disjoint now) hf hs
  refine ⟨m.once_samples now, fun project status n => ?_, fun project kind n => ?_,
    fun project event n => ?_, fun metric spans hspans project n => ?_⟩
  · rw [hin (List.mem_cons_self ..) (List.mem_singleton_self _), mem_countFamily, hpos]
    have hcount := @count_eq _ (fun r : String × IssueRow => some (r.2.project, r.2.status.asStr))
      (fun r => r.2.project = project ∧ r.2.status.asStr = status) m.issues (project, status)
      fun r => by simp
    rw [List.filterMap_eq_map'] at hcount
    rw [hcount]
  · have hfamily : countFamily "marbles_claims_active" "actor_kind" ((m.live now).filterMap fun r =>
        r.2.actorKind.map fun kind => (r.2.project, kind)) ∈ m.families now := by simp [families]
    rw [hin hfamily (List.mem_singleton_self _), mem_countFamily, hpos,
      @count_eq _ _ (fun r : String × IssueRow => r.2.project = project ∧ r.2.actorKind = some kind)
        (m.live now) (project, kind) fun r => by simp [and_comm]]
  · have hfamily : countFamily "marbles_events_total" "event" m.events ∈ m.families now := by
      simp [families]
    rw [hin hfamily (List.mem_singleton_self _), mem_countFamily, hpos, events,
      @count_eq _ _ (fun h => m.projectOf h.issueId = some project ∧ h.event = event)
        m.history (project, event) fun h => by simp]
  · have hfamily : spanFamily metric spans ∈ m.families now := by
      simp only [List.mem_cons, List.not_mem_nil, or_false, Prod.mk.injEq] at hspans
      rcases hspans with ⟨rfl, rfl⟩ | ⟨rfl, rfl⟩ | ⟨rfl, rfl⟩ <;> simp [families]
    rw [hin hfamily (List.mem_cons_self ..),
      hin hfamily (List.mem_cons_of_mem _ (List.mem_singleton_self _))]
    exact mem_spanFamily

theorem samples_claims (m : MetricRows) (now : Int) :
    (m.samples now).filter (fun s => s.name = "marbles_claims_active") =
      (countFamily "marbles_claims_active" "actor_kind" ((m.live now).filterMap fun r =>
        r.2.actorKind.map fun kind => (r.2.project, kind))).samples := by
  simp only [samples, families, List.flatMap_cons, List.flatMap_nil, List.filter_append]
  rw [Family.filter_nil, Family.filter_nil, Family.filter_self rfl, Family.filter_nil,
    Family.filter_nil, Family.filter_nil, Family.filter_nil]
  · simp
  all_goals simp [countFamily, ageFamily, spanFamily]

/-- Where every claim has a kind, the live claims are all counted. -/
theorem total_claims {m : MetricRows} {now : Int}
    (hkind : ∀ r ∈ m.live now, r.2.actorKind.isSome = true) :
    Exposition.total "marbles_claims_active" (m.samples now) = (m.live now).length := by
  have hvalues : ∀ pairs : List (String × String),
      (((countFamily "marbles_claims_active" "actor_kind" pairs).samples.map Sample.value).sum) =
        ((pairs.length : Nat) : Int) := by
    intro pairs
    have hsum := Sorting.sum_tally (pairs.map toLex)
    rw [List.length_map] at hsum
    rw [← hsum, Nat.cast_list_sum, List.map_map]
    exact congrArg List.sum (List.map_map ..)
  rw [Exposition.total, samples_claims, hvalues]
  refine congrArg Int.ofNat ?_
  rw [List.length_filterMap_eq_countP, List.countP_eq_length]
  intro r hr
  rw [Option.isSome_map]
  exact hkind r hr

end MetricRows

/-! ### A scrape of the store -/

theorem prometheusMetrics_ok {cfg : Config} {now : Int} {l : Locked Tables} {text : String}
    (h : ((Scope.prometheusMetrics now).exec cfg l).1 = .ok text) :
    (measured l.state).render now = .ok text := Locked.query_answered h

/-- Whatever the store holds, and whatever its projects are called, a scraper reads from the text
every series once, with the number that the rows give. The names of projects are free texts, and are
escaped on the way. -/
theorem scraped {cfg : Config} {now : Int} {l : Locked Tables} {text : String}
    (h : ((Scope.prometheusMetrics now).exec cfg l).1 = .ok text) :
    ∃ samples, Exposition.scrape text = some samples ∧
      MetricRows.Shown (measured l.state) now samples :=
  ⟨_, MetricRows.scrape_render (prometheusMetrics_ok h), MetricRows.shown_samples ..⟩

/-- A store with a project whose name would end the line and the quote of its labels. -/
def quoted : Locked Tables :=
  Action.run {} [.op (.ensureProject "p\"\n" "/p" "p" 0),
    .op (.create { project := "p\"\n", title := "a", id := some "a" } [] 1),
    .op (.create { project := "p\"\n", title := "b", id := some "b" } [] 2),
    .op (.claim { id := "a", assignee := "agent", actorKind := .agent } 3),
    .op (.claim { id := "b", assignee := "human", actorKind := .human } 4)] (opened "s")

/-- A query that answers has an answer. -/
theorem exists_answer {α : Type} {r : Result α} (h : r.toOption.isSome = true) :
    ∃ a, r = .ok a := by
  cases r with
  | ok a => exact ⟨a, rfl⟩
  | error e => cases h

/-- The text of that store is read back. -/
theorem quoted_scraped : ∃ text samples,
    ((Scope.prometheusMetrics 100).exec {} quoted).1 = .ok text ∧
      Exposition.scrape text = some samples ∧
      MetricRows.Shown (measured quoted.state) 100 samples := by
  obtain ⟨text, htext⟩ := @exists_answer _ ((Scope.prometheusMetrics 100).exec {} quoted).1
    (by decide +kernel)
  obtain ⟨samples, hread, hshown⟩ := scraped htext
  exact ⟨text, samples, htext, hread, hshown⟩

/-! ### Two scrapes -/

/-- The history of the issues of a project. -/
def about (t : Tables) (project : String) : List HistoryRow :=
  (measured t).history.filter fun h => (measured t).projectOf h.issueId = some project

theorem projectOf_measured (t : Tables) (id : String) :
    (measured t).projectOf id = (t.issue.find id).map (·.project) := rfl

/-- An issue stays where it is until its project is dropped. -/
theorem Effect.project_stays {cfg : Config} {t t' : Tables} {s : Scope} (he : Effect cfg t s t')
    {project : String} (hs : s ≠ .dropProject project) {id : String}
    (h : (measured t).projectOf id = some project) :
    (measured t').projectOf id = some project := by
  rw [projectOf_measured, Option.map_eq_some_iff] at h ⊢
  obtain ⟨row, hrow, rfl⟩ := h
  obtain ⟨row', hrow'⟩ := he.stays hrow hs
  refine ⟨row', hrow', ?_⟩
  rcases (he.row hrow').placed with ⟨old, hold, -, hsame⟩ | ⟨hnone, -⟩
  · obtain rfl := Option.some.inj (hrow.symm.trans hold)
    exact hsame
  · rw [hrow] at hnone
    cases hnone

/-- What is known of the issues of a project stays known. -/
theorem about_mono {t t' : Tables} {project : String}
    (hstays : ∀ id, (measured t).projectOf id = some project →
      (measured t').projectOf id = some project)
    (hrows : (about t project).Sublist (measured t').history) :
    (about t project).Sublist (about t' project) := by
  have hfilter := hrows.filter fun h => decide ((measured t').projectOf h.issueId = some project)
  rwa [List.filter_eq_self.mpr] at hfilter
  intro h hmem
  have hproject := of_decide_eq_true (List.mem_filter.mp hmem).2
  exact decide_eq_true (hstays h.issueId hproject)

theorem about_exec (cfg : Config) {s : Scope} (l : Locked Tables) {project : String}
    (hs : s ≠ .dropProject project) :
    (about l.state project).Sublist (about (s.exec cfg l).2.state project) := by
  refine about_mono (fun id => (exec_effect cfg s l).project_stays hs) ?_
  by_cases hdrop : ∃ slug, s = .dropProject slug
  · obtain ⟨slug, rfl⟩ := hdrop
    have hne : slug ≠ project := fun heq => hs (heq ▸ rfl)
    have hwhole : (about l.state project).Sublist (measured l.state).history := List.filter_sublist
    refine @Locked.tx_preserves _ _ _ (dropProjectTx slug)
      (fun t' => (about l.state project).Sublist (measured t').history) l hwhole fun r t' hok => ?_
    obtain ⟨mine, hmine, rfl⟩ := dropProjectTx_ok hok
    -- the rows that go are about issues of another project
    have hkept : (measured l.state).history.filter (fun h => !mine h.issueId) =
        (l.state.ledger.forget mine).history.rows.map Prod.snd := by
      change (l.state.ledger.history.rows.map Prod.snd).filter _ = _
      rw [Ledger.history_forget, Journal.rows_filter, List.filter_map]
      rfl
    change (about l.state project).Sublist ((l.state.ledger.forget mine).history.rows.map Prod.snd)
    rw [← hkept]
    refine List.monotone_filter_right _ fun h hproject => ?_
    rw [decide_eq_true_eq, projectOf_measured, Option.map_eq_some_iff] at hproject
    obtain ⟨row, hrow, rfl⟩ := hproject
    simp [hmine, hrow, Ne.symm hne]
  · obtain ⟨new, hrows, -⟩ := (exec_grown cfg l fun slug heq => hdrop ⟨slug, heq⟩).appended
    have happended : (measured (s.exec cfg l).2.state).history =
        (measured l.state).history ++ new.map Prod.snd := by
      change ((s.exec cfg l).2.state.ledger.history.rows).map Prod.snd = _
      rw [hrows, List.map_append]
      rfl
    rw [happended]
    exact List.filter_sublist.trans (List.sublist_append_left ..)

theorem about_runs (cfg : Config) {scopes : List Scope} (l : Locked Tables) {project : String}
    (hscopes : ∀ s ∈ scopes, s ≠ .dropProject project) :
    (about l.state project).Sublist (about (Scope.runs cfg scopes l).state project) := by
  refine Machine.invariant_of_meets
    (fun l' : Locked Tables => (about l.state project).Sublist (about l'.state project))
    (fun l' s h hs => h.trans (about_exec cfg l' hs)) scopes (List.Sublist.refl _)
    (Machine.meets_of_forall (fun s hs _ => hscopes s hs) l)

theorem countP_about (t : Tables) (project event : String) :
    ((measured t).history.countP fun h =>
      (measured t).projectOf h.issueId = some project ∧ h.event = event) =
      (about t project).countP fun h => h.event = event := by
  rw [about, List.countP_filter]
  refine List.countP_congr fun h _ => ?_
  simp [and_comm]

/-- The counters of a project never fall and never vanish unless the project is dropped, whatever
else is done between two scrapes, and whichever other projects are dropped. They are sums over rows
that are only added, and deleted with their project alone. -/
theorem counters_never_reset {cfg : Config} {l : Locked Tables} {scopes : List Scope}
    {project : String} (hscopes : ∀ s ∈ scopes, s ≠ .dropProject project) {now now' : Int}
    {text text' : String} (h : ((Scope.prometheusMetrics now).exec cfg l).1 = .ok text)
    (h' : ((Scope.prometheusMetrics now').exec cfg (Scope.runs cfg scopes l)).1 = .ok text') :
    ∃ samples samples', Exposition.scrape text = some samples ∧
      Exposition.scrape text' = some samples' ∧
      ∀ event n, ⟨"marbles_events_total", [("project", project), ("event", event)], n⟩ ∈ samples →
        ∃ n', n ≤ n' ∧
          ⟨"marbles_events_total", [("project", project), ("event", event)], n'⟩ ∈ samples' := by
  have hshown := MetricRows.shown_samples (measured l.state) now
  have hshown' := MetricRows.shown_samples (measured (Scope.runs cfg scopes l).state) now'
  refine ⟨_, _, MetricRows.scrape_render (prometheusMetrics_ok h),
    MetricRows.scrape_render (prometheusMetrics_ok h'), fun event n hn => ?_⟩
  obtain ⟨hcount, hpos⟩ := (hshown.events project event n).mp hn
  have hgrown := @List.Sublist.countP_le _ (fun h => decide (h.event = event)) _ _
    (about_runs cfg l hscopes)
  rw [countP_about] at hcount
  refine ⟨_, ?_, (hshown'.events project event _).mpr ⟨rfl, ?_⟩⟩
  · rw [countP_about]
    omega
  · rw [countP_about]
    omega

/-- One more claim, and another project made and dropped. -/
def renewed : List Scope :=
  [.ensureProject "q" "/q" "q" 200, .dropProject "q",
    .claim { id := "a", assignee := "agent", actorKind := .agent } 60 100000]

theorem quoted_counters : ∃ text text' samples samples',
    ((Scope.prometheusMetrics 100).exec {} quoted).1 = .ok text ∧
      ((Scope.prometheusMetrics 100).exec {} (Scope.runs {} renewed quoted)).1 = .ok text' ∧
      Exposition.scrape text = some samples ∧ Exposition.scrape text' = some samples' ∧
      ∀ event n, ⟨"marbles_events_total", [("project", "p\"\n"), ("event", event)], n⟩ ∈ samples →
        ∃ n', n ≤ n' ∧
          ⟨"marbles_events_total", [("project", "p\"\n"), ("event", event)], n'⟩ ∈ samples' := by
  obtain ⟨text, htext⟩ := @exists_answer _ ((Scope.prometheusMetrics 100).exec {} quoted).1
    (by decide +kernel)
  obtain ⟨text', htext'⟩ := @exists_answer _
    ((Scope.prometheusMetrics 100).exec {} (Scope.runs {} renewed quoted)).1 (by decide +kernel)
  have hscopes : ∀ s ∈ renewed, s ≠ .dropProject "p\"\n" := by
    intro s hs heq
    subst heq
    simp [renewed] at hs
  obtain ⟨samples, samples', hread, hread', hgrown⟩ := counters_never_reset hscopes htext htext'
  exact ⟨text, text', samples, samples', htext, htext', hread, hread', hgrown⟩

/-! ### A scrape after a sweep -/

/-- Is this row a claim of a human that has lapsed? -/
def overdue (now : Int) (row : IssueRow) : Bool :=
  row.assignee.isSome && row.expiresAt.any (· ≤ now) &&
    row.actorKind = some ActorKind.human.asStr

theorem length_escalated (now : Int) (claims : List (String × String × String))
    (acc : SweepReport × Tables) : (claims.foldl (sweepRow now) acc).1.escalated.length =
      acc.1.escalated.length + claims.countP fun c => c.2.2 = ActorKind.human.asStr := by
  induction claims generalizing acc with
  | nil => rfl
  | cons c claims ih =>
      obtain ⟨id, holder, kind⟩ := c
      rw [List.foldl_cons, ih, sweepRow, List.countP_cons]
      split
      · rename_i hkind
        simp [hkind]
        omega
      · rename_i hkind
        simp [hkind]

/-- The columns of the claims that are human. -/
theorem countP_claimColumns {rows : List (String × IssueRow)}
    {claims : List (String × String × String)} (h : rows.mapM claimColumns = .ok claims) :
    (claims.countP fun c => c.2.2 = ActorKind.human.asStr) =
      rows.countP fun r => r.2.actorKind = some ActorKind.human.asStr := by
  have hkinds : claims.map (fun c => some c.2.2) = rows.map fun r => r.2.actorKind := by
    have hclaims : claims = rows.map fun r =>
        (r.1, r.2.assignee.getD "", r.2.actorKind.getD "") := by
      refine Outcome.mapM_eq_map h fun r _ c hc => ?_
      unfold claimColumns at hc
      split at hc
      · rename_i assignee kind hassignee hkind
        cases hc
        rw [hassignee, hkind]
        rfl
      · exact absurd hc Outcome.fail_ne_ok
    rw [hclaims, List.map_map]
    refine List.map_congr_left fun r hr => ?_
    obtain ⟨kind, hkind⟩ := claimColumns_texts h r hr
    rw [Function.comp_apply, hkind]
    rfl
  have hcount := congrArg (List.countP fun k => decide (k = some ActorKind.human.asStr)) hkinds
  rw [List.countP_map, List.countP_map] at hcount
  simpa [Function.comp_def] using hcount

theorem escalated_length {now : Int} {order : List String} {t t' : Tables} {report : SweepReport}
    (h : sweepTx now order t = .ok (report, t')) :
    report.escalated.length = t.issue.rows.countP fun r => overdue now r.2 := by
  obtain ⟨claims, hclaims, hfold⟩ := Outcome.bind_eq_ok.mp h
  have hreport := congrArg Prod.fst (Except.ok.inj hfold)
  subst hreport
  have hlength := length_escalated now claims (⟨[], []⟩, t)
  rw [countP_claimColumns hclaims, lapsed, (Sorting.perm_sortOn _ _).countP_eq,
    List.countP_filter] at hlength
  refine hlength.trans ((Nat.zero_add _).trans (List.countP_congr fun r _ => ?_))
  simp only [overdue, Bool.and_eq_true, decide_eq_true_eq]
  exact and_comm

/-- Has the claim of this row not lapsed? -/
def isLive (now : Int) (row : IssueRow) : Bool := row.assignee.isSome && row.expiresAt.any (· > now)

/-- A claim is live, or it is swept, or it is overdue. -/
theorem claim_cases (now : Int) {row : IssueRow} (hw : row.Whole) :
    (row.assignee.isSome = false ∧ isLive now row = false ∧ sweeps now row = false ∧
      overdue now row = false) ∨
    (row.assignee.isSome = true ∧ isLive now row = true ∧ sweeps now row = false ∧
      overdue now row = false) ∨
    (row.assignee.isSome = true ∧ isLive now row = false ∧ sweeps now row = true ∧
      overdue now row = false) ∨
    (row.assignee.isSome = true ∧ isLive now row = false ∧ sweeps now row = false ∧
      overdue now row = true) := by
  cases hheld : row.assignee with
  | none => exact Or.inl (by simp [isLive, sweeps, overdue, hheld])
  | some holder =>
      obtain ⟨expiry, hexpiry⟩ := Option.isSome_iff_exists.mp (hw.expiry.trans (by rw [hheld]; rfl))
      by_cases hlapsed : expiry ≤ now
      · by_cases hhuman : row.actorKind = some ActorKind.human.asStr
        · refine Or.inr (Or.inr (Or.inr ?_))
          simp [isLive, sweeps, overdue, hheld, hexpiry, hhuman, hlapsed]
        · refine Or.inr (Or.inr (Or.inl ?_))
          simp [isLive, sweeps, overdue, hheld, hexpiry, hhuman, hlapsed]
      · refine Or.inr (Or.inl ?_)
        simp [isLive, sweeps, overdue, hheld, hexpiry, hlapsed, Int.not_le.mp hlapsed]

/-- What a sweep leaves of a row. -/
def sweptRow (now : Int) (row : IssueRow) : IssueRow :=
  if sweeps now row then row.unclaim else row

theorem rows_swept {now : Int} {order : List String} {t t' : Tables} {report : SweepReport}
    (h : sweepTx now order t = .ok (report, t')) :
    t'.issue.rows = t.issue.rows.map fun r => (r.1, sweptRow now r.2) := by
  rw [(sweepTx_ok h).1]
  rfl

/-- A sweep leaves the live claims as they are. -/
theorem live_swept {now : Int} {order : List String} {t t' : Tables} {report : SweepReport}
    (hwhole : ∀ r ∈ t.issue.rows, r.2.Whole) (h : sweepTx now order t = .ok (report, t')) :
    (measured t').live now = (measured t).live now := by
  change t'.issue.rows.filter (fun r => isLive now r.2) = t.issue.rows.filter fun r =>
    isLive now r.2
  rw [rows_swept h, List.filter_map]
  have hkept : t.issue.rows.filter ((fun r => isLive now r.2) ∘ fun r => (r.1, sweptRow now r.2)) =
      t.issue.rows.filter fun r => isLive now r.2 := by
    refine List.filter_congr fun r hr => ?_
    rw [Function.comp_apply, sweptRow]
    rcases claim_cases now (hwhole r hr) with ⟨_, hlive, hs, _⟩ | ⟨_, hlive, hs, _⟩ |
      ⟨_, hlive, hs, _⟩ | ⟨_, hlive, hs, _⟩
    · simp [hs]
    · simp [hs]
    · rw [if_pos hs, hlive]
      rfl
    · simp [hs]
  rw [hkept]
  refine (List.map_congr_left fun r hr => ?_).trans (List.map_id _)
  obtain ⟨hmem, hlive⟩ := List.mem_filter.mp hr
  rcases claim_cases now (hwhole r hmem) with ⟨_, hdead, _⟩ | ⟨_, _, hs, _⟩ | ⟨_, hdead, _⟩ |
    ⟨_, hdead, _⟩
  · exact absurd hlive (by simp [hdead])
  · simp [sweptRow, hs]
  · exact absurd hlive (by simp [hdead])
  · exact absurd hlive (by simp [hdead])

/-- What is held after a sweep is live or overdue. -/
theorem held_swept {now : Int} {order : List String} {t t' : Tables} {report : SweepReport}
    (hwhole : ∀ r ∈ t.issue.rows, r.2.Whole) (h : sweepTx now order t = .ok (report, t')) :
    (t'.issue.rows.countP fun r => r.2.assignee.isSome) =
      ((measured t).live now).length + report.escalated.length := by
  rw [escalated_length h, rows_swept h, List.countP_map]
  change _ = (t.issue.rows.filter fun r => isLive now r.2).length + _
  rw [← List.countP_eq_length_filter]
  generalize t.issue.rows = rows at hwhole
  induction rows with
  | nil => rfl
  | cons r rows ih =>
      obtain ⟨hr, hrows⟩ := List.forall_mem_cons.mp hwhole
      rw [List.countP_cons, List.countP_cons, List.countP_cons, ih hrows, Function.comp_apply,
        sweptRow]
      rcases claim_cases now hr with ⟨hheld, hlive, hs, hlate⟩ | ⟨hheld, hlive, hs, hlate⟩ |
        ⟨hheld, hlive, hs, hlate⟩ | ⟨hheld, hlive, hs, hlate⟩
      · simp [hs, hheld, hlive, hlate]
      · simp [hs, hheld, hlive, hlate]
        omega
      · rw [if_pos hs]
        simp [IssueRow.unclaim, hlive, hlate]
      · simp [hs, hheld, hlive, hlate]
        omega

/-- A sweep neither takes nor hides a live claim: a scrape at that time reads the same live claims
before and after it, and what is still held after it is a live claim of the scrape or a hold that
the sweep has escalated. -/
theorem active_or_escalated {cfg : Config} {l : Locked Tables} (hreach : Reachable cfg l)
    {now : Int} {order : List String} {report : SweepReport} {text text' : String}
    (hsweep : ((Scope.sweep now order).exec cfg l).1 = .ok report)
    (h : ((Scope.prometheusMetrics now).exec cfg l).1 = .ok text)
    (h' : ((Scope.prometheusMetrics now).exec cfg ((Scope.sweep now order).exec cfg l).2).1 =
      .ok text') :
    ∃ samples samples', Exposition.scrape text = some samples ∧
      Exposition.scrape text' = some samples' ∧
      samples'.filter (fun s => s.name = "marbles_claims_active") =
        samples.filter (fun s => s.name = "marbles_claims_active") ∧
      Exposition.total "marbles_claims_active" samples' + report.escalated.length =
        ((((Scope.sweep now order).exec cfg l).2.state.issue.rows.countP fun r =>
          r.2.assignee.isSome : Nat) : Int) := by
  have hsound : Sound l.state := hreach.invariant sound_empty fun t s t' hs he => hs.effect he
  have hwhole : ∀ r ∈ l.state.issue.rows, r.2.Whole := fun r hr =>
    hsound.whole (Table.mem_rows.mp hr)
  have htx : sweepTx now order l.state =
      .ok (report, ((Scope.sweep now order).exec cfg l).2.state) := by
    obtain ⟨t', ht', hstate⟩ := Locked.tx_committed hsweep
    exact ht'.trans (by rw [← hstate]; rfl)
  -- A sweep takes away lapsed claims only, so both scrapes read the same live ones.
  have hlive := live_swept hwhole htx
  have hkind : ∀ r ∈ (measured l.state).live now, r.2.actorKind.isSome = true := by
    intro r hr
    obtain ⟨hmem, hl⟩ := List.mem_filter.mp hr
    rw [(hwhole r hmem).kind]
    exact (Bool.and_eq_true_iff.mp hl).1
  refine ⟨_, _, MetricRows.scrape_render (prometheusMetrics_ok h),
    MetricRows.scrape_render (prometheusMetrics_ok h'), ?_, ?_⟩
  · rw [MetricRows.samples_claims, MetricRows.samples_claims, hlive]
  · rw [MetricRows.total_claims (by rw [hlive]; exact hkind), hlive, held_swept hwhole htx]
    push_cast
    rfl

theorem quoted_swept : ∃ report text text' samples samples',
    ((Scope.sweep 1000000 []).exec {} quoted).1 = .ok report ∧
      ((Scope.prometheusMetrics 1000000).exec {} quoted).1 = .ok text ∧
      ((Scope.prometheusMetrics 1000000).exec {} ((Scope.sweep 1000000 []).exec {} quoted).2).1 =
        .ok text' ∧
      Exposition.scrape text = some samples ∧ Exposition.scrape text' = some samples' ∧
      samples'.filter (fun s => s.name = "marbles_claims_active") =
        samples.filter (fun s => s.name = "marbles_claims_active") ∧
      Exposition.total "marbles_claims_active" samples' + report.escalated.length =
        ((((Scope.sweep 1000000 []).exec {} quoted).2.state.issue.rows.countP fun r =>
          r.2.assignee.isSome : Nat) : Int) := by
  obtain ⟨report, hreport⟩ := @exists_answer _ ((Scope.sweep 1000000 []).exec {} quoted).1
    (by decide +kernel)
  obtain ⟨text, htext⟩ := @exists_answer _ ((Scope.prometheusMetrics 1000000).exec {} quoted).1
    (by decide +kernel)
  obtain ⟨text', htext'⟩ := @exists_answer _ ((Scope.prometheusMetrics 1000000).exec {}
    ((Scope.sweep 1000000 []).exec {} quoted).2).1 (by decide +kernel)
  obtain ⟨samples, samples', hread, hread', hsame, htotal⟩ :=
    active_or_escalated ⟨"s", _, rfl⟩ hreport htext htext'
  exact ⟨report, text, text', samples, samples', hreport, htext, htext', hread, hread', hsame,
    htotal⟩

end Marbles.Db
