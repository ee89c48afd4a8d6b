import Marbles.Adapter.Alone
import Marbles.Db.Alone
import Marbles.Db.Sound

/-!
# The adapter next to the local store

The relation that keeps the records adapter and the local store in step. The documents of
issues, edges and projects are the rows of the tables (`Sim`), and, where histories are
compared, the numbered events of an issue are its history (`Trail`). The time of the last
update is left out: the two stores do not set it on the same calls.

Each type of record has its own clause, as rows and documents differ in small ways: a missing
field in one is a default in the other. `Trail` is optional, so that the same lemmas serve the
runs in which histories are compared and those in which they are not.
-/

namespace Marbles.Adapter

open Json (Value)
open Records (Engine Key)
open Sorting (sortOn)
open Db (Tables IssueRow)

/-- The document of a row that the adapter last saved at `savedAt`. -/
def rowToJson (id : String) (row : IssueRow) (savedAt : Int) : Value :=
  issueToJson { Tables.view (.empty "") id row with updatedAt := savedAt }

/-- The documents of issues, edges and projects are the rows of the tables. The document remembers
when the adapter last saved it, and the row does not. -/
structure Sim (s : Inner) (t : Tables) : Prop where
  present : ∀ {id row}, t.issue.find id = some row →
    ∃ savedAt, s.doc issueKind [id] = some (rowToJson id row savedAt)
  absent : ∀ {id}, t.issue.find id = none → s.doc issueKind [id] = none
  single : ∀ {key data}, s.doc issueKind key = some data → ∃ id, key = [id]
  edge : ∀ child parent, (s.doc dependencyKind [child, parent]).isSome = true ↔
    (child, parent) ∈ t.dep.keys
  pair : ∀ {key data}, s.doc dependencyKind key = some data → ∃ child parent, key = [child, parent]
  project : ∀ slug, (s.doc projectKind [slug]).isSome = true ↔ slug ∈ t.project.keys

/-! ### Edges -/

namespace Sim

variable {s : Inner} {t : Tables}

theorem mem_edges (h : Sim s t) {e : String × String} : e ∈ s.edges ↔ e ∈ t.dep.keys := by
  obtain ⟨child, parent⟩ := e
  rw [← h.edge, Inner.edges, List.mem_filterMap, Option.isSome_iff_exists]
  constructor
  · rintro ⟨key, hkey, he⟩
    obtain ⟨data, hdata⟩ := Engine.mem_keys.mp hkey
    obtain ⟨c, p, rfl⟩ := h.pair hdata
    cases he
    exact ⟨data, hdata⟩
  · rintro ⟨data, hdata⟩
    exact ⟨[child, parent], Engine.mem_keys.mpr ⟨data, hdata⟩, rfl⟩

theorem nodup_edges (h : Sim s t) : s.edges.Nodup := by
  have hpairs : ∀ keys : List Key, (∀ key ∈ keys, ∃ child parent, key = [child, parent]) →
      (keys.filterMap edgeOf).map (fun e => [e.1, e.2]) = keys := by
    intro keys
    induction keys with
    | nil => exact fun _ => rfl
    | cons key keys ih =>
        intro hkeys
        obtain ⟨child, parent, rfl⟩ := hkeys key (List.mem_cons_self ..)
        have hrest := ih fun k hk => hkeys k (List.mem_cons_of_mem _ hk)
        simpa [edgeOf] using hrest
  refine List.Nodup.of_map (fun e : String × String => [e.1, e.2]) ?_
  rw [Inner.edges, hpairs]
  · exact Engine.nodup_keys s.engine dependencyKind
  · intro key hkey
    obtain ⟨data, hdata⟩ := Engine.mem_keys.mp hkey
    exact h.pair hdata

/-- The edges are the same, in whatever order. -/
theorem edges_perm (h : Sim s t) : s.edges.Perm t.dep.keys :=
  (List.perm_ext_iff_of_nodup h.nodup_edges t.dep.keys_nodup).mpr fun _ => h.mem_edges

theorem parents_perm (h : Sim s t) (id : String) : (s.parents id).Perm (t.dependsOn id) :=
  ((h.edges_perm.filter _).map Prod.snd).trans (Sorting.perm_sortOn _ _).symm

theorem children_perm (h : Sim s t) (id : String) : (s.children id).Perm (t.dependents id) :=
  (h.edges_perm.filter _).map Prod.fst

theorem mem_parents (h : Sim s t) {id p : String} : p ∈ s.parents id ↔ t.DependsOn id p :=
  (h.parents_perm id).mem_iff.trans Db.Tables.mem_dependsOn

/-- Both walks over the edges come to the same answer. -/
theorem reachable (h : Sim s t) (source target : String) :
    Graph.reachesDepthFirst s.edges source target = t.reachable source target :=
  Graph.reachesDepthFirst_eq_breadthFirst s.edges t.dep.keys source target fun _ => h.mem_edges

/-! ### Issues -/

theorem statusOf (h : Sim s t) (id : String) :
    s.statusOf id = (t.issue.find id).map fun row => row.status.asStr := by
  cases hrow : t.issue.find id with
  | none => rw [Inner.statusOf, h.absent hrow]; rfl
  | some row =>
      obtain ⟨u, hdoc⟩ := h.present hrow
      rw [Inner.statusOf, hdoc]
      rfl

theorem isOpen (h : Sim s t) (id : String) : s.isOpen id = t.isOpen id := by
  rw [Inner.isOpen, h.statusOf, Tables.isOpen]
  cases t.issue.find id with
  | none => rfl
  | some row => simp [isTerminal]

/-- An issue is read as its row is reported, except for the time of its last update. -/
theorem rowToIssue (h : Sim s t) {id : String} {row : IssueRow}
    (hrow : t.issue.find id = some row) :
    ∃ savedAt, s.doc issueKind [id] = some (rowToJson id row savedAt) ∧
      s.rowToIssue id = some { t.view id row with updatedAt := savedAt } := by
  obtain ⟨u, hdoc⟩ := h.present hrow
  refine ⟨u, hdoc, ?_⟩
  have hopen : s.isOpen = t.isOpen := funext h.isOpen
  have hparents : sortOn (fun p => p) (s.parents id) = t.dependsOn id :=
    Sorting.sortOn_perm Function.injective_id ((h.edges_perm.filter _).map Prod.snd)
  have hcount : (s.parents id).countP s.isOpen = (t.openBlockers id).length := by
    rw [hopen, (h.parents_perm id).countP_eq, List.countP_eq_length_filter, Tables.openBlockers]
  have hchildren : (s.children id).countP s.isOpen =
      ((t.dependents id).filter t.isOpen).length := by
    rw [hopen, (h.children_perm id).countP_eq, List.countP_eq_length_filter]
  rw [Inner.rowToIssue, hdoc, Option.map_some, Inner.view, hparents, hcount, hchildren]
  have hview := issueOfJson_toJson { Tables.view (.empty "") id row with updatedAt := u }
    (t.dependsOn id) (t.openBlockers id).length ((t.dependents id).filter t.isOpen).length
  exact congrArg some hview

theorem rowToIssue_none (h : Sim s t) {id : String} (hrow : t.issue.find id = none) :
    s.rowToIssue id = none := by
  rw [Inner.rowToIssue, h.absent hrow]
  rfl

end Sim

/-! ### Events -/

/-- The event recorded under a number, if it is about this issue. -/
def Inner.eventOf (s : Inner) (id : String) (n : Nat) : Option HistoryEvent :=
  (s.doc marblesEventKind [n.repr]).bind fun data =>
    if (data.field "issue_id").asStr = some id then some (historyOf id n data).2 else none

/-- The events recorded for an issue, oldest first. -/
def Inner.trail (s : Inner) (id : String) : List HistoryEvent :=
  (List.range (s.seq + 1)).filterMap (s.eventOf id)

/-- Events are stored under the numbers the audit counter has given out. -/
def Numbered (s : Inner) : Prop :=
  ∀ {key data}, s.doc marblesEventKind key = some data → ∃ n, n ≤ s.seq ∧ key = [n.repr]

/-- The stored events are the numbered ones, in whatever order. -/
theorem docs_perm {s : Inner} (h : Numbered s) :
    (s.docs marblesEventKind).Perm ((List.range (s.seq + 1)).filterMap fun n =>
      (s.doc marblesEventKind [n.repr]).map fun data => ([n.repr], data)) := by
  have hnodup := (List.nodup_range : (List.range (s.seq + 1)).Nodup)
  refine (List.perm_ext_iff_of_nodup (nodup_docs s marblesEventKind).of_map
    (hnodup.filterMap fun n m d hn hm => ?_)).mpr fun d => ?_
  · obtain ⟨_, -, rfl⟩ := Option.map_eq_some_iff.mp hn
    obtain ⟨_, -, hkey⟩ := Option.map_eq_some_iff.mp hm
    exact repr_inj (List.cons.inj (Prod.mk.inj hkey).1).1.symm
  · rw [mem_docs, List.mem_filterMap]
    constructor
    · intro hd
      obtain ⟨n, hn, hkey⟩ := h hd
      refine ⟨n, List.mem_range.mpr (by omega), ?_⟩
      rw [← hkey, hd]
      rfl
    · rintro ⟨n, -, hd⟩
      obtain ⟨data, hdoc, rfl⟩ := Option.map_eq_some_iff.mp hd
      exact hdoc

/-- The history of an issue is read off the numbered events. -/
theorem reads_history {s : Inner} (h : Numbered s) (id : String) :
    Reads (history id) s (s.trail id) := by
  let pick : Key × Value → Option (Int × HistoryEvent) := fun d => (seqOf d.1).bind fun seq =>
    if (d.2.field "issue_id").asStr = some id then some (historyOf id seq d.2) else none
  let numbered := (List.range (s.seq + 1)).filterMap fun n =>
    (s.eventOf id n).map fun event => ((n : Int), event)
  have hpick : ((List.range (s.seq + 1)).filterMap fun n =>
      (s.doc marblesEventKind [n.repr]).map fun data => ([n.repr], data)).filterMap pick =
          numbered := by
    rw [List.filterMap_filterMap]
    refine List.filterMap_congr fun n _ => ?_
    unfold Inner.eventOf
    cases s.doc marblesEventKind [n.repr] with
    | none => rfl
    | some data =>
        simp only [Option.map_some, Option.bind_some, pick, seqOf, parseInt_repr]
        split <;> rfl
  -- numbers are given out in order, so sorting by number changes nothing
  have hsorted : numbered.Pairwise fun a b => a.1 < b.1 := by
    refine List.pairwise_filterMap.mpr (List.pairwise_lt_range.imp fun {n m} hnm => ?_)
    intro a ha b hb
    obtain ⟨_, -, rfl⟩ := Option.map_eq_some_iff.mp ha
    obtain ⟨_, -, rfl⟩ := Option.map_eq_some_iff.mp hb
    exact Int.ofNat_lt.mpr hnm
  have hsort := Sorting.sortOn_eq_of_perm (hpick ▸ (docs_perm h).filterMap pick) hsorted
  have htrail : numbered.map Prod.snd = s.trail id := by
    rw [List.map_filterMap]
    refine List.filterMap_congr fun n _ => ?_
    simp
  rw [← htrail, ← hsort]
  exact (reads_docs marblesEventKind).map _

/-- The adapter's events of every issue are the history of the local store. -/
structure Trail (s : Inner) (t : Tables) : Prop where
  numbered : Numbered s
  same : ∀ id, s.trail id = Db.historyQuery id t

/-! ### Writing on both sides -/

/-- Stores in step. Where `audited`, their histories agree as well. The flag saves proving
everything about issues a second time. -/
structure Twins (audited : Prop) (s : Inner) (t : Tables) : Prop where
  sim : Sim s t
  trail : audited → Trail s t

section Writes

variable {s s' : Inner} {t t' : Tables}

/-- What else is stored does not matter. -/
theorem Sim.frame (h : Sim s t)
    (hdoc : ∀ n key, n = issueKind ∨ n = dependencyKind ∨ n = projectKind →
    s'.doc n key = s.doc n key)
    (hissue : t'.issue = t.issue) (hdep : t'.dep = t.dep) (hproject : t'.project = t.project) :
    Sim s' t' := by
  have hi := fun key => hdoc issueKind key (Or.inl rfl)
  have hd := fun key => hdoc dependencyKind key (Or.inr (Or.inl rfl))
  have hp := fun key => hdoc projectKind key (Or.inr (Or.inr rfl))
  constructor
  · intro id row hrow
    rw [hi]
    exact h.present (hissue ▸ hrow)
  · intro id hrow
    rw [hi]
    exact h.absent (hissue ▸ hrow)
  · intro key data hdata
    exact h.single ((hi key).symm.trans hdata)
  · intro child parent
    rw [hd, hdep]
    exact h.edge child parent
  · intro key data hdata
    exact h.pair ((hd key).symm.trans hdata)
  · intro slug
    rw [hp, hproject]
    exact h.project slug

theorem Trail.frame (h : Trail s t)
    (hdoc : ∀ key, s'.doc marblesEventKind key = s.doc marblesEventKind key) (hseq : s'.seq = s.seq)
    (hhistory : ∀ id, Db.historyQuery id t' = Db.historyQuery id t) : Trail s' t' := by
  constructor
  · intro key data hdata
    rw [hseq]
    exact h.numbered ((hdoc key).symm.trans hdata)
  · intro id
    have hevent : s'.eventOf id = s.eventOf id := by
      funext n
      simp only [Inner.eventOf, hdoc]
    rw [hhistory, ← h.same, Inner.trail, Inner.trail, hevent, hseq]

theorem Trail.log (h : Trail s t) (storeId id : String) (ts : Int) (actor event detail : String) :
    Trail (s.log storeId id ts actor event detail) (t.logEvent id ts actor event detail) := by
  have hdoc : ∀ key, (s.log storeId id ts actor event detail).doc marblesEventKind key =
      if key = [(s.seq + 1).repr] then some (eventToJson id ts actor event detail)
      else s.doc marblesEventKind key := by
    intro key
    rw [doc_log (by decide)]
    simp
  -- The new event has the number after all others, so it is the last one in the trail and disturbs
  -- none before it.
  constructor
  · intro key data hdata
    rw [hdoc] at hdata
    rw [seq_log]
    split at hdata
    · exact ⟨s.seq + 1, le_refl _, ‹_›⟩
    · obtain ⟨n, hn, hkey⟩ := h.numbered hdata
      exact ⟨n, by omega, hkey⟩
  · intro id'
    rw [Db.historyQuery_logEvent, ← h.same, Inner.trail, seq_log, List.range_succ,
      List.filterMap_append]
    congr 1
    · refine List.filterMap_congr fun n hn => ?_
      have hne : [n.repr] ≠ [(s.seq + 1).repr] := by
        intro heq
        have := repr_inj (List.cons.inj heq).1
        have := List.mem_range.mp hn
        omega
      rw [Inner.eventOf, hdoc, if_neg hne, Inner.eventOf]
    · have hevent : (s.log storeId id ts actor event detail).eventOf id' (s.seq + 1) =
          if id = id' then some ⟨id', ts, actor, event, detail⟩ else none := by
        rw [Inner.eventOf, hdoc, if_pos rfl]
        show (if some id = some id' then _ else none) = _
        simp only [Option.some.injEq]
        rfl
      rw [List.filterMap_cons, List.filterMap_nil, hevent]
      by_cases hid : id = id'
      · simp [hid]
      · simp [hid]

/-- Both stores record an event. -/
theorem Twins.log {audited : Prop} (h : Twins audited s t) (storeId id : String) (ts : Int)
    (actor event detail : String) :
    Twins audited (s.log storeId id ts actor event detail)
      (t.logEvent id ts actor event detail) := by
  refine ⟨h.sim.frame (fun n key hn => ?_) rfl rfl rfl, fun ha => (h.trail ha).log ..⟩
  have hne : n ≠ outboundEventKind ∧ n ≠ marblesEventKind := by
    rcases hn with rfl | rfl | rfl <;> exact ⟨by decide, by decide⟩
  rw [doc_log hne.1, if_neg fun hev => hne.2 hev.1]

/-- Only the local store records an event. -/
theorem Twins.logDb {audited : Prop} (h : Twins audited s t) (ha : ¬ audited) (id : String)
    (ts : Int) (actor event detail : String) :
    Twins audited s (t.logEvent id ts actor event detail) :=
  ⟨h.sim.frame (fun _ _ _ => rfl) rfl rfl rfl, fun h' => absurd h' ha⟩

/-- A document that is saved stands for the row it was made from. -/
theorem Sim.store (h : Sim s t) {id : String} {row : IssueRow} {issue : Issue} {savedAt : Int}
    (hid : issue.id = id) (hissue : issueToJson issue = rowToJson id row savedAt)
    (hfind : ∀ id', t'.issue.find id' = if id' = id then some row else t.issue.find id')
    (hdep : t'.dep = t.dep) (hproject : t'.project = t.project) : Sim (s.save issue) t' := by
  subst hid
  have hother : ∀ n key, n ≠ issueKind → (s.save issue).doc n key = s.doc n key := by
    intro n key hn
    rw [doc_save, if_neg fun h => hn h.1]
  -- The document of this issue is the row's; every other document and row is as before.
  constructor
  · intro id' row' hrow
    rw [hfind] at hrow
    rw [doc_save]
    by_cases hid : id' = issue.id
    · rw [if_pos hid] at hrow
      cases hrow
      subst hid
      exact ⟨savedAt, by rw [if_pos ⟨rfl, rfl⟩, hissue]⟩
    · rw [if_neg hid] at hrow
      rw [if_neg (by simp [hid])]
      exact h.present hrow
  · intro id' hrow
    rw [hfind] at hrow
    have hid : id' ≠ issue.id := by
      intro hid
      rw [if_pos hid] at hrow
      cases hrow
    rw [if_neg hid] at hrow
    rw [doc_save, if_neg (by simp [hid])]
    exact h.absent hrow
  · intro key data hdata
    rw [doc_save] at hdata
    split at hdata
    · rename_i hkey
      exact ⟨issue.id, hkey.2⟩
    · exact h.single hdata
  · intro child parent
    rw [hother _ _ (by decide), hdep]
    exact h.edge child parent
  · intro key data hdata
    rw [hother _ _ (by decide)] at hdata
    exact h.pair hdata
  · intro slug
    rw [hother _ _ (by decide), hproject]
    exact h.project slug

/-- Both stores rewrite an issue that is there. -/
theorem Twins.save {audited : Prop} (h : Twins audited s t) {id : String} {row : IssueRow}
    (f : IssueRow → IssueRow) {issue : Issue} {savedAt : Int}
    (hrow : t.issue.find id = some row) (hid : issue.id = id)
    (hissue : issueToJson issue = rowToJson id (f row) savedAt) :
    Twins audited (s.save issue) (t.setIssue id f) := by
  refine ⟨h.sim.store hid hissue (fun id' => ?_) rfl rfl, fun ha => ?_⟩
  · rw [Tables.setIssue_issue, Table.find_modify]
    split
    · rename_i hid'
      rw [hid', hrow]
      rfl
    · rfl
  · refine (h.trail ha).frame (fun key => ?_) rfl fun _ => rfl
    rw [doc_save, if_neg fun h => absurd h.1 (by decide)]

/-- Both stores keep a new issue. -/
theorem Twins.insert {audited : Prop} (h : Twins audited s t) {id : String} {row : IssueRow}
    {issue : Issue} {savedAt : Int} (hnew : t.issue.find id = none) (hid : issue.id = id)
    (hissue : issueToJson issue = rowToJson id row savedAt) :
    Twins audited (s.save issue) { t with issue := t.issue.insert id row } := by
  refine ⟨h.sim.store hid hissue (fun id' => ?_) rfl rfl, fun ha => ?_⟩
  · rw [Table.find_insert, hnew]
    rfl
  · refine (h.trail ha).frame (fun key => ?_) rfl fun _ => rfl
    rw [doc_save, if_neg fun h => absurd h.1 (by decide)]

/-- The document of an edge comes and goes with its row. -/
theorem Twins.putEdge {audited : Prop} (h : Twins audited s t) {child parent : String}
    {data : Value} {deleted : Bool} {dep : Table (String × String) Unit}
    (hdep : ∀ e, e ∈ dep.keys ↔ if e = (child, parent) then deleted = false else e ∈ t.dep.keys) :
    Twins audited (s.put dependencyKind [child, parent] data deleted) { t with dep := dep } := by
  have hother : ∀ n key, n ≠ dependencyKind →
      (s.put dependencyKind [child, parent] data deleted).doc n key = s.doc n key := by
    intro n key hn
    rw [doc_put, if_neg fun h => hn h.1]
  -- Only documents of the kind of dependencies change, so every other part of the simulation is
  -- framed.
  refine ⟨⟨?_, ?_, ?_, ?_, ?_, ?_⟩, fun ha => (h.trail ha).frame (hother _ · (by decide)) rfl
    fun _ => rfl⟩
  · intro id row hrow
    rw [hother _ _ (by decide)]
    exact h.sim.present hrow
  · intro id hrow
    rw [hother _ _ (by decide)]
    exact h.sim.absent hrow
  · intro key data hdata
    rw [hother _ _ (by decide)] at hdata
    exact h.sim.single hdata
  · intro c p
    rw [hdep, doc_put]
    by_cases he : c = child ∧ p = parent
    · obtain ⟨rfl, rfl⟩ := he
      cases deleted <;> simp
    · rw [if_neg (by simpa using he), if_neg (by simpa using he)]
      exact h.sim.edge c p
  · intro key data' hdata
    rw [doc_put] at hdata
    split at hdata
    · rename_i hkey
      exact ⟨child, parent, hkey.2⟩
    · exact h.sim.pair hdata
  · intro slug
    rw [hother _ _ (by decide)]
    exact h.sim.project slug

end Writes

end Marbles.Adapter
