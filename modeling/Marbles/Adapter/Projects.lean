import Marbles.Adapter.Simulates

/-!
# Projects on both stores

Registering a project and dropping one with its issues and edges. The adapter tombstones
document by document what the local store deletes in one transaction.

The local store deletes rows by a column, and the adapter goes through the live keys of a type and
looks at each document. `Tombstoned` says what such a loop leaves after some of its turns, so that
the loops over outbound events, events, edges and issues are instances of two lemmas, one for
loops that look at each document and one for those that go by keys. What dropping a project does
not sweep is left as it was (`doc_dropped`).
-/

namespace Marbles.Adapter

open Json (Value)
open Records (Engine Key)
open Db (Tables IssueRow)

variable {audited : Prop} {s : Inner} {t : Tables}

/-! ### Registering -/

/-- Both stores keep a project under its slug. -/
theorem Twins.putProject (h : Twins audited s t) (slug : String) (data : Value)
    {project : Table String Db.ProjectRow}
    (hproject : ∀ x, x ∈ project.keys ↔ x = slug ∨ x ∈ t.project.keys) :
    Twins audited (s.put projectKind [slug] data false) { t with project := project } := by
  have hother : ∀ n key, n ≠ projectKind → (s.put projectKind [slug] data false).doc n key =
      s.doc n key := by
    intro n key hn
    rw [doc_put, if_neg fun h => hn h.1]
  refine ⟨⟨fun hrow => ?_, fun hrow => ?_, fun hdata => ?_, fun child parent => ?_,
    fun hdata => ?_, fun x => ?_⟩, fun ha => (h.trail ha).frame (hother _ · (by decide)) rfl
    fun _ => rfl⟩
  · rw [hother _ _ (by decide)]
    exact h.sim.present hrow
  · rw [hother _ _ (by decide)]
    exact h.sim.absent hrow
  · rw [hother _ _ (by decide)] at hdata
    exact h.sim.single hdata
  · rw [hother _ _ (by decide)]
    exact h.sim.edge child parent
  · rw [hother _ _ (by decide)] at hdata
    exact h.sim.pair hdata
  · rw [hproject, doc_put]
    by_cases hx : x = slug
    · simp [hx]
    · rw [if_neg (by simp [hx]), or_iff_right hx]
      exact h.sim.project x

/-- A root that no other project has is accepted by both. -/
theorem both_ensureProject (h : Twins audited s t) {slug root : String}
    (hroot : ∀ x row, t.project.find x = some row → row.root ≠ root) (idPrefix : String)
    (ts : Int) :
    ∃ s' project, runA (ensureProject slug root idPrefix ts) s = (.ok (), s') ∧
      Db.ensureProjectTx slug root idPrefix ts t = .ok ((), { t with project := project }) ∧
      Twins audited s' { t with project := project } ∧
      ∀ x row, project.find x = some row → row.root = root ∨ t.project.find x = some row := by
  have hfree : ¬ (t.project.rows.any fun r => r.1 ≠ slug && r.2.root = root) = true := by
    intro hany
    obtain ⟨r, hr, hclash⟩ := List.any_eq_true.mp hany
    exact hroot r.1 r.2 (Table.mem_rows.mp hr)
      (of_decide_eq_true (Bool.and_eq_true_iff.mp hclash).2)
  refine ⟨_, _, (runA_bind_reads (Reads.current projectKind [slug])).trans (runA_append ..),
    if_neg hfree, h.putProject slug _ fun x => ?_, fun x row hrow => ?_⟩
  · rw [Table.mem_keys_iff_isSome, Table.mem_keys_iff_isSome, Table.find_upsert]
    by_cases hx : x = slug <;> simp [hx]
  · rw [Table.find_upsert] at hrow
    split at hrow
    · left
      obtain rfl := Option.some.inj hrow
      cases t.project.find slug <;> rfl
    · exact .inr hrow

/-! ### Dropping -/

/-- Only documents of this type change. -/
def ChangesOnly (name : String) (s s' : Inner) : Prop := ∀ n key, n ≠ name →
    s'.doc n key = s.doc n key

theorem changesOnly_put (name : String) (key : Key) (data : Value) (deleted : Bool) :
    ChangesOnly name s (s.put name key data deleted) := by
  intro n k hn
  rw [doc_put, if_neg fun h => hn h.1]

/-- The documents a loop tombstones are gone, all others stay. The two parts are what a loop
invariant has to say: what is gone so far, and that nothing else is. -/
structure Tombstoned (name : String) (gone : Key → Prop) (s s' : Inner) : Prop where
  erased : ∀ key, gone key → s'.doc name key = none
  stay : ∀ n key, ¬ (n = name ∧ gone key) → s'.doc n key = s.doc n key

/-- The loop touches one collection. -/
theorem Tombstoned.other {name : String} {gone : Key → Prop} {s s' : Inner}
    (h : Tombstoned name gone s s') {n : String} (hn : n ≠ name) (key : Key) :
    s'.doc n key = s.doc n key := h.stay n key fun hkey => hn hkey.1

/-- The state after documents of one type have been tombstoned. -/
def Inner.sweep (s : Inner) (name : String) (keys : List Key) : Inner :=
  keys.foldl (fun s key => s.put name key .null true) s

@[simp] theorem doc_sweep (s : Inner) (name n : String) (keys : List Key) (key : Key) :
    (s.sweep name keys).doc n key = if n = name ∧ key ∈ keys then none else s.doc n key := by
  induction keys generalizing s with
  | nil => simp [Inner.sweep]
  | cons k keys ih =>
      have hrest := ih (s.put name k .null true)
      rw [Inner.sweep, List.foldl_cons, ← Inner.sweep, hrest, doc_put]
      by_cases hkey : key = k <;> by_cases hn : n = name <;> simp [hkey, hn]

@[simp] theorem seq_sweep (s : Inner) (name : String) (keys : List Key) :
    (s.sweep name keys).seq = s.seq := by
  induction keys generalizing s with
  | nil => rfl
  | cons k keys ih => exact ih (s.put name k .null true)

theorem tombstoned_sweep (s : Inner) (name : String) (keys : List Key) :
    Tombstoned name (fun key => key ∈ keys) s (s.sweep name keys) where
  erased := fun key hkey => by rw [doc_sweep, if_pos ⟨rfl, hkey⟩]
  stay := fun n key hkey => by rw [doc_sweep, if_neg hkey]

/-- A key that is not live has no document to be tombstoned. -/
theorem tombstoned_keys (s : Inner) (name : String) (gone : Key → Bool) :
    Tombstoned name (fun key => gone key = true) s
      (s.sweep name ((s.engine.keys name).filter gone)) where
  erased := fun key hkey => by
    rw [doc_sweep]
    split
    · rfl
    · rename_i hlive
      refine Option.eq_none_iff_forall_ne_some.mpr fun data hdata => hlive ⟨rfl, ?_⟩
      exact List.mem_filter.mpr ⟨Engine.mem_keys.mpr ⟨data, hdata⟩, hkey⟩
  stay := fun n key hkey => by
    rw [doc_sweep, if_neg fun h => hkey ⟨h.1, (List.mem_filter.mp h.2).2⟩]

/-- A loop that tombstones one document at some of its turns. -/
theorem runA_forM_tombstone {α : Type} {name : String} {f : α → AdapterM Unit}
    {pick : α → Option Key}
    (hf : ∀ x s, runA (f x) s = (.ok (), (pick x).elim s fun key => s.put name key .null true))
    (xs : List α) (s : Inner) : runA (xs.forM f) s =
    (.ok (), s.sweep name (xs.filterMap pick)) := by
  induction xs generalizing s with
  | nil => rfl
  | cons x xs ih =>
      refine (runA_bind_ok (hf x s)).trans ((ih _).trans ?_)
      cases hpick : pick x with
      | none => rw [List.filterMap_cons_none hpick, Option.elim_none]
      | some key =>
          rw [List.filterMap_cons_some hpick, Option.elim_some]
          rfl

/-- The live keys of a type whose documents satisfy `gone`. -/
def Inner.keysOf (s : Inner) (name : String) (gone : Value → Bool) : List Key :=
  (s.engine.keys name).filter fun key => (s.doc name key).any gone

@[simp] theorem mem_keysOf {name : String} {gone : Value → Bool} {key : Key} :
    key ∈ s.keysOf name gone ↔ (s.doc name key).any gone = true := by
  rw [Inner.keysOf, List.mem_filter, Engine.mem_keys]
  cases hdoc : s.doc name key with
  | none => simp
  | some data =>
      have hlive : ∃ data, s.engine.current name key = some data := ⟨data, hdoc⟩
      simp [hlive]

/-- A turn looks at one document, which the turns before it have left alone. -/
@[simp] theorem runA_tombstoneDocs (name : String) (gone : Value → Bool) (s : Inner) :
    runA (tombstoneDocs name gone) s = (.ok (), s.sweep name (s.keysOf name gone)) := by
  have hloop : ∀ (keys : List Key) (s : Inner), keys.Nodup → runA (keys.forM fun key => do
      whenSome (← current name key) fun data => if gone data then tombstone name key else pure ())
        s =
        (.ok (), s.sweep name (keys.filter fun key => (s.doc name key).any gone)) := by
    intro keys
    -- On the keys still to be looked at: a tombstone under one of them does not change what stands
    -- under the others.
    induction keys with
    | nil => exact fun _ _ => rfl
    | cons key keys ih =>
        intro s hnodup
        obtain ⟨hnew, hnodup⟩ := List.nodup_cons.mp hnodup
        have hturn : runA (do
            whenSome (← current name key) fun data =>
              if gone data then tombstone name key else pure ()) s = (.ok (),
                if (s.doc name key).any gone then s.put name key .null true else s) := by
          rw [runA_bind_reads (Reads.current name key)]
          cases s.doc name key with
          | none => rfl
          | some data =>
              simp only [whenSome, Option.any_some]
              by_cases hgone : gone data = true
              · rw [if_pos hgone, if_pos hgone]
                exact runA_tombstone ..
              · rw [if_neg hgone, if_neg hgone]
                rfl
        refine (runA_bind_ok hturn).trans ((ih _ hnodup).trans ?_)
        by_cases hgone : (s.doc name key).any gone = true
        · have hrest : (keys.filter fun k => ((s.put name key .null true).doc name k).any gone) =
              keys.filter fun k => (s.doc name k).any gone := by
            refine List.filter_congr fun k hk => ?_
            have hother : ¬ (name = name ∧ k = key) := fun heq => hnew (heq.2 ▸ hk)
            rw [doc_put, if_neg hother]
          rw [if_pos hgone, List.filter_cons, if_pos hgone, hrest]
          rfl
        · rw [if_neg hgone, List.filter_cons, if_neg hgone]
  exact (runA_bind_reads (Reads.keys name)).trans (hloop _ s (Engine.nodup_keys s.engine name))

@[simp] theorem runA_tombstoneKeys (name : String) (gone : Key → Bool) (s : Inner) :
    runA (tombstoneKeys name gone) s =
      (.ok (), s.sweep name ((s.engine.keys name).filter gone)) := by
  have hloop := @runA_forM_tombstone Key name
    (fun key => if gone key then tombstone name key else pure ())
    (fun key => if gone key then some key else none) (fun key s => by
      by_cases hgone : gone key = true
      · rw [if_pos hgone, if_pos hgone]
        rfl
      · rw [if_neg hgone, if_neg hgone]
        rfl) (s.engine.keys name) s
  have hpick : (s.engine.keys name).filterMap (fun key => if gone key then some key else none) =
      (s.engine.keys name).filter gone := by
    rw [← List.filterMap_eq_filter]
    exact List.filterMap_congr fun key _ => by simp [Option.guard]
  rw [hpick] at hloop
  exact (runA_bind_reads (Reads.keys name)).trans hloop

/-- The ids of the issues of a project. -/
def Inner.issuesOf (s : Inner) (slug : String) : List String :=
  (s.engine.keys issueKind).filterMap fun key => key.head?.bind fun id =>
    (s.doc issueKind [id]).bind fun data => if textOf "project" data = slug then some id else none

theorem reads_issuesOf (slug : String) : Reads (issuesOf slug) s (s.issuesOf slug) := by
  refine (Reads.keys issueKind).bind (Reads.collect fun found key _ => ?_)
  cases key with
  | nil => exact .pure found
  | cons id rest =>
      refine (reads_loadIssue id).bind ?_
      simp only [List.head?_cons, Option.bind_some]
      cases s.doc issueKind [id] with
      | none => exact .pure found
      | some data =>
          simp only [Option.bind_some]
          by_cases hproject : textOf "project" data = slug
          · rw [if_pos hproject, if_pos hproject]
            exact .pure _
          · rw [if_neg hproject, if_neg hproject]
            exact .pure found

theorem mem_issuesOf (h : Sim s t) {slug id : String} : id ∈ s.issuesOf slug ↔
    (t.issue.find id).any (fun row => row.project = slug) = true := by
  rw [Inner.issuesOf, List.mem_filterMap]
  -- The documents of the kind and the rows have the same ids, and both tell the project.
  constructor
  · intro hid
    obtain ⟨key, hkey, hid⟩ := hid
    obtain ⟨i, -, hid⟩ := Option.bind_eq_some_iff.mp hid
    obtain ⟨data, hdata, hid⟩ := Option.bind_eq_some_iff.mp hid
    split at hid
    · rename_i hproject
      obtain rfl := Option.some.inj hid
      cases hrow : t.issue.find i with
      | none =>
          rw [h.absent hrow] at hdata
          cases hdata
      | some row =>
          obtain ⟨u, hdoc⟩ := h.present hrow
          obtain rfl := Option.some.inj (hdoc.symm.trans hdata)
          exact decide_eq_true hproject
    · cases hid
  · intro hid
    cases hrow : t.issue.find id with
    | none => simp [hrow] at hid
    | some row =>
        rw [hrow] at hid
        have hproject : row.project = slug := of_decide_eq_true hid
        obtain ⟨u, hdoc⟩ := h.present hrow
        refine ⟨[id], Engine.mem_keys.mpr ⟨_, hdoc⟩, ?_⟩
        simp only [List.head?_cons, Option.bind_some, hdoc]
        exact if_pos hproject

/-- The documents after the issues, edges and project have been tombstoned. -/
structure Dropped (s s' : Inner) (mine : List String) (slug : String) : Prop where
  issue : ∀ key, s'.doc issueKind key =
    if ∃ id ∈ mine, key = [id] then none else s.doc issueKind key
  edge : ∀ child parent, s'.doc dependencyKind [child, parent] =
    if child ∈ mine ∨ parent ∈ mine then none else s.doc dependencyKind [child, parent]
  pair : ∀ {key data}, s'.doc dependencyKind key = some data → s.doc dependencyKind key = some data
  project : ∀ key, s'.doc projectKind key = if key = [slug] then none else s.doc projectKind key

/-- The state after a project and these issues of it have been dropped: the collections are swept
one after the other. -/
def Inner.dropped (s : Inner) (mine : List String) (slug : String) : Inner :=
  let about := fun data : Value => (data.field "issue_id").asStr.any (· ∈ mine)
  let s₁ := s.sweep outboundEventKind (s.keysOf outboundEventKind about)
  let s₂ := s₁.sweep marblesEventKind (s₁.keysOf marblesEventKind about)
  let s₃ := s₂.sweep dependencyKind ((s₂.engine.keys dependencyKind).filter fun key =>
    (key[0]?).any (· ∈ mine) || (key[1]?).any (· ∈ mine))
  let s₄ := s₃.sweep remoteDepKind ((s₃.engine.keys remoteDepKind).filter fun key =>
    (key[0]?).any (· ∈ mine))
  (s₄.sweep issueKind (mine.map fun id => [id])).put projectKind [slug] .null true

/-- The adapter drops a project that is there. -/
theorem runA_dropProject {slug : String} {data : Value}
    (hdata : s.doc projectKind [slug] = some data) :
    runA (dropProject slug) s =
    (.ok ⟨(s.issuesOf slug).length⟩, s.dropped (s.issuesOf slug) slug) := by
  refine (runA_bind_reads (Reads.current projectKind [slug])).trans ?_
  have hissues : ∀ (mine : List String) (s : Inner),
      runA (mine.forM fun id => tombstone issueKind [id]) s =
        (.ok (), s.sweep issueKind (mine.map fun id => [id])) := by
    intro mine s
    have hloop := @runA_forM_tombstone String issueKind (fun id => tombstone issueKind [id])
      (fun id => some [id]) (fun _ _ => rfl) mine s
    rwa [List.filterMap_eq_map'] at hloop
  rw [hdata]
  dsimp only
  rw [runA_bind_reads (reads_issuesOf slug), runA_bind_ok (runA_tombstoneDocs ..),
    runA_bind_ok (runA_tombstoneDocs ..), runA_bind_ok (runA_tombstoneKeys ..),
    runA_bind_ok (runA_tombstoneKeys ..), runA_bind_ok (hissues ..),
      runA_bind_ok (runA_tombstone ..)]
  rfl

/-- The adapter refuses to drop a project that is not there. -/
theorem runA_dropProject_missing {slug : String} (hdata : s.doc projectKind [slug] = none) :
    runA (dropProject slug) s = (.error (.fail (.noProject slug)), s) := by
  refine (runA_bind_reads (Reads.current projectKind [slug])).trans ?_
  rw [hdata]
  rfl

@[simp] theorem seq_dropped (s : Inner) (mine : List String) (slug : String) :
    (s.dropped mine slug).seq = s.seq := by
  change (Inner.sweep _ _ _).seq = s.seq
  simp only [seq_sweep]

/-- The collections that dropping a project does not sweep. -/
theorem doc_dropped (s : Inner) (mine : List String) (slug : String) {n : String}
    (hn : n ∉ [outboundEventKind, marblesEventKind, dependencyKind, remoteDepKind, issueKind,
    projectKind]) (key : Key) :
    (s.dropped mine slug).doc n key = s.doc n key := by
  simp only [List.mem_cons, List.not_mem_nil, or_false, not_or] at hn
  unfold Inner.dropped
  dsimp only
  simp only [doc_put, doc_sweep, hn, false_and, if_false]

theorem doc_dropped_outbox (s : Inner) (mine : List String) (slug : String) (key : Key) :
    (s.dropped mine slug).doc outboundEventKind key =
      (s.doc outboundEventKind key).filter fun data =>
        !(data.field "issue_id").asStr.any (· ∈ mine) := by
  have hother : outboundEventKind ≠ projectKind ∧ outboundEventKind ≠ issueKind ∧
      outboundEventKind ≠ remoteDepKind ∧
      outboundEventKind ≠ dependencyKind ∧ outboundEventKind ≠ marblesEventKind := by decide
  unfold Inner.dropped
  dsimp only
  simp only [doc_put, doc_sweep, hother, false_and, if_false, true_and, mem_keysOf]
  cases s.doc outboundEventKind key with
  | none => simp
  | some data =>
      by_cases hgone : (data.field "issue_id").asStr.any (· ∈ mine) = true
      · simp [hgone, Option.filter_some]
      · simp [hgone, Option.filter_some]

theorem dropped_docs (s : Inner) (mine : List String) (slug : String) :
    Dropped s (s.dropped mine slug) mine slug := by
  unfold Inner.dropped
  dsimp only
  -- The six sweeps one after the other, each known by what it erases and by the kinds it leaves
  -- alone.
  generalize s.keysOf outboundEventKind _ = keys₁
  have h₁ := tombstoned_sweep s outboundEventKind keys₁
  generalize s.sweep outboundEventKind keys₁ = s₁ at h₁
  generalize s₁.keysOf marblesEventKind _ = keys₂
  have h₂ := tombstoned_sweep s₁ marblesEventKind keys₂
  generalize s₁.sweep marblesEventKind keys₂ = s₂ at h₂
  have h₃ := tombstoned_keys s₂ dependencyKind fun key =>
    (key[0]?).any (· ∈ mine) || (key[1]?).any (· ∈ mine)
  generalize s₂.sweep dependencyKind _ = s₃ at h₃
  have h₄ := tombstoned_keys s₃ remoteDepKind fun key => (key[0]?).any (· ∈ mine)
  generalize s₃.sweep remoteDepKind _ = s₄ at h₄
  have h₅ := tombstoned_sweep s₄ issueKind (mine.map fun id => [id])
  generalize s₄.sweep issueKind _ = s₅ at h₅
  have hlast : ∀ n key, n ≠ projectKind → (s₅.put projectKind [slug] .null true).doc n key =
      s₅.doc n key :=
    fun n key hn => changesOnly_put projectKind [slug] .null true n key hn
  constructor
  · intro key
    rw [hlast _ _ (by decide)]
    by_cases hkey : ∃ id ∈ mine, key = [id]
    · obtain ⟨id, hid, rfl⟩ := hkey
      rw [if_pos ⟨id, hid, rfl⟩]
      exact h₅.erased _ (List.mem_map.mpr ⟨id, hid, rfl⟩)
    · rw [if_neg hkey, h₅.stay, h₄.other (by decide), h₃.other (by decide), h₂.other (by decide),
        h₁.other (by decide)]
      intro hgone
      obtain ⟨id, hid, rfl⟩ := List.mem_map.mp hgone.2
      exact hkey ⟨id, hid, rfl⟩
  · intro child parent
    have hedge : (s₅.put projectKind [slug] .null true).doc dependencyKind [child, parent] =
        s₃.doc dependencyKind [child, parent] := by
      rw [hlast _ _ (by decide), h₅.other (by decide), h₄.other (by decide)]
    rw [hedge]
    by_cases hmem : child ∈ mine ∨ parent ∈ mine
    · rw [if_pos hmem]
      exact h₃.erased _ (by simpa using hmem)
    · rw [if_neg hmem, h₃.stay _ _ (fun h => hmem (by simpa using h.2)), h₂.other (by decide),
        h₁.other (by decide)]
  · intro key data hkey
    rw [hlast _ _ (by decide), h₅.other (by decide), h₄.other (by decide)] at hkey
    by_cases hgone : ((key[0]?).any (· ∈ mine) || (key[1]?).any (· ∈ mine)) = true
    · rw [h₃.erased key hgone] at hkey
      cases hkey
    · rwa [h₃.stay _ _ (fun h => hgone h.2), h₂.other (by decide), h₁.other (by decide)] at hkey
  · intro key
    rw [doc_put, h₅.other (by decide), h₄.other (by decide), h₃.other (by decide),
      h₂.other (by decide), h₁.other (by decide)]
    simp

/-- What is left of the documents stands for what is left of the rows. -/
theorem Sim.drop (h : Sim s t) {s' : Inner} {t' : Tables} {slug : String}
    (hdrop : Dropped s s' (s.issuesOf slug) slug)
    (hissue : t'.issue = t.issue.filter fun _ row => row.project ≠ slug)
    (hdep : t'.dep = t.dep.filter fun e _ =>
      !((t.issue.find e.1).any (fun row => row.project = slug) ||
        (t.issue.find e.2).any fun row => row.project = slug))
    (hproject : t'.project = t.project.erase slug) : Sim s' t' := by
  constructor
  · intro id row hrow
    rw [hissue, Table.find_filter, Option.filter_eq_some_iff] at hrow
    obtain ⟨hold, hother⟩ := hrow
    rw [hdrop.issue, if_neg]
    · exact h.present hold
    · -- a row that is left is of another project
      intro hgone
      obtain ⟨i, hi, hkey⟩ := hgone
      obtain rfl := (List.cons.inj hkey).1
      rw [mem_issuesOf h, hold] at hi
      exact of_decide_eq_true hother (of_decide_eq_true hi)
  · intro id hrow
    rw [hdrop.issue]
    by_cases hgone : ∃ i ∈ s.issuesOf slug, [id] = [i]
    · rw [if_pos hgone]
    · rw [if_neg hgone]
      refine h.absent ?_
      cases hold : t.issue.find id with
      | none => rfl
      | some row =>
          rw [hissue, Table.find_filter, hold] at hrow
          have hproject : row.project = slug := by simpa using hrow
          exact absurd ⟨id, (mem_issuesOf h).mpr (by rw [hold]; exact decide_eq_true hproject), rfl⟩
            hgone
  · intro key data hdata
    rw [hdrop.issue] at hdata
    split at hdata
    · cases hdata
    · exact h.single hdata
  · intro child parent
    rw [hdrop.edge, hdep, Table.mem_keys_iff_isSome, Table.find_filter]
    have hold := h.edge child parent
    rw [Table.mem_keys_iff_isSome] at hold
    simp only [mem_issuesOf h, ← Bool.or_eq_true]
    by_cases hgone : ((t.issue.find child).any (fun row => row.project = slug) ||
      (t.issue.find parent).any fun row => row.project = slug) = true
    · rw [if_pos hgone]
      simp [hgone]
    · rw [if_neg hgone, hold]
      simp [hgone]
  · intro key data hdata
    exact h.pair (hdrop.pair hdata)
  · intro x
    rw [hdrop.project, hproject, Table.mem_keys_iff_isSome, Table.find_erase]
    by_cases hx : x = slug
    · simp [hx]
    · rw [if_neg (by simpa using hx), if_neg hx, ← Table.mem_keys_iff_isSome]
      exact h.project x

/-- Dropping a project: the histories are not compared. -/
theorem follows_dropProject (h : Twins audited s t) (ha : ¬ audited) (slug : String) :
    Follows audited t (runA (dropProject slug) s) (Db.dropProjectTx slug t) := by
  cases hdata : s.doc projectKind [slug] with
  | none =>
      have hslug : slug ∉ t.project.keys := fun hmem => by
        have := (h.sim.project slug).mpr hmem
        simp [hdata] at this
      rw [runA_dropProject_missing hdata, Db.dropProjectTx, if_neg hslug]
      exact .fail h
  | some data =>
      have hslug : slug ∈ t.project.keys := (h.sim.project slug).mp (by rw [hdata]; rfl)
      rw [runA_dropProject hdata, Db.dropProjectTx, if_pos hslug]
      exact .ok ⟨h.sim.drop (dropped_docs ..) rfl rfl rfl, fun h' => absurd h' ha⟩

end Marbles.Adapter
