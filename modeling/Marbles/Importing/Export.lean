import Marbles.Importing.Runs

/-!
# What an export asks for

`Export` is what the phases of the JSONL importer share: the issue rows, the project they
go to and the renaming of their ids. From it and from the store before the import one can
say what the store looks like when all phases are done, without running any of them: which
content an issue has (`contentAt`), which status (`statusAt`) and which edges there are
(`DependsAt`). Every write of the importer leaves these three as they were; the import is
done when the store agrees with them.

Some rows of one issue ask for different statuses. `settled` says which of them wins, and it is
defined so that settling twice changes nothing; that is used when an import that was cut is run
again.
-/

namespace Marbles.Db

/-- The columns that are written when an issue is created and that neither its edges nor
its status touch. -/
structure Content where
  project : String
  title : String
  description : String
  issueType : String
  priority : Int
  parent : Option String
  labels : List String
  metadata : Json.Value
  externalRef : Option String
  deriving DecidableEq

/-- What of a stored row an import decides, and no later one changes. A rerun finds a row under the
id and leaves it, so the content is the first import's. -/
def IssueRow.content (row : IssueRow) : Content where
  project := row.project
  title := row.title
  description := row.description
  issueType := row.issueType
  priority := row.priority
  parent := row.parent
  labels := row.labels
  metadata := row.metadata
  externalRef := row.externalRef

end Marbles.Db

namespace Marbles.Jsonl

open Json (Value Object)
open Db

/-- The issue rows of an export, and where they go. -/
structure Export where
  project : String
  rename : Option (String × String)
  rows : List Value

/-- The status a row asks for. -/
def asked (row : Value) : Status :=
  match normalizeStatus (rawStatus row) with
  | .ok status => (Status.parse status).getD .«open»
  | .error _ => .«open»

/-- The metadata a row is stored with. -/
def storedMetadata (row : Value) : Object :=
  match (row.field "external_ref").asStr with
  | some reference => Object.insert "external_ref" (.str reference) (importMetadata row)
  | none => importMetadata row

/-- Was this row written by the importer? -/
def Marked (metadata : Value) : Prop := metadata.get "marbles_import" = some (.bool true)

/-- What becomes of a status among the statuses that the rows of an issue ask for: closed wins,
and otherwise the first one that is not open, unless the issue was not open before. -/
def settled (status : Status) (asked : List Status) : Status :=
  if status = .closed ∨ .closed ∈ asked then .closed
  else if status ≠ .«open» then status
  else (asked.find? (· ≠ .«open»)).getD .«open»

namespace Export

variable (x : Export)

/-- The id a row is stored under. -/
def key (row : Value) : String := mapped x.rename (originalId row)

/-- With repetitions: an issue may have several rows. -/
def keys : List String := x.rows.map x.key

/-- The issue that an edge of the issue `id` points at, if the edge is imported. -/
def blocker (id : String) (dep : Value) : Option String :=
  if (dep.field "type").asStr.any (· ≠ "blocks") then none
  else ((dep.field "depends_on_id").asStr.map fun target =>
    mapped x.rename ((stripPrefix "memory:" target).getD target)).filter (· ≠ id)

/-- The targets of the edges of a row, renamed like the row itself. -/
def blockers (row : Value) : List String :=
  ((row.field "dependencies").asArray.getD []).filterMap (x.blocker (x.key row))

/-- The content a row is created with. -/
def content (row : Value) : Content :=
  (newRow (specOf x.project (x.key row) row) x.project 0 (storedMetadata row) 0).content

/-- The rows of one issue. -/
def rowsOf (id : String) : List Value := x.rows.filter fun row => x.key row = id

/-- An edge of the export. -/
def Edge (a b : String) : Prop := ∃ row ∈ x.rows, x.key row = a ∧ b ∈ x.blockers row

/-! ### The store when the import is done -/

/-- What is stored stays, and the first row of an issue that is not stored creates it. -/
def contentAt (t : Tables) (id : String) : Option Content :=
  ((t.issue.find id).map IssueRow.content).or ((x.rowsOf id).head?.map x.content)

/-- Rows of an issue that are not the first still count for its status. -/
def statusAt (t : Tables) (id : String) : Option Status :=
  (((t.issue.find id).map IssueRow.status).or ((x.rowsOf id).head?.map fun _ => .«open»)).map
    fun status => settled status ((x.rowsOf id).map asked)

/-- The edges that are there, and those of the file that have an issue at their end. -/
def DependsAt (t : Tables) (a b : String) : Prop :=
  t.DependsOn a b ∨ x.Edge a b ∧ (b ∈ t.issue.keys ∨ b ∈ x.keys)

/-- Nothing is left to do. -/
structure Done (t : Tables) : Prop where
  content : ∀ id, x.contentAt t id = (t.issue.find id).map IssueRow.content
  status : ∀ id, x.statusAt t id = (t.issue.find id).map IssueRow.status
  edges : ∀ a b, x.DependsAt t a b ↔ t.DependsOn a b

/-- `t'` is `t` with a part of the import done. A cut import is some amount of progress, and so is
each of its phases. -/
structure Advances (t t' : Tables) : Prop where
  project : t'.project = t.project
  kept : ∀ id row, t.issue.find id = some row →
    ∃ row', t'.issue.find id = some row' ∧ row'.content = row.content
  content : ∀ id, x.contentAt t' id = x.contentAt t id
  status : ∀ id, x.statusAt t' id = x.statusAt t id
  edges : ∀ a b, x.DependsAt t' a b ↔ x.DependsAt t a b
  /-- The importer closes nothing without evidence. -/
  evidence : ∀ id row', t'.issue.find id = some row' → row'.status = .closed → row'.evidence = [] →
    ∃ row, t.issue.find id = some row ∧ row.status = .closed ∧ row.evidence = []

end Export

/-! ### Reading a row -/

@[simp] theorem storedMetadata_specOf (project id : String) (row : Value) :
    (specOf project id row).storedMetadata = .ok (storedMetadata row) := by
  unfold NewIssue.storedMetadata storedMetadata
  cases h : (row.field "external_ref").asStr with
  | none => simp only [specOf, Option.getD_some, h]; rfl
  | some reference => simp only [specOf, Option.getD_some, h]; rfl

theorem marked_storedMetadata (row : Value) : Marked (.obj (storedMetadata row)) := by
  have hmark : Object.get "marbles_import" (importMetadata row) = some (.bool true) := by
    rw [importMetadata, Object.get_insert, if_pos rfl]
  unfold Marked storedMetadata
  split
  · rw [Value.get, Object.get_insert, if_neg (by decide)]
    exact hmark
  · exact hmark

/-- What the translation of statuses returns is the text of a status. -/
theorem parse_of_normalizeStatus {raw status : String} (h : normalizeStatus raw = .ok status) :
    ∃ st, Status.parse status = some st ∧ st.asStr = status := by
  unfold normalizeStatus at h
  split at h <;> cases h
  · exact ⟨.«open», by decide, rfl⟩
  · exact ⟨.«open», by decide, rfl⟩
  · exact ⟨.inProgress, by decide, rfl⟩
  · exact ⟨.inProgress, by decide, rfl⟩
  · exact ⟨.review, by decide, rfl⟩
  · exact ⟨.review, by decide, rfl⟩
  · exact ⟨.review, by decide, rfl⟩
  · exact ⟨.blocked, by decide, rfl⟩
  · exact ⟨.deferred, by decide, rfl⟩
  · exact ⟨.closed, by decide, rfl⟩
  · exact ⟨.closed, by decide, rfl⟩
  · exact ⟨.closed, by decide, rfl⟩

theorem asked_asStr {row : Value} {status : String}
    (h : normalizeStatus (rawStatus row) = .ok status) :
    (asked row).asStr = status := by
  obtain ⟨st, hst, htext⟩ := parse_of_normalizeStatus h
  rw [asked, h]
  simp only [hst, Option.getD_some, htext]

/-! ### Settling a status -/

theorem settled_of_closed {status : Status} {asked : List Status} (h : .closed ∈ asked) :
    settled status asked = .closed := by rw [settled, if_pos (Or.inr h)]

/-- An open issue takes the first status that is not open. -/
theorem settled_of_first {status : Status} {asked : List Status}
    (h : asked.find? (· ≠ .«open») = some status) : settled .«open» asked = settled status
    asked := by
  by_cases hclosed : Status.closed ∈ asked
  · rw [settled_of_closed hclosed, settled_of_closed hclosed]
  · have hopen : status ≠ .«open» := by simpa using List.find?_some h
    have hne : status ≠ .closed := fun heq => hclosed (heq ▸ List.mem_of_find?_eq_some h)
    rw [settled, settled, h, if_neg (not_or.mpr ⟨nofun, hclosed⟩),
      if_neg (not_or.mpr ⟨hne, hclosed⟩),
      if_neg (not_not.mpr rfl), if_pos hopen, Option.getD_some]

/-- A status is settled when nothing is asked for that it does not give. -/
theorem settled_self {status : Status} {asked : List Status}
    (hclosed : .closed ∈ asked → status = .closed)
    (hopen : status = .«open» → ∀ st ∈ asked, st = .«open») : settled status asked = status := by
  unfold settled
  split
  · rename_i h
    exact (h.elim id hclosed).symm
  · rename_i h
    split
    · rfl
    · rename_i hstatus
      have hall := hopen (not_not.mp hstatus)
      have hnone : asked.find? (· ≠ .«open») = none := by
        rw [List.find?_eq_none]
        intro st hst
        simp [hall st hst]
      rw [hnone, not_not.mp hstatus]
      rfl

/-- An issue of one row ends with the status the row asks for. -/
@[simp] theorem settled_singleton (status : Status) : settled .«open» [status] = status := by
  cases status <;> decide

namespace Export

variable {x : Export} {t t' t'' : Tables}

@[simp] theorem mem_rowsOf {row : Value} {id : String} : row ∈ x.rowsOf id ↔ row ∈ x.rows ∧
    x.key row = id := by
  rw [rowsOf, List.mem_filter, decide_eq_true_iff]

theorem key_mem_keys {row : Value} (h : row ∈ x.rows) : x.key row ∈ x.keys := List.mem_map_of_mem h

@[simp]
theorem mem_keys {id : String} : id ∈ x.keys ↔ ∃ row ∈ x.rows, x.key row = id := List.mem_map

/-! ### Advancing -/

theorem Advances.refl (x : Export) (t : Tables) : x.Advances t t where
  project := rfl
  kept := fun _ row h => ⟨row, h, rfl⟩
  content := fun _ => rfl
  status := fun _ => rfl
  edges := fun _ _ => Iff.rfl
  evidence := fun _ row h hclosed hnone => ⟨row, h, hclosed, hnone⟩

theorem Advances.trans (h : x.Advances t t') (h' : x.Advances t' t'') : x.Advances t t'' where
  project := h'.project.trans h.project
  kept := fun id row hrow => by
    obtain ⟨row', hrow', heq⟩ := h.kept id row hrow
    obtain ⟨row'', hrow'', heq'⟩ := h'.kept id row' hrow'
    exact ⟨row'', hrow'', heq'.trans heq⟩
  content := fun id => (h'.content id).trans (h.content id)
  status := fun id => (h'.status id).trans (h.status id)
  edges := fun a b => (h'.edges a b).trans (h.edges a b)
  evidence := fun id row'' hrow'' hclosed hnone => by
    obtain ⟨row', hrow', hclosed', hnone'⟩ := h'.evidence id row'' hrow'' hclosed hnone
    exact h.evidence id row' hrow' hclosed' hnone'

theorem Advances.keys (h : x.Advances t t') {id : String} (hid : id ∈ t.issue.keys) :
    id ∈ t'.issue.keys := by
  obtain ⟨row, hrow⟩ := Table.mem_keys.mp hid
  obtain ⟨row', hrow', -⟩ := h.kept id row hrow
  exact Table.mem_keys_of_find hrow'

/-- Updating one issue in place, apart from its content. -/
theorem Advances.modify {id : String} {f : IssueRow → IssueRow}
    (hissue : t'.issue = t.issue.modify id f) (hdep : t'.dep = t.dep)
    (hproject : t'.project = t.project)
    (hcontent : ∀ row, (f row).content = row.content)
    (hstatus : ∀ row, t.issue.find id = some row →
      settled (f row).status ((x.rowsOf id).map asked) = settled row.status
      ((x.rowsOf id).map asked))
    (hevidence : ∀ row, (f row).status = .closed → (f row).evidence = [] →
      row.status = .closed ∧ row.evidence = []) : x.Advances t t' where
  -- The modified row keeps its content, and its status settles as it did before.
  project := hproject
  kept := fun k row hrow => by
    rw [hissue, Table.find_modify, hrow]
    split
    · exact ⟨f row, rfl, hcontent row⟩
    · exact ⟨row, rfl, rfl⟩
  content := fun k => by
    have hfind : (t'.issue.find k).map IssueRow.content = (t.issue.find k).map
        IssueRow.content := by
      rw [hissue, Table.find_modify]
      split
      · rw [Option.map_map]
        exact congrArg (fun g => (t.issue.find k).map g) (funext hcontent)
      · rfl
    rw [contentAt, contentAt, hfind]
  status := fun k => by
    rw [statusAt, statusAt, hissue, Table.find_modify]
    split
    · rename_i hk
      subst hk
      cases hrow : t.issue.find k with
      | none => rfl
      | some row => simp [hstatus row hrow]
    · rfl
  edges := fun a b => by rw [DependsAt, DependsAt, Tables.DependsOn, Tables.DependsOn, hissue, hdep,
    Table.keys_modify]
  evidence := fun k row' hrow' hclosed hnone => by
    rw [hissue, Table.find_modify] at hrow'
    split at hrow'
    · rename_i hk
      subst hk
      obtain ⟨row, hrow, rfl⟩ := Option.map_eq_some_iff.mp hrow'
      exact ⟨row, hrow, hevidence row hclosed hnone⟩
    · exact ⟨row', hrow', hclosed, hnone⟩

/-- Closing an issue that a row asks to be closed, with evidence. -/
theorem Advances.close {id : String} {reason : Option String} {evidence : List Evidence} {now : Int}
    (hissue : t'.issue = t.issue.modify id fun row => row.close reason evidence now)
    (hdep : t'.dep = t.dep) (hproject : t'.project = t.project)
    (hclosed : .closed ∈ (x.rowsOf id).map asked) (hevidence : evidence ≠ []) :
    x.Advances t t' := by
  refine .modify hissue hdep hproject (fun _ => rfl) (fun row _ => ?_) fun row _ hnone => ?_
  · rw [settled_of_closed hclosed, settled_of_closed hclosed]
  · exact absurd hnone (mergeEvidence_ne_nil hevidence)

/-- Setting an open issue to the first status that its rows ask for. -/
theorem Advances.restate {id : String} {status : Status} {closedAt : Option Int}
    {available now : Int}
    (hissue : t'.issue = t.issue.modify id (Importing.restated status closedAt available now))
    (hdep : t'.dep = t.dep) (hproject : t'.project = t.project)
    (hopen : ∀ row, t.issue.find id = some row → row.status = .«open») (hne : status ≠ .closed)
    (hfirst : ((x.rowsOf id).map asked).find? (· ≠ .«open») = some status ∨
      .closed ∈ (x.rowsOf id).map asked) : x.Advances t t' := by
  refine .modify hissue hdep hproject (fun _ => rfl) (fun row hrow => ?_) fun row hclosed => ?_
  · rw [hopen row hrow]
    rcases hfirst with hfirst | hclosed
    · exact (settled_of_first hfirst).symm
    · rw [settled_of_closed hclosed, settled_of_closed hclosed]
  · exact absurd hclosed hne

/-- Adding an edge of the export between issues that are there. -/
theorem Advances.addDep {child parent : String} {now : Int}
    (hissue : t'.issue = t.issue.modify child fun row => { row with updatedAt := now })
    (hdep : t'.dep = t.dep.insert (child, parent) ()) (hproject : t'.project = t.project)
    (hedge : x.Edge child parent) (hparent : parent ∈ t.issue.keys) : x.Advances t t' := by
  have htouched : x.Advances t { t' with dep := t.dep } :=
    .modify hissue rfl hproject (fun _ => rfl) (fun _ _ => rfl) fun _ hclosed hnone =>
      ⟨hclosed, hnone⟩
  refine ⟨htouched.project, htouched.kept, htouched.content, htouched.status, fun a b => ?_,
    htouched.evidence⟩
  rw [DependsAt, DependsAt, Tables.DependsOn, Tables.DependsOn, hissue, hdep, Table.keys_modify,
    Table.mem_keys_insert, Prod.mk.injEq]
  constructor
  · rintro ((⟨rfl, rfl⟩ | hold) | hnew)
    · exact Or.inr ⟨hedge, Or.inl hparent⟩
    · exact Or.inl hold
    · exact Or.inr hnew
  · rintro (hold | hnew)
    · exact Or.inl (Or.inr hold)
    · exact Or.inr hnew

/-- Creating the issue of a row, the first of its rows. -/
theorem Advances.create {row : Value} {available now : Int}
    (hissue : t'.issue = t.issue.insert (x.key row)
      (newRow (specOf x.project (x.key row) row) x.project available (storedMetadata row) now))
    (hdep : t'.dep = t.dep) (hproject : t'.project = t.project)
    (hfresh : t.issue.find (x.key row) = none)
    (hfirst : (x.rowsOf (x.key row)).head? = some row) : x.Advances t t' := by
  have hmem : row ∈ x.rows := (mem_rowsOf.mp (List.mem_of_mem_head? hfirst)).1
  have hfind : ∀ k, t'.issue.find k = if k = x.key row then
      some (newRow (specOf x.project (x.key row) row) x.project available (storedMetadata row) now)
      else t.issue.find k := by
    intro k
    split
    · rename_i hk
      rw [hk, hissue, Table.find_insert_new hfresh]
    · rename_i hk
      rw [hissue, Table.find_insert_ne hk]
  -- Creating the row fills what the export says of its id: the content and the status were the
  -- row's before it existed, and its key counted as stored.
  refine ⟨hproject, fun k old hold => ?_, fun k => ?_, fun k => ?_, fun a b => ?_,
    fun k row' hrow' hclosed => ?_⟩
  · have hk : k ≠ x.key row := by
      intro heq
      rw [heq, hfresh] at hold
      cases hold
    exact ⟨old, by rw [hfind, if_neg hk, hold], rfl⟩
  · rw [contentAt, contentAt, hfind]
    split
    · rename_i hk
      subst hk
      rw [hfresh, hfirst]
      rfl
    · rfl
  · rw [statusAt, statusAt, hfind]
    split
    · rename_i hk
      subst hk
      rw [hfresh, hfirst]
      rfl
    · rfl
  · have hkeys : b ∈ t'.issue.keys ∨ b ∈ x.keys ↔ b ∈ t.issue.keys ∨ b ∈ x.keys := by
      rw [hissue, Table.mem_keys_insert]
      constructor
      · rintro ((rfl | hold) | hkey)
        · exact Or.inr (key_mem_keys hmem)
        · exact Or.inl hold
        · exact Or.inr hkey
      · exact Or.imp_left Or.inr
    rw [DependsAt, DependsAt, Tables.DependsOn, Tables.DependsOn, hdep, hkeys]
  · rw [hfind] at hrow'
    split at hrow'
    · cases hrow'
      cases hclosed
    · rename_i hk
      exact fun hnone => ⟨row', hrow', hclosed, hnone⟩

end Export

end Marbles.Jsonl
