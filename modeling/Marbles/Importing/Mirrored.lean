import Marbles.Db.Rows
import Marbles.Importing.Guarded

/-!
# The reference of an issue

An external reference is stored twice, in a column and in the metadata. An update that merges
metadata reads the column off them; creating an issue only goes the other way, so a reference that
is given in the metadata alone never reaches the column. The two agree on every issue as long as
no issue is created like that.

The invariant is about rows, so it is kept scope by scope. Only the creating scope can break it,
which makes the condition one about what is created. The importer of exports writes the reference
to both places by itself, on the rows it really creates.
-/

namespace Marbles.Importing

open Db
open Json (Value Object)
open Jsonl (ImportReport IdMap isSkip mapped originalId)

/-- The reference in the metadata, if it is a text. -/
def referenceOf (metadata : Value) : Option String := (metadata.get "external_ref").bind Value.asStr

/-- The column holds what the metadata hold. -/
def MirroredRow (row : IssueRow) : Prop := row.externalRef = referenceOf row.metadata

/-- The column holds what the metadata hold, for every issue. -/
def Mirrored (t : Tables) : Prop := ∀ id row, t.issue.find id = some row → MirroredRow row

/-- Without a reference of its own, the metadata of a spec have none. -/
def Referenced (spec : NewIssue) : Prop :=
  spec.externalRef = none → referenceOf (spec.metadata.getD (.obj [])) = none

/-- Does an issue with this spec fit into the tables? -/
structure Fits (t : Tables) (project : String) (spec : NewIssue) : Prop where
  exists_project : project ∈ t.project.keys
  exists_parent : ∀ p, spec.parent = some p → ∃ row, t.issue.find p = some row ∧
    row.project = project
  fresh : ∀ id, spec.id = some id → t.issue.find id = none

/-- What is created has the reference of its metadata: the issue of a call, and the rows of an
export that are not there yet. -/
def Sourced (t : Tables) : Action → Prop
  | .op (.create spec _ _) => ∀ project, spec.project = some project → Fits t project spec →
      Referenced spec
  | .importJsonl _ project rename rows dryRun => dryRun = false → ∀ row ∈ rows, isSkip row = false →
      t.issue.find (mapped rename (originalId row)) = none →
      Referenced (Jsonl.specOf project (mapped rename (originalId row)) row)
  | _ => True

/-! ### Creating and updating -/

/-- Exactly an issue that is created with the reference of its metadata has it in the column. -/
theorem mirrored_newRow_iff {spec : NewIssue} {project : String} {available now : Int}
    {metadata : Object} (h : spec.storedMetadata = .ok metadata) :
    MirroredRow (newRow spec project available metadata now) ↔ Referenced spec := by
  change spec.externalRef = referenceOf (.obj metadata) ↔ _
  unfold NewIssue.storedMetadata at h
  unfold Referenced
  cases hgiven : spec.metadata.getD (.obj []) with
  | obj map =>
      rw [hgiven] at h
      cases hreference : spec.externalRef with
      | none =>
          rw [hreference] at h
          obtain rfl : map = metadata := Except.ok.inj h
          exact ⟨fun heq _ => heq.symm, fun hnone => (hnone rfl).symm⟩
      | some reference =>
          rw [hreference] at h
          obtain rfl : Object.insert "external_ref" (.str reference) map = metadata :=
            Except.ok.inj h
          refine iff_of_true ?_ fun hnone => by cases hnone
          rw [referenceOf, Value.get, Object.get_insert, if_pos rfl]
          rfl
  | _ =>
      rw [hgiven] at h
      exact absurd h Outcome.fail_ne_ok

/-- No other scope writes one of the two without the other. -/
theorem mirrored_step {cfg : Config} {t : Tables} {c : Scope} {id : String} {row' : IssueRow}
    (h : RowStep cfg t id c row') (hm : Mirrored t)
    (hcreate : ∀ spec project available draws now, c ≠ .create spec project available draws now) :
    MirroredRow row' := by
  cases h with
  | kept hrow | setLabels hrow | addDep hrow | addRemoteDep hrow | touch hrow | claim _ hrow
  | release hrow | sweep hrow | closeUnchecked hrow =>
      have hold := hm id _ hrow
      exact hold
  | create => exact absurd rfl (hcreate _ _ _ _ _)
  | @update patch _ _ row _ _ hrow hnext =>
      obtain ⟨metadata, reference, rfl, hmetadata⟩ := patch.apply_ok hnext
      have hwritten : reference = referenceOf metadata := by
        rcases hmetadata with ⟨rfl, rfl⟩ | ⟨map, rfl, rfl⟩
        · exact hm id row hrow
        · rfl
      unfold MirroredRow IssueRow.write IssuePatch.setStatus
      cases patch.status with
      | none => exact hwritten
      | some status => exact hwritten

theorem createTx_mirrored {spec : NewIssue} {project id : String} {available now : Int}
    {draws : List String} {t t' : Tables}
    (h : createTx spec project available draws now t = .ok (id, t')) :
    Fits t project spec ∧
      ∀ row, t'.issue.find id = some row → (MirroredRow row ↔ Referenced spec) := by
  obtain ⟨metadata, hproject, hparent, hfresh, hid, hmetadata, rfl⟩ := createTx_ok h
  refine ⟨⟨hproject, hparent, fun i hi => hid i hi ▸ hfresh⟩, fun row hrow => ?_⟩
  rw [Tables.logEvent_issue, Table.find_insert_new hfresh] at hrow
  obtain rfl := Option.some.inj hrow
  exact mirrored_newRow_iff hmetadata

/-- Every scope keeps the two together, if what it creates comes with its reference. -/
theorem Mirrored.scope {cfg : Config} {s : Locked Tables} (hm : Mirrored s.state) {c : Scope}
    (hc : ∀ spec project available draws now, c = .create spec project available draws now →
      Fits s.state project spec → Referenced spec) : Mirrored (c.exec cfg s).2.state := by
  by_cases hcreate : ∃ spec project available draws now,
      c = .create spec project available draws now
  · obtain ⟨spec, project, available, draws, now, rfl⟩ := hcreate
    refine Locked.tx_preserves hm fun new t' hok id row hrow => ?_
    obtain ⟨hfits, hmirrored⟩ := createTx_mirrored hok
    by_cases hid : id = new
    · subst hid
      exact (hmirrored row hrow).mpr (hc spec project available draws now rfl hfits)
    · obtain ⟨metadata, -, -, -, -, -, rfl⟩ := createTx_ok hok
      rw [Tables.logEvent_issue, Table.find_insert_ne hid] at hrow
      exact hm id row hrow
  · intro id row hrow
    exact mirrored_step ((exec_effect cfg c s).row hrow) hm
        fun spec project available draws now heq =>
      hcreate ⟨spec, project, available, draws, now, heq⟩

/-! ### The export importer

Whether a row is created depends on whether its id was found, so the importer is taken together
with the answers it gets about the tables it started from. -/

/-- An id that is not found was not there at the start either. -/
def Answered (t : Tables) : (c : Scope) → Result c.Ret → Prop
  | .get id, r => ∀ e, r = .error (.fail e) → t.issue.find id = none
  | _, _ => True

/-- What is created comes with its reference, and no project is dropped. -/
def Allowed : Scope → Prop
  | .create spec _ _ _ _ => Referenced spec
  | .dropProject _ => False
  | _ => True

/-- A program that, started from `t`, creates issues with their references only. -/
structure Sources {ε α : Type} (t : Tables) (post : α → Prop) (m : ImportM ε α) : Prop where
  prog : Prog.Relies (I := DbI) (Answered t) Allowed (fun r => ∀ a, r = .ok a → post a) m.run

namespace Sources

variable {ε α β : Type} {t : Tables} {post q : α → Prop}

theorem of_guarded {m : ImportM ε α} (hm : Guarded (Answered t) Allowed post m) :
    Sources t post m := ⟨hm.prog⟩

theorem guarded {m : ImportM ε α} (hm : Sources t post m) : Guarded (Answered t) Allowed post m :=
  ⟨hm.prog⟩

/-- Looking for an issue. -/
theorem attempt_get (id : String) :
    Sources t (fun r => ∀ e, r = .error e → t.issue.find id = none)
      (attempt (get id) : ImportM ε (Except Error Issue)) := by
  refine ⟨trivial, fun r hr found hfound e he => ?_⟩
  subst he
  cases r with
  | ok issue => cases hfound
  | error fault =>
      cases fault with
      | fail e => exact hr e rfl
      | abort => cases hfound

end Sources

theorem sources_createRow {cfg : Config} {env : Jsonl.Env} {t : Tables} {project : String}
    {rename : Option (String × String)} {ids : IdMap} (hids : Renamed rename ids)
    (report : ImportReport) (entry : Value × Nat)
    (hrow : t.issue.find (mapped rename (originalId entry.1)) = none →
      Referenced (Jsonl.specOf project (mapped rename (originalId entry.1)) entry.1)) :
    Sources t (fun _ => True) (Jsonl.createRow cfg env project ids report entry) := by
  refine .of_guarded ((guarded_storedId hids entry.1).bind fun id hid =>
    (Sources.attempt_get id).guarded.bind fun r hr => ?_)
  subst hid
  cases r with
  | ok existing => exact .pure trivial
  | error e =>
      refine (Guarded.of_within (within_check _)).bind fun createdAt _ => ?_
      refine Guarded.bind (Guarded.of_within (Within.orElseFail _
        (within_create cfg fun _ _ => ?_))) fun _ _ => .pure trivial
      exact hrow (hr e rfl)

/-- The scopes of an import that creates nothing are allowed. -/
theorem allowed_of_enters {project : String} {c : Scope} (hc : ExportEnters project [] c) :
    Allowed c := by
  rcases hc with ⟨_, hrow, _⟩ | ⟨_, _, _, rfl⟩ | ⟨_, _, _, _, rfl⟩ | ⟨_, rfl⟩ | ⟨_, _, _, _, rfl⟩ |
    ⟨_, rfl⟩
  · cases hrow
  all_goals trivial

theorem sources_importJsonl {cfg : Config} {env : Jsonl.Env} {t : Tables} {project : String}
    {rename : Option (String × String)} {rows : List Value} {dryRun : Bool}
    (h : Sourced t (.importJsonl env project rename rows dryRun)) :
    Sources t (fun _ => True) (Jsonl.import cfg env project rename rows dryRun) := by
  refine .of_guarded (guarded_importJsonl (fun _ => trivial) (fun _ => allowed_of_enters)
    fun hdry ids hids report entry hentry => (sources_createRow hids report entry ?_).guarded)
  obtain ⟨hmem, hissue⟩ := List.mem_filter.mp hentry
  exact h hdry entry.1 hmem (by simpa using hissue)

/-- An importer that creates with references leaves the two together. -/
theorem Mirrored.importJsonl {cfg : Config} {s : Locked Tables} (hm : Mirrored s.state)
    {env : Jsonl.Env} {project : String} {rename : Option (String × String)} {rows : List Value}
    {dryRun : Bool} (h : Sourced s.state (.importJsonl env project rename rows dryRun)) :
    Mirrored ((Action.importJsonl env project rename rows dryRun).step cfg s).state := by
  have hprog : Prog.Relies (I := DbI) (Answered s.state) Allowed (fun _ => True)
      ((Action.importJsonl env project rename rows dryRun).prog cfg) :=
    (sources_importJsonl h).prog.bind fun _ _ => trivial
  refine (Prog.Relies.run (P := fun l : Locked Tables => Mirrored l.state ∧
    ∀ id, l.state.issue.find id = none → s.state.issue.find id = none) (fun c l hl => ?_)
    (fun c l hc hl => ?_) hprog ⟨hm, fun _ h => h⟩).1.1
  -- A get that finds nothing shows that the id was free at the start too, for no scope of an import
  -- takes a row away.
  · cases c with
    | get id =>
        intro e he
        refine hl.2 id (Option.eq_none_iff_forall_not_mem.mpr fun row hrow => ?_)
        cases hp : l.poisoned with
        | true =>
            rw [exec_poisoned hp] at he
            cases he
        | false =>
            rw [Locked.eq_new hp] at he
            change (Locked.query (getQuery id) (.new l.state)).1 = _ at he
            rw [Locked.query_new, getQuery_find hrow] at he
            cases he
    | _ => trivial
  · refine ⟨hl.1.scope fun spec project available draws now hcreate _ => ?_, fun id hnone => ?_⟩
    · subst hcreate
      exact hc
    · refine hl.2 id (Option.eq_none_iff_forall_not_mem.mpr fun row hrow => ?_)
      obtain ⟨row', hrow'⟩ := (exec_effect cfg c l).stays hrow fun heq => by
        subst heq
        exact hc
      rw [hnone] at hrow'
      cases hrow'

/-! ### Runs -/

/-- A create call leaves the two together. -/
theorem Mirrored.create {cfg : Config} {s : Locked Tables} (hm : Mirrored s.state)
    {spec : NewIssue} {draws : List String} {now : Int}
    (h : Sourced s.state (.op (.create spec draws now))) :
    Mirrored ((Action.op (.create spec draws now)).step cfg s).state := by
  have hprog : Within (fun c => ∃ project available, spec.project = some project ∧
      c = .create spec project available draws now) (method cfg (.create spec draws now)) := by
    refine .map _ ?_
    unfold Db.create
    split
    · exact .throw _
    · rename_i project hproject
      exact .call ⟨project, _, hproject, rfl⟩
  have honly : Prog.Only (I := DbI) _ ((Action.op (.create spec draws now)).prog cfg) :=
    Prog.Only.bind hprog.only fun _ => trivial
  -- a spec that does not fit is refused, and fits no better afterwards
  refine (Prog.Only.run_invariant (q := fun l : Locked Tables => Mirrored l.state ∧
    Sourced l.state (.op (.create spec draws now))) (fun c l hc hl => ?_) honly ⟨hm, h⟩).1
  obtain ⟨project, available, hproject, rfl⟩ := hc
  refine ⟨hl.1.scope fun _ _ _ _ _ heq hfits => ?_, fun project' hproject' hfits' => ?_⟩
  · cases heq
    exact hl.2 project hproject hfits
  · rcases Locked.tx_state (createTx spec project available draws now) l with heq | ⟨id, t', hok, -⟩
    · exact hl.2 project' hproject' (heq ▸ hfits')
    · exact hl.2 project hproject (createTx_mirrored hok).1

/-- Only a create call creates. -/
theorem create_of_enters {cfg : Config} {o : Op} {spec : NewIssue} {project : String}
    {available now : Int} {draws : List String}
    (h : (Action.op o).Enters cfg (.create spec project available draws now)) :
    o = .create spec draws now := by
  cases o with
  | create =>
      obtain ⟨_, _, heq⟩ := h
      cases heq
      rfl
  | claim =>
      obtain ⟨_, -, heq⟩ := h
      cases heq
  | update | addLabel | removeLabel | close | supersede | ready =>
      simp [Action.Enters, Db.Enters] at h
  | _ => cases h

/-- What an action other than a create call and an export creates has the reference it needs. -/
theorem Mirrored.others {cfg : Config} {s : Locked Tables} {a : Action} (hm : Mirrored s.state)
    (hcreate : ∀ spec project available draws now,
      a.Enters cfg (.create spec project available draws now) → Referenced spec) :
    Mirrored (a.step cfg s).state :=
  @Action.step_invariant cfg a (fun l => Mirrored l.state) (fun _ _ hc hl =>
    hl.scope fun spec project available draws now heq _ =>
      hcreate spec project available draws now (heq ▸ hc)) s hm

theorem Mirrored.step {cfg : Config} {s : Locked Tables} {a : Action} (hm : Mirrored s.state)
    (ha : Sourced s.state a) : Mirrored (a.step cfg s).state := by
  cases a with
  | op o =>
      by_cases ho : ∃ spec draws now, o = .create spec draws now
      · obtain ⟨spec, draws, now, rfl⟩ := ho
        exact hm.create ha
      · exact hm.others fun spec project available draws now hc =>
          absurd ⟨spec, draws, now, create_of_enters hc⟩ ho
  | importList project clock rows =>
      refine hm.others fun spec p available draws now hc => ?_
      rcases hc with ⟨row, _, _, _, _, heq⟩ | ⟨_, _, _, heq⟩ | ⟨_, _, _, heq⟩ | ⟨_, heq⟩
      · cases heq
        exact fun _ => rfl
      all_goals cases heq
  | importJsonl env project rename rows dryRun => exact hm.importJsonl ha
  | _ => exact hm.others fun _ _ _ _ _ hc => by cases hc

/-- In a run in which every issue is created with the reference of its metadata, the reference of an
issue is the one in its metadata; an issue that is created otherwise differs at once. The column is
read off the metadata by updates only. -/
theorem references_mirrored {cfg : Config} {storeId : String} {actions : List Action}
    (h : Machine.Meets (Action.step cfg) (fun s a => Sourced s.state a) actions (opened storeId)) :
    (∀ id issue, (Action.run cfg actions (opened storeId)).state.rowToIssue id = some issue →
      issue.externalRef = referenceOf issue.metadata) ∧
    ∀ t spec project available draws now id t' issue,
      createTx spec project available draws now t = .ok (id, t') → t'.rowToIssue id = some issue →
      (issue.externalRef = referenceOf issue.metadata ↔ Referenced spec) := by
  constructor
  · intro id issue hissue
    have hm : Mirrored (Action.run cfg actions (opened storeId)).state := by
      refine Machine.invariant_of_meets (fun s : Locked Tables => Mirrored s.state)
        (fun _ _ hm ha => hm.step ha) actions (fun id row hrow => ?_) h
      simp [opened, Tables.empty] at hrow
    obtain ⟨row, hrow, rfl⟩ := rowToIssue_eq_some.mp hissue
    exact hm id row hrow
  · intro t spec project available draws now id t' issue hcreate hissue
    obtain ⟨row, hrow, rfl⟩ := rowToIssue_eq_some.mp hissue
    exact (createTx_mirrored hcreate).2 row hrow

/-- An issue that is created with a reference, which an update then replaces. -/
def referringIssue : List Action := [.op (.ensureProject "p" "/p" "p" 0),
  .op (.create { id := some "x", project := some "p", externalRef := some "gh-1" } [] 0),
  .op (.update "x" { metadata := some (.obj [("external_ref", .str "gh-2")]) } "a" 1)]

theorem references_mirrored_update :
    ∃ issue, (Action.run {} referringIssue (opened "s")).state.rowToIssue "x" = some issue ∧
      issue.externalRef = some "gh-2" ∧ issue.externalRef = referenceOf issue.metadata := by
  have hsourced : Machine.Meets (Action.step {}) (fun s a => Sourced s.state a) referringIssue
      (opened "s") :=
    ⟨trivial, fun _ _ _ hnone => (by cases hnone), trivial, trivial⟩
  exact ⟨_, rfl, rfl, (references_mirrored hsourced).1 "x" _ rfl⟩

/-- A spec whose reference is in its metadata alone. -/
def unreadSpec : NewIssue where
  id := some "x"
  project := some "p"
  metadata := some (.obj [("external_ref", .str "gh-1")])

/-- The column stays empty until an update merges metadata, which may be empty. -/
theorem reference_unread :
    let s := Action.run {} [.op (.ensureProject "p" "/p" "p" 0), .op (.create unreadSpec [] 0)]
      (opened "s")
    let s' := Action.step {} (.op (.update "x" { metadata := some (.obj []) } "a" 1)) s
    (s.state.rowToIssue "x").map (fun issue => (issue.externalRef, referenceOf issue.metadata)) =
        some (none, some "gh-1") ∧
      (s'.state.rowToIssue "x").map (fun issue => (issue.externalRef, referenceOf issue.metadata)) =
        some (some "gh-1", some "gh-1") :=
  ⟨rfl, rfl⟩

end Marbles.Importing
