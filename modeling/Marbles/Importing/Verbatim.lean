import Marbles.Db.Rows
import Marbles.Importing.Guarded
import Marbles.Importing.Landing
import Mathlib.Data.List.DropRight

/-!
# What arrives of a row

A field of an export passes through the coercions of the importer and then through the defaults
of `create`. `Verbatim` says that all of a row has arrived. The defaults take a priority of zero
for a missing one, so the most urgent rows of an export become ordinary ones; composing the
description trims the texts of the row; and of two rows with one id only the first is created.

Each field goes through its own coercion, and for each the condition says which values are left as
they are. Texts are compared up to what trimming takes away, and exactly where nothing is trimmed.
Metadata with a fraction in it is outside of all this, as JSON values have integers only: the
float parser of `serde_json` is not modelled.
-/

namespace Marbles.Jsonl

open Json (Value Object)
open Db Importing

/-- The instant that a timestamp names. -/
def instant (parse : String → Except String Int) : Value → Option Int
  | .str text => (parse text).toOption
  | v => v.asI64

/-- The texts of a row that go into its description. -/
def prose (row : Value) : List Value :=
  ["description", "design", "acceptance_criteria", "notes"].map (Value.field · row) ++
    ((row.field "comments").asArray.getD []).map (Value.field "text")

/-- A text is found in another. -/
def Contains (whole part : String) : Prop := part.toList <:+: whole.toList

/-- All that the row gives is stored as the row gives it, and its texts as `clean` leaves them. Only
what the row gives is compared, since for the rest the importer has its defaults. -/
structure Verbatim (parse : String → Except String Int) (clean : String → String) (row : Value)
    (stored : IssueRow) : Prop where
  title : row.field "title" ≠ .null → row.field "title" = .str stored.title
  issueType : row.field "issue_type" ≠ .null → row.field "issue_type" = .str stored.issueType
  priority : row.field "priority" ≠ .null → row.field "priority" = .num stored.priority
  labels : stored.labels = ((row.field "labels").asArray.getD []).filterMap Value.asStr
  externalRef : row.field "external_ref" ≠ .null →
    ∃ reference, row.field "external_ref" = .str reference ∧ stored.externalRef = some reference
  createdAt : row.field "created_at" ≠ .null →
    instant parse (row.field "created_at") = some stored.createdAt
  metadata : ∀ key v, (row.field "metadata").get key = some v → stored.metadata.get key = some v
  mark : stored.metadata.get "marbles_import" = some (.bool true)
  reference : ∀ reference, row.field "external_ref" = .str reference →
    stored.metadata.get "external_ref" = some (.str reference)
  /-- The metadata have nothing else. -/
  given : ∀ key v, stored.metadata.get key = some v → (row.field "metadata").get key = some v ∨
    key = "marbles_import" ∨ key = "external_ref" ∧ row.field "external_ref" ≠ .null
  description : ∀ v ∈ prose row, v ≠ .null →
    ∃ text, v = .str text ∧ Contains stored.description (clean text)

/-- A text, if it is given. -/
def Textual (v : Value) : Prop := v ≠ .null → ∃ text, v = .str text

/-- No coercion and no default reinterprets a value of the row. -/
structure Legal (row : Value) : Prop where
  texts : ∀ key ∈ ["title", "issue_type", "external_ref"], Textual (row.field key)
  prose : ∀ v ∈ prose row, Textual v
  priority : row.field "priority" ≠ .null → ∃ n, (row.field "priority").asI64 = some n ∧ n ≠ 0
  mark : ∀ v, (row.field "metadata").get "marbles_import" = some v → v = .bool true
  reference : ∀ reference v, row.field "external_ref" = .str reference →
    (row.field "metadata").get "external_ref" = some v → v = .str reference

/-- The texts of the row have no whitespace at their ends that composing takes off. -/
structure Tight (row : Value) : Prop where
  description : ∀ text, row.field "description" = .str text → trimEnd text = text
  sections : ∀ key ∈ ["design", "acceptance_criteria", "notes"], ∀ text,
    row.field key = .str text → trim text = text

/-- Two rows agree in what is to arrive. -/
def Agree (row row' : Value) : Prop :=
  ∀ key ∈ ["title", "issue_type", "priority", "labels", "external_ref", "created_at", "metadata",
    "description", "design", "acceptance_criteria", "notes", "comments"],
      row.field key = row'.field key

/-- Rows with one id agree. -/
def Agreeing (rows : List Value) : Prop :=
  ∀ row ∈ rows, ∀ row' ∈ rows, originalId row = originalId row' → Agree row row'

/-- The exports of which all arrives. -/
structure Carried (rows : List Value) : Prop where
  agree : Agreeing rows
  legal : ∀ row ∈ rows, Legal row
  tight : ∀ row ∈ rows, Tight row

/-- Every row has arrived under its id. -/
def Arrived (parse : String → Except String Int) (clean : String → String) (rows : List Value)
    (w : Tables) : Prop :=
  ∀ row ∈ rows, ∃ id stored, row.field "id" = .str id ∧ w.issue.find id = some stored ∧
    Verbatim parse clean row stored

/-! ### Texts in a description -/

namespace Contains

variable {a b s : String}

theorem refl (s : String) : Contains s s := List.infix_rfl

theorem trans (h : Contains s b) (h' : Contains b a) : Contains s a := List.IsInfix.trans h' h

theorem empty (s : String) : Contains s "" := List.nil_infix

theorem append_left (a b : String) : Contains (a ++ b) a := by
  rw [Contains, String.toList_append]
  exact (List.prefix_append ..).isInfix

theorem append_right (a b : String) : Contains (a ++ b) b := by
  rw [Contains, String.toList_append]
  exact (List.suffix_append ..).isInfix

theorem intercalate {sep : String} : ∀ {l : List String}, s ∈ l → Contains (sep.intercalate l) s
  | [], h => by cases h
  | [t], h => by
      rw [List.mem_singleton.mp h, String.intercalate_singleton]
      exact .refl t
  | t :: t' :: l, h => by
      rw [String.intercalate_cons_cons]
      rcases List.mem_cons.mp h with rfl | h
      · exact ((append_left _ _).trans (append_left _ _))
      · exact (append_right _ _).trans (intercalate h)

theorem paragraph_left (out text : String) : Contains (paragraph out text) out := by
  unfold paragraph
  split
  next hempty =>
      rw [hempty]
      exact .empty text
  · exact (append_left _ _).trans (append_left _ _)

theorem paragraph_right (out text : String) : Contains (paragraph out text) text := by
  unfold paragraph
  split
  · exact .refl text
  · exact append_right _ _

end Contains

/-- The sections of a row keep what is there. -/
theorem contains_foldField (row : Value) (out : String) (field : String × String) :
    Contains (foldField row out field) out := by
  unfold foldField
  split
  · exact .paragraph_left _ _
  · exact .refl out

theorem contains_section {row : Value} {out text : String} {field : String × String}
    (htext : row.field field.2 = .str text) :
    Contains (foldField row out field) (trim text) := by
  by_cases hempty : trim text = ""
  · rw [hempty]
    exact .empty _
  · have hgiven : (row.field field.2).asStr.filter (trim · ≠ "") = some text := by
      rw [htext]
      exact Option.filter_eq_some_iff.mpr ⟨rfl, by simpa using hempty⟩
    unfold foldField
    rw [hgiven]
    exact (Contains.paragraph_right _ _).trans
      (Contains.append_right ("## " ++ field.1 ++ "\n\n") (trim text))

theorem contains_foldFields (row : Value) (fields : List (String × String)) (out : String) :
    Contains (fields.foldl (foldField row) out) out := by
  induction fields generalizing out with
  | nil => exact .refl out
  | cons field fields ih => exact (ih _).trans (contains_foldField row out field)

theorem contains_sections {row : Value} {text : String} {fields : List (String × String)}
    {field : String × String} (hfield : field ∈ fields) (htext : row.field field.2 = .str text)
    (out : String) : Contains (fields.foldl (foldField row) out) (trim text) := by
  induction fields generalizing out with
  | nil => cases hfield
  | cons first fields ih =>
      rcases List.mem_cons.mp hfield with rfl | hfield
      · exact (contains_foldFields row fields _).trans (contains_section htext)
      · exact ih hfield _

/-- The fields of an old row that have no column here and become sections of the description. -/
def folded : List (String × String) :=
  [("Design", "design"), ("Acceptance criteria", "acceptance_criteria"), ("Notes", "notes")]

/-- The description of a row up to its comments. -/
def sectionsOf (row : Value) : String :=
  folded.foldl (foldField row) (trimEnd ((row.field "description").asStr.getD ""))

/-- The comments of a row after the rest of its description. -/
def withComments (row : Value) (out : String) : String :=
  match (row.field "comments").asArray.filter (!·.isEmpty) with
  | some comments => paragraph out ("## Comments\n\n" ++ "\n".intercalate (comments.map fun c =>
      "- " ++ (c.field "author").asStr.getD "?" ++ ": " ++ (c.field "text").asStr.getD ""))
  | none => out

theorem composeDescription_eq (row : Value) :
    composeDescription row = withComments row (sectionsOf row) := rfl

theorem contains_sectionsOf (row : Value) : Contains (composeDescription row) (sectionsOf row) := by
  rw [composeDescription_eq, withComments]
  split
  · exact .paragraph_left _ _
  · exact .refl _

theorem contains_comment {row c : Value} {text : String}
    (hc : c ∈ (row.field "comments").asArray.getD []) (htext : c.field "text" = .str text) :
    Contains (composeDescription row) text := by
  cases hcomments : (row.field "comments").asArray with
  | none =>
      rw [hcomments] at hc
      cases hc
  | some comments =>
      rw [hcomments] at hc
      have hgiven : (row.field "comments").asArray.filter (!·.isEmpty) = some comments := by
        rw [hcomments]
        cases comments with
        | nil => cases hc
        | cons => rfl
      rw [composeDescription_eq, withComments, hgiven]
      refine (Contains.paragraph_right _ _).trans ((Contains.append_right _ _).trans ?_)
      refine (Contains.intercalate (List.mem_map_of_mem hc)).trans ?_
      rw [htext]
      exact .append_right _ _

/-- A description has the text of each field as composing leaves it. -/
theorem contains_field {row : Value} {key text : String}
    (hkey : key ∈ ["design", "acceptance_criteria", "notes"]) (htext : row.field key = .str text) :
    Contains (composeDescription row) (trim text) := by
  obtain ⟨field, hfield, rfl⟩ : ∃ field ∈ folded, field.2 = key := List.mem_map.mp hkey
  exact (contains_sectionsOf row).trans (contains_sections hfield htext _)

theorem contains_description {row : Value} {text : String}
    (htext : row.field "description" = .str text) :
    Contains (composeDescription row) (trimEnd text) := by
  refine (contains_sectionsOf row).trans ?_
  unfold sectionsOf
  rw [htext]
  exact contains_foldFields row folded (trimEnd text)

/-- What is left when both ends are trimmed is left when the end is. -/
theorem contains_trim (text : String) : Contains (trimEnd text) (trim text) := by
  rw [Contains, trim, trimEnd, String.toList_ofList, String.toList_ofList]
  nth_rewrite 2 [← List.takeWhile_append_dropWhile (p := isWhitespace) (l := text.toList)]
  rw [List.reverse_append, List.dropWhile_append]
  split
  next hempty =>
      rw [List.isEmpty_iff.mp hempty]
      exact List.nil_infix
  · rw [List.reverse_append, List.reverse_reverse]
    exact (List.suffix_append ..).isInfix

theorem contains_trimEnd (text : String) : Contains text (trimEnd text) := by
  rw [Contains, trimEnd, String.toList_ofList]
  exact (List.rdropWhile_prefix isWhitespace _).isInfix

/-- A description has all the texts of a row, up to whitespace at their ends. -/
theorem contains_prose {row v : Value} {text : String} (hv : v ∈ prose row)
    (htext : v = .str text) : Contains (composeDescription row) (trim text) := by
  subst htext
  rcases List.mem_append.mp hv with hv | hv
  · obtain ⟨key, hkey, htext⟩ := List.mem_map.mp hv
    rcases List.mem_cons.mp hkey with rfl | hkey
    · exact (contains_description htext).trans (contains_trim text)
    · exact contains_field hkey htext
  · obtain ⟨c, hc, htext⟩ := List.mem_map.mp hv
    exact ((contains_comment hc htext).trans (contains_trimEnd text)).trans (contains_trim text)

/-- Where nothing is trimmed the texts are there as they are. -/
theorem Tight.contains {row v : Value} {text : String} (h : Tight row) (hv : v ∈ prose row)
    (htext : v = .str text) : Contains (composeDescription row) text := by
  subst htext
  rcases List.mem_append.mp hv with hv | hv
  · obtain ⟨key, hkey, htext⟩ := List.mem_map.mp hv
    rcases List.mem_cons.mp hkey with rfl | hkey
    · exact h.description text htext ▸ contains_description htext
    · exact h.sections key hkey text htext ▸ contains_field hkey htext
  · obtain ⟨c, hc, htext⟩ := List.mem_map.mp hv
    exact contains_comment hc htext

/-! ### When an issue was created -/

/-- The time at which a row is created is the one it gives. -/
def Dates (parse : String → Except String Int) (row : Value) (n : Int) : Prop :=
  row.field "created_at" ≠ .null → instant parse (row.field "created_at") = some n

theorem dates_of_parseTs {env : Env} {read : ClockRead} {row : Value} {n : Int}
    (h : parseTs env read (row.get "created_at") = .ok n) : Dates env.parseRfc3339 row n := by
  unfold Dates
  rw [Value.field_eq]
  cases hget : row.get "created_at" with
  | none => exact fun hgiven => absurd rfl hgiven
  | some v =>
      rw [hget] at h
      cases v with
      | null => exact fun hgiven => absurd rfl hgiven
      | str text =>
          intro _
          cases hparse : env.parseRfc3339 text with
          | ok m =>
              simp only [parseTs, hparse, Except.ok.injEq] at h
              simp [instant, hparse, Except.toOption, h]
          | error e => simp [parseTs, hparse] at h
      | num m =>
          intro _
          cases hnumber : (Value.num m).asI64 with
          | some k =>
              simp only [parseTs, hnumber, Except.ok.injEq] at h
              exact hnumber.trans (congrArg some h)
          | none => simp [parseTs, hnumber] at h
      | _ => cases h

namespace Export

variable {x : Export} {t u : Tables} {cfg : Config} {env : Env} {parse : String → Except String Int}

/-- An issue that is new was created at the time that a row gives. -/
def Dated (x : Export) (parse : String → Except String Int) (t u : Tables) : Prop :=
  ∀ id stored, u.issue.find id = some stored → t.issue.find id = none →
    ∃ row ∈ x.rows, x.key row = id ∧ Dates parse row stored.createdAt

/-- Only rows are created, and at the times they give. -/
def CreatesRows (x : Export) (parse : String → Except String Int) (c : Scope) : Prop :=
  ∀ spec project available draws now, c = .create spec project available draws now →
    ∃ row ∈ x.rows, spec.id = some (x.key row) ∧ Dates parse row now

/-- No scope but that of a creation writes the time of creation. -/
theorem Dated.scope {l : Locked Tables} {c : Scope} (hd : x.Dated parse t l.state)
    (hc : x.CreatesRows parse c) : x.Dated parse t (c.exec cfg l).2.state := by
  intro id row' hrow' hnew
  have hstep := (exec_effect cfg c l).row hrow'
  cases hstep with
  | kept hrow | update hrow | setLabels hrow | addDep hrow | addRemoteDep hrow | claim _ hrow
  | touch hrow | release hrow | sweep hrow | closeUnchecked hrow =>
      obtain ⟨row, hmem, hkey, hdates⟩ := hd id _ hrow hnew
      exact ⟨row, hmem, hkey, hdates⟩
  | create _ hid =>
      obtain ⟨row, hmem, hspec, hdates⟩ := hc _ _ _ _ _ rfl
      exact ⟨row, hmem, hid _ hspec, hdates⟩

theorem createsRows_get (id : String) : x.CreatesRows parse (.get id) := by
  intro _ _ _ _ _ h
  cases h

theorem createsRows_of_enters {project : String} {c : Scope} (hc : ExportEnters project [] c) :
    x.CreatesRows parse c := by
  rintro spec project available draws now rfl
  rcases hc with ⟨_, hrow, _⟩ | ⟨_, _, _, h⟩ | ⟨_, _, _, _, h⟩ | ⟨_, h⟩ | ⟨_, _, _, _, h⟩ | ⟨_, h⟩
  · cases hrow
  all_goals cases h

theorem guarded_createRow {good : (c : Scope) → Result c.Ret → Prop} {ids : IdMap}
    (hids : Renamed x.rename ids) (report : ImportReport) (entry : Value × Nat)
    (hrow : entry.1 ∈ x.rows) :
    Guarded good (x.CreatesRows env.parseRfc3339) (fun _ => True)
      (createRow cfg env x.project ids report entry) := by
  refine (guarded_storedId hids entry.1).bind fun id hid =>
    (Guarded.of_within (Within.attempt (.call (createsRows_get _)))).bind fun r _ => ?_
  subst hid
  cases r with
  | ok existing => exact .pure trivial
  | error e =>
      have hcheck : Guarded good (x.CreatesRows env.parseRfc3339)
          (fun n => Dates env.parseRfc3339 entry.1 n)
          (check (parseTs env (.createdAt entry.2) (entry.1.get "created_at"))) := by
        cases hts : parseTs env (.createdAt entry.2) (entry.1.get "created_at") with
        | ok createdAt => exact .pure (dates_of_parseTs hts)
        | error e => exact .throw _
      refine hcheck.bind fun createdAt hdates => Guarded.bind (Guarded.of_within
        (Within.orElseFail _ (within_create cfg fun project available => ?_)))
          fun _ _ => .pure trivial
      rintro _ _ _ _ _ ⟨⟩
      exact ⟨entry.1, hrow, rfl, hdates⟩

theorem dated_refl : x.Dated parse t t := fun _ _ hstored hnew => by
  rw [hnew] at hstored
  cases hstored

/-- An import creates its rows at the times they give. -/
theorem import_dated {project : String} {rename : Option (String × String)} {rows : List Value}
    {dryRun : Bool} {s : Locked Tables} :
    (exportOf project rename rows).Dated env.parseRfc3339 s.state
      (Prog.runE (Scope.exec cfg) («import» cfg env project rename rows dryRun) s).2.state := by
  have hguarded : Guarded (fun _ _ => True)
      ((exportOf project rename rows).CreatesRows env.parseRfc3339) (fun _ => True)
      («import» cfg env project rename rows dryRun) :=
    guarded_importJsonl createsRows_get (fun _ => createsRows_of_enters)
      fun _ _ hids report entry hentry =>
        guarded_createRow (x := exportOf project rename rows) hids report entry hentry
  exact (Prog.Relies.run (P := fun l : Locked Tables =>
    (exportOf project rename rows).Dated env.parseRfc3339 s.state l.state) (fun _ _ _ => trivial)
    (fun _ _ hc hl => hl.scope hc) hguarded.prog dated_refl).1

end Export

/-! ### What an issue is created with -/

/-- The issue has what the importer reads in the row. This is what the importer does to every row;
whether it is the row's own value is another question. -/
structure Reads (row : Value) (stored : IssueRow) : Prop where
  title : stored.title = (row.field "title").asStr.getD "(untitled)"
  description : stored.description = composeDescription row
  issueType : stored.issueType = (row.field "issue_type").asStr.getD "task"
  priority : stored.priority = if (row.field "priority").asI64.getD 2 = 0 then 2
    else (row.field "priority").asI64.getD 2
  labels : stored.labels = ((row.field "labels").asArray.getD []).filterMap Value.asStr
  metadata : stored.metadata = .obj (storedMetadata row)
  externalRef : stored.externalRef = (row.field "external_ref").asStr

theorem num_of_asI64 {v : Value} {n : Int} (h : v.asI64 = some n) :
    v = .num n ∧ (Value.num n).asI64 = some n := by
  obtain ⟨hint, hrange⟩ := Option.filter_eq_some_iff.mp h
  refine ⟨?_, Option.filter_eq_some_iff.mpr ⟨rfl, hrange⟩⟩
  cases v with
  | num m => exact congrArg Value.num (Option.some.inj hint)
  | _ => cases hint

theorem str_of_asStr {v : Value} {text : String} (h : v.asStr = some text) : v = .str text := by
  cases v with
  | str s => exact congrArg Value.str (Option.some.inj h)
  | _ => cases h

/-- A key that the reference is not stored under has what the row has, or the mark. -/
theorem get_storedMetadata {row : Value} {key : String}
    (h : ∀ reference, key = "external_ref" → row.field "external_ref" ≠ .str reference) :
    Object.get key (storedMetadata row) =
      if key = "marbles_import" then some (.bool true) else (row.field "metadata").get key := by
  have hmark : Object.get key (importMetadata row) =
      if key = "marbles_import" then some (.bool true) else (row.field "metadata").get key := by
    rw [importMetadata, Object.get_insert]
    cases row.field "metadata" with
    | obj fields => rfl
    | _ => rfl
  rw [← hmark]
  cases hreference : row.field "external_ref" with
  | str reference =>
      rw [storedMetadata, hreference, Value.asStr_str]
      refine (Object.get_insert ..).trans (if_neg fun hkey => h reference hkey hreference)
  | _ => rw [storedMetadata, hreference]; rfl

theorem get_storedMetadata_reference {row : Value} {reference : String}
    (h : row.field "external_ref" = .str reference) :
    Object.get "external_ref" (storedMetadata row) = some (.str reference) := by
  rw [storedMetadata, h, Value.asStr_str]
  exact (Object.get_insert ..).trans (if_pos rfl)

namespace Reads

variable {row row' : Value} {stored : IssueRow} {parse : String → Except String Int}
  {clean : String → String}

theorem of_content {x : Export} (h : x.content row = stored.content) : Reads row stored where
  title := (congrArg Content.title h).symm
  description := (congrArg Content.description h).symm
  issueType := (congrArg Content.issueType h).symm
  priority := (congrArg Content.priority h).symm
  labels := (congrArg Content.labels h).symm
  metadata := (congrArg Content.metadata h).symm
  externalRef := (congrArg Content.externalRef h).symm

theorem agree (h : Reads row stored) (hagree : Agree row row') : Reads row' stored := by
  have hdescription : composeDescription row = composeDescription row' := by
    have hfold : ∀ out, ∀ field ∈ folded, foldField row out field = foldField row' out field := by
      intro out field hfield
      unfold foldField
      rw [hagree field.2 (by
        simp only [folded, List.mem_cons, List.not_mem_nil, or_false] at hfield
        rcases hfield with rfl | rfl | rfl <;> simp)]
    have hsections : sectionsOf row = sectionsOf row' := by
      unfold sectionsOf
      rw [hagree "description" (by simp)]
      exact List.foldl_ext _ _ _ hfold
    rw [composeDescription_eq, composeDescription_eq, hsections, withComments, withComments,
      hagree "comments" (by simp)]
  have hmetadata : storedMetadata row = storedMetadata row' := by
    unfold storedMetadata importMetadata
    rw [hagree "external_ref" (by simp), hagree "metadata" (by simp)]
  exact {
    title := hagree "title" (by simp) ▸ h.title
    description := hdescription ▸ h.description
    issueType := hagree "issue_type" (by simp) ▸ h.issueType
    priority := hagree "priority" (by simp) ▸ h.priority
    labels := hagree "labels" (by simp) ▸ h.labels
    metadata := hmetadata ▸ h.metadata
    externalRef := hagree "external_ref" (by simp) ▸ h.externalRef }

/-- No issue is created with the priority zero. -/
theorem priority_ne_zero (h : Reads row stored) : stored.priority ≠ 0 ∧
    (Value.num stored.priority).asI64 = some stored.priority := by
  rw [h.priority]
  cases hread : (row.field "priority").asI64 with
  | none => exact ⟨by decide, by decide⟩
  | some n =>
      rw [Option.getD_some]
      split
      · exact ⟨by decide, by decide⟩
      next hzero =>
          exact ⟨hzero, (num_of_asI64 hread).2⟩

/-- Of a row whose values are not reinterpreted all has arrived. -/
theorem verbatim (h : Reads row stored) (hdates : Dates parse row stored.createdAt)
    (hlegal : Legal row) (hprose : ∀ v ∈ prose row, ∀ text, v = .str text →
      Contains (composeDescription row) (clean text)) : Verbatim parse clean row stored where
  -- Field by field, each read off the row under the condition that its value is of its type.
  title hgiven := by
    obtain ⟨text, htext⟩ := hlegal.texts "title" (by simp) hgiven
    rw [h.title, htext]
    rfl
  issueType hgiven := by
    obtain ⟨text, htext⟩ := hlegal.texts "issue_type" (by simp) hgiven
    rw [h.issueType, htext]
    rfl
  priority hgiven := by
    obtain ⟨n, hn, hzero⟩ := hlegal.priority hgiven
    rw [h.priority, hn, Option.getD_some, if_neg hzero]
    exact (num_of_asI64 hn).1
  labels := h.labels
  externalRef hgiven := by
    obtain ⟨text, htext⟩ := hlegal.texts "external_ref" (by simp) hgiven
    refine ⟨text, htext, ?_⟩
    rw [h.externalRef, htext]
    rfl
  createdAt := hdates
  metadata key v hv := by
    rw [h.metadata]
    change Object.get key (storedMetadata row) = some v
    by_cases hkey : ∃ reference, key = "external_ref" ∧ row.field "external_ref" = .str reference
    · obtain ⟨reference, rfl, htext⟩ := hkey
      rw [get_storedMetadata_reference htext, hlegal.reference reference v htext hv]
    · rw [get_storedMetadata fun reference heq htext => hkey ⟨reference, heq, htext⟩]
      split
      next hmark => rw [hlegal.mark v (hmark ▸ hv)]
      · exact hv
  mark := h.metadata ▸ marked_storedMetadata row
  reference reference hreference := h.metadata ▸ get_storedMetadata_reference hreference
  given key v hv := by
    rw [h.metadata] at hv
    change Object.get key (storedMetadata row) = some v at hv
    by_cases hkey : key = "external_ref" ∧ row.field "external_ref" ≠ .null
    · exact .inr (.inr hkey)
    · rw [get_storedMetadata fun reference heq htext =>
        hkey ⟨heq, fun hnull => by rw [hnull] at htext; cases htext⟩] at hv
      split at hv
      next hmark => exact .inr (.inl hmark)
      · exact .inl hv
  description v hv hgiven := by
    obtain ⟨text, htext⟩ := hlegal.prose v hv hgiven
    refine ⟨text, htext, ?_⟩
    rw [h.description]
    exact hprose v hv text htext

/-- What has arrived was not reinterpreted. -/
theorem legal {first : Value} (h : Reads first stored) (hv : Verbatim parse clean row stored) :
    Legal row where
  texts key hkey hgiven := by
    simp only [List.mem_cons, List.not_mem_nil, or_false] at hkey
    rcases hkey with rfl | rfl | rfl
    · exact ⟨_, hv.title hgiven⟩
    · exact ⟨_, hv.issueType hgiven⟩
    · obtain ⟨reference, hreference, -⟩ := hv.externalRef hgiven
      exact ⟨reference, hreference⟩
  prose v hmem hgiven := by
    obtain ⟨text, htext, -⟩ := hv.description v hmem hgiven
    exact ⟨text, htext⟩
  priority hgiven := by
    refine ⟨stored.priority, ?_, h.priority_ne_zero.1⟩
    rw [hv.priority hgiven]
    exact h.priority_ne_zero.2
  mark v hmem := Option.some.inj ((hv.metadata _ v hmem).symm.trans hv.mark)
  reference reference v hreference hmem :=
    Option.some.inj ((hv.metadata _ v hmem).symm.trans (hv.reference reference hreference))

end Reads

/-! ### A whole import -/

section Importing

variable {cfg : Config} {env : Env} {project : String} {rows : List Value} {s s' : Locked Tables}
  {report : ImportReport}

/-- In a fresh project the issue of each row has been created from the rows with its id. -/
theorem import_creates (hs : Reachable cfg s)
    (hfresh : ∀ id stored, s.state.issue.find id = some stored → stored.project ≠ project)
    (h : Prog.runE (Scope.exec cfg) («import» cfg env project none rows false) s = (.ok report, s'))
    {row : Value} (hrow : row ∈ rows.filter (!isSkip ·)) :
    ∃ id stored, row.field "id" = .str id ∧ s'.state.issue.find id = some stored ∧
      (∃ first ∈ rows.filter (!isSkip ·), originalId first = originalId row ∧ Reads first stored) ∧
        ∃ dated ∈ rows.filter (!isSkip ·), originalId dated = originalId row ∧
          Dates env.parseRfc3339 dated stored.createdAt := by
  obtain ⟨himported, hunder⟩ := Export.imported_of_returned hs.wellFormed h
  have hdated : (exportOf project none rows).Dated env.parseRfc3339 s.state
      (Prog.runE (Scope.exec cfg) («import» cfg env project none rows false) s).2.state :=
    Export.import_dated
  rw [h] at hdated
  obtain ⟨stored, hstored⟩ := Table.mem_keys.mp ((himported.keys _).mpr
    (.inr (Export.key_mem_keys (x := exportOf project none rows) hrow)))
  have hnew : s.state.issue.find ((exportOf project none rows).key row) = none :=
    Option.eq_none_iff_forall_not_mem.mpr fun old hold =>
      hfresh _ old hold (himported.importable.mine row hrow old hold).1
  obtain ⟨id, hid⟩ := Option.isSome_iff_exists.mp (himported.importable.readable row hrow).id
  have horiginal : (exportOf project none rows).key row = id := by
    change originalId row = id
    rw [originalId, hid]
    rfl
  have hcontent := hunder.advances.content_of_find hstored
  rw [Export.contentAt, hnew, Option.map_none, Option.none_or, Option.map_eq_some_iff] at hcontent
  obtain ⟨first, hfirst, hcontent⟩ := hcontent
  obtain ⟨hmem, hkey⟩ := Export.mem_rowsOf.mp (List.mem_of_mem_head? hfirst)
  exact ⟨id, stored, str_of_asStr hid, horiginal ▸ hstored,
    ⟨first, hmem, hkey, .of_content hcontent⟩, hdated _ stored hstored hnew⟩

/-- Rows that agree arrive when no value is reinterpreted, and their texts as far as they were kept
by composing. -/
theorem import_arrives {clean : String → String} (hs : Reachable cfg s)
    (hfresh : ∀ id stored, s.state.issue.find id = some stored → stored.project ≠ project)
    (h : Prog.runE (Scope.exec cfg) («import» cfg env project none rows false) s = (.ok report, s'))
    (hagree : Agreeing (rows.filter (!isSkip ·)))
    (hlegal : ∀ row ∈ rows.filter (!isSkip ·), Legal row)
    (hprose : ∀ row ∈ rows.filter (!isSkip ·), ∀ v ∈ prose row, ∀ text, v = .str text →
      Contains (composeDescription row) (clean text)) :
    Arrived env.parseRfc3339 clean (rows.filter (!isSkip ·)) s'.state := by
  intro row hrow
  obtain ⟨id, stored, hid, hstored, ⟨first, hfirst, hsame, hreads⟩, dated, hdated, hsame',
    hdates⟩ := import_creates hs hfresh h hrow
  have hcreated := hagree dated hdated row hrow hsame'
  refine ⟨id, stored, hid, hstored, (hreads.agree (hagree first hfirst row hrow hsame)).verbatim ?_
    (hlegal row hrow) (hprose row hrow)⟩
  unfold Dates at hdates
  rw [hcreated "created_at" (by simp)] at hdates
  exact hdates

/-- What has arrived was not reinterpreted. -/
theorem import_legal {clean : String → String} (hs : Reachable cfg s)
    (hfresh : ∀ id stored, s.state.issue.find id = some stored → stored.project ≠ project)
    (h : Prog.runE (Scope.exec cfg) («import» cfg env project none rows false) s = (.ok report, s'))
    (harrived : Arrived env.parseRfc3339 clean (rows.filter (!isSkip ·)) s'.state) :
    ∀ row ∈ rows.filter (!isSkip ·), Legal row := by
  intro row hrow
  obtain ⟨id, stored, hid, hstored, ⟨first, -, -, hreads⟩, -⟩ := import_creates hs hfresh h hrow
  obtain ⟨id', stored', hid', hstored', hverbatim⟩ := harrived row hrow
  obtain rfl : id = id' := Value.str.inj (hid.symm.trans hid')
  obtain rfl : stored = stored' := Option.some.inj (hstored.symm.trans hstored')
  exact hreads.legal hverbatim

/-- All of an export arrives in a fresh project if no value is reinterpreted, no text is trimmed
and rows with one id agree. What is reinterpreted never arrives, and up to the whitespace at the
ends of texts nothing else is lost. -/
theorem import_verbatim (hs : Reachable cfg s)
    (hfresh : ∀ id stored, s.state.issue.find id = some stored → stored.project ≠ project)
    (h : Prog.runE (Scope.exec cfg) («import» cfg env project none rows false) s =
      (.ok report, s')) :
    (Carried (rows.filter (!isSkip ·)) →
      Arrived env.parseRfc3339 id (rows.filter (!isSkip ·)) s'.state) ∧
    (Arrived env.parseRfc3339 id (rows.filter (!isSkip ·)) s'.state →
      ∀ row ∈ rows.filter (!isSkip ·), Legal row) ∧
    (Agreeing (rows.filter (!isSkip ·)) →
      (Arrived env.parseRfc3339 trim (rows.filter (!isSkip ·)) s'.state ↔
        ∀ row ∈ rows.filter (!isSkip ·), Legal row)) := by
  refine ⟨fun hcarried => ?_, import_legal hs hfresh h, fun hagree => ⟨import_legal hs hfresh h,
    fun hlegal => ?_⟩⟩
  · exact import_arrives hs hfresh h hcarried.agree hcarried.legal
      fun row hrow v hv text htext => (hcarried.tight row hrow).contains hv htext
  · exact import_arrives hs hfresh h hagree hlegal
      fun row hrow v hv text htext => contains_prose hv htext

end Importing

/-! ### An urgent row -/

/-- The most urgent priority, zero. -/
def urgentRow : Value := .obj [("id", .str "demo-a"), ("priority", .num 0), ("title", .str "now")]

def describedRow : Value := .obj [("description", .str "why"), ("design", .str "how"),
  ("id", .str "demo-a"), ("priority", .num 1), ("title", .str "soon")]

theorem demo_fresh (id : String) (stored : IssueRow) (h : demo.state.issue.find id = some stored) :
    stored.project ≠ "demo" := by
  have hempty : demo.state.issue.keys = [] := by decide
  have hmem := Table.mem_keys_of_find h
  rw [hempty] at hmem
  cases hmem

theorem legal_describedRow : Legal describedRow where
  texts key hkey hgiven := by
    simp only [List.mem_cons, List.not_mem_nil, or_false] at hkey
    rcases hkey with rfl | rfl | rfl
    · exact ⟨"soon", rfl⟩
    · exact absurd rfl hgiven
    · exact absurd rfl hgiven
  prose v hv hgiven := by
    change v ∈ [Value.str "why", .str "how", .null, .null] at hv
    simp only [List.mem_cons, List.not_mem_nil, or_false] at hv
    rcases hv with rfl | rfl | rfl | rfl
    · exact ⟨"why", rfl⟩
    · exact ⟨"how", rfl⟩
    · exact absurd rfl hgiven
    · exact absurd rfl hgiven
  priority _ := ⟨1, by decide, by decide⟩
  mark _ := nofun
  reference _ _ := nofun

theorem tight_describedRow : Tight describedRow where
  description text htext := by
    obtain rfl : "why" = text := Value.str.inj htext
    decide
  sections key hkey text htext := by
    simp only [List.mem_cons, List.not_mem_nil, or_false] at hkey
    rcases hkey with rfl | rfl | rfl
    · obtain rfl : "how" = text := Value.str.inj htext
      decide
    · cases htext
    · cases htext

theorem described_row_arrives :
    Arrived still.parseRfc3339 id ([describedRow].filter (!isSkip ·))
      (Prog.runE (Scope.exec {}) («import» {} still "demo" none [describedRow] false)
        demo).2.state := by
  have hsame : ∀ row ∈ [describedRow].filter (!isSkip ·), row = describedRow :=
    fun row hrow => List.mem_singleton.mp hrow
  have hagree : Agreeing ([describedRow].filter (!isSkip ·)) := by
    intro row hrow row' hrow' _ key _
    rw [hsame row hrow, hsame row' hrow']
  exact (@import_verbatim {} still "demo" [describedRow] demo _ { imported := 1 } reachable_demo
    demo_fresh (Prod.ext (by decide) rfl)).1 {
      agree := hagree
      legal := fun row hrow => hsame row hrow ▸ legal_describedRow
      tight := fun row hrow => hsame row hrow ▸ tight_describedRow }

/-- A row of the most urgent priority is stored with the default priority. -/
theorem urgent_row_demoted :
    Reachable {} demo ∧
      (∀ id stored, demo.state.issue.find id = some stored → stored.project ≠ "demo") ∧
      (Prog.runE (Scope.exec {}) («import» {} still "demo" none [urgentRow] false) demo).1 =
        .ok { imported := 1 } ∧
      ((Prog.runE (Scope.exec {}) («import» {} still "demo" none [urgentRow] false)
        demo).2.state.issue.find "demo-a").map IssueRow.priority = some 2 ∧
      ¬ Arrived still.parseRfc3339 id ([urgentRow].filter (!isSkip ·))
        (Prog.runE (Scope.exec {}) («import» {} still "demo" none [urgentRow] false)
          demo).2.state := by
  have hpriority : ((Prog.runE (Scope.exec {}) («import» {} still "demo" none [urgentRow] false)
      demo).2.state.issue.find "demo-a").map IssueRow.priority = some 2 := by decide
  refine ⟨reachable_demo, demo_fresh, by decide, hpriority, fun h => ?_⟩
  obtain ⟨id, stored, hid, hstored, hverbatim⟩ := h urgentRow (List.mem_singleton_self _)
  obtain rfl : "demo-a" = id := Value.str.inj hid
  have hzero : (0 : Int) = stored.priority := Value.num.inj (hverbatim.priority nofun)
  rw [hstored, Option.map_some, ← hzero] at hpriority
  exact absurd hpriority (by decide)

end Marbles.Jsonl
