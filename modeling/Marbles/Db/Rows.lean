import Marbles.Db.Effect

/-!
# What becomes of a row

Every lock scope writes a row of the issue table in one of a few ways. `Effect.row` lists them
once, so that what holds of every row is shown way by way, without the tables around it.

The ways are a refinement of `Effect`: a row is new, or it was there and one group of its columns
has changed. Invariants about single rows are proved from here. What relates two rows, such as
parents and edges, still needs the tables.
-/

namespace Marbles.Db

/-- How the row of an issue came about in a scope, from the tables before it. The cases are the
groups of columns that are written together. -/
inductive RowStep (cfg : Config) (t : Tables) (id : String) : Scope → IssueRow → Prop where
  /-- The scope does not write the row. -/
  | kept {s : Scope} {row : IssueRow} (hrow : t.issue.find id = some row) : RowStep cfg t id s row
  | create {spec : NewIssue} {project : String} {available : Int} {draws : List String} {now : Int}
      {metadata : Json.Object} (hrow : t.issue.find id = none)
      (hid : ∀ i, spec.id = some i → i = id)
      (hparent : ∀ p, spec.parent = some p →
        ∃ row, t.issue.find p = some row ∧ row.project = project) :
      RowStep cfg t id (.create spec project available draws now)
        (newRow spec project available metadata now)
  | update {patch : IssuePatch} {actor : String} {now : Int} {row : IssueRow} {next : Issue}
      {status : Status} (hrow : t.issue.find id = some row)
      (hnext : patch.apply cfg.policy now (t.view id row) = .ok next)
      (hstatus : Status.parse next.status = some status) :
      RowStep cfg t id (.update id patch actor now) (row.write next status)
  | setLabels {labels : List String} {actor : String} {now : Int} {row : IssueRow}
      (hrow : t.issue.find id = some row) :
      RowStep cfg t id (.setLabels id labels actor now)
        { row with labels := labels, updatedAt := now }
  | addDep {parent actor : String} {now : Int} {row : IssueRow}
      (hrow : t.issue.find id = some row) :
      RowStep cfg t id (.addDep id parent actor now) { row with updatedAt := now }
  | addRemoteDep {dependency : RemoteDependency} {actor : String} {now : Int} {row : IssueRow}
      (hrow : t.issue.find id = some row) :
      RowStep cfg t id (.addRemoteDep id dependency actor now) { row with updatedAt := now }
  | claim {req : ClaimRequest} {ttl now : Int} {row : IssueRow} (hid : req.id = id)
      (hrow : t.issue.find id = some row)
      (hfree : heldAt row.assignee row.expiresAt now = true → row.assignee = some req.assignee) :
      RowStep cfg t id (.claim req ttl now)
        (row.claim req.assignee req.actorKind.asStr now (wrapI64 (now + ttl)))
  | touch {assignee : String} {now ttl : Int} {row : IssueRow} (hrow : t.issue.find id = some row)
      (hholder : row.assignee = some assignee) :
      RowStep cfg t id (.touch id assignee now)
        { row with expiresAt := some (wrapI64 (now + ttl)), updatedAt := now }
  | release {actor : String} {now : Int} {row : IssueRow} (hrow : t.issue.find id = some row) :
      RowStep cfg t id (.release id actor now) { row.unclaim with updatedAt := now }
  | sweep {now : Int} {order : List String} {row : IssueRow} (hrow : t.issue.find id = some row)
      (hlapsed : sweeps now row = true) : RowStep cfg t id (.sweep now order) row.unclaim
  | closeUnchecked {reason : Option String} {evidence : List Evidence} {actor : String}
      {now : Int} {row : IssueRow} (hrow : t.issue.find id = some row) :
      RowStep cfg t id (.closeUnchecked id reason evidence actor now)
        (row.close reason evidence now)

/-- An update stores the status it asks for, or keeps the one that was there. -/
theorem updated_status {patch : IssuePatch} {policy : Policy} {now : Int} {t : Tables} {id : String}
    {row : IssueRow} {next : Issue} {status : Status}
    (hnext : patch.apply policy now (t.view id row) = .ok next)
    (hstatus : Status.parse next.status = some status) :
    patch.status = none ∧ status = row.status ∨ patch.status = some status.asStr := by
  have hasked := patch_apply_status hnext
  rw [← Status.asStr_of_parse hstatus] at hasked
  cases hpatch : patch.status with
  | none =>
      rw [hpatch] at hasked
      exact Or.inl ⟨rfl, Status.asStr_inj.mp hasked⟩
  | some st =>
      rw [hpatch] at hasked
      exact Or.inr (congrArg some hasked.symm)

/-- The row of another issue is kept, and this one is rewritten. -/
theorem rowStep_modify {cfg : Config} {t t' : Tables} {s : Scope} {k id : String}
    {f : IssueRow → IssueRow} {row' : IssueRow} (hissue : t'.issue = t.issue.modify k f)
    (hrow' : t'.issue.find id = some row')
    (hf : ∀ row, id = k → t.issue.find id = some row → RowStep cfg t id s (f row)) :
    RowStep cfg t id s row' := by
  rw [hissue, Table.find_modify] at hrow'
  split at hrow'
  · rename_i hid
    obtain ⟨row, hrow, rfl⟩ := Option.map_eq_some_iff.mp hrow'
    exact hf row hid hrow
  · exact .kept hrow'

/-- Every row that is there after a scope came about in one of these ways. -/
theorem Effect.row {cfg : Config} {t t' : Tables} {s : Scope} {id : String} {row' : IssueRow}
    (he : Effect cfg t s t') (hrow' : t'.issue.find id = some row') : RowStep cfg t id s row' := by
  -- By what the scope did to the table: it left the row, made it, or modified the one under this
  -- id.
  cases he with
  | idle hissue | ensureProject hissue | removeDep hissue => exact .kept (hissue ▸ hrow')
  | dropProject hissue =>
      rw [hissue, Table.find_filter, Option.filter_eq_some_iff] at hrow'
      exact .kept hrow'.1
  | @create _ _ _ _ _ new _ _ _ hparent hfresh hid hissue =>
      rw [hissue] at hrow'
      by_cases hnew : id = new
      · subst hnew
        rw [Table.find_insert_new hfresh] at hrow'
        obtain rfl := Option.some.inj hrow'
        exact .create hfresh hid hparent
      · rw [Table.find_insert_ne hnew] at hrow'
        exact .kept hrow'
  | update hfound hnext hstatus hissue =>
      refine rowStep_modify hissue hrow' fun row hid hrow => ?_
      subst hid
      obtain rfl := Option.some.inj (hrow.symm.trans hfound)
      exact .update hrow hnext hstatus
  | setLabels hissue => exact rowStep_modify hissue hrow' fun row hid hrow => hid ▸ .setLabels hrow
  | addDep _ _ _ hissue => exact rowStep_modify hissue hrow' fun row hid hrow => hid ▸ .addDep hrow
  | addRemoteDep hissue =>
      exact rowStep_modify hissue hrow' fun row hid hrow => hid ▸ .addRemoteDep hrow
  | claim hfound hfree hissue =>
      refine rowStep_modify hissue hrow' fun row hid hrow => ?_
      subst hid
      obtain rfl := Option.some.inj (hrow.symm.trans hfound)
      exact .claim rfl hrow hfree
  | touch hfound hholder hissue =>
      refine rowStep_modify hissue hrow' fun row hid hrow => ?_
      subst hid
      obtain rfl := Option.some.inj (hrow.symm.trans hfound)
      exact .touch hrow hholder
  | release hissue => exact rowStep_modify hissue hrow' fun row hid hrow => hid ▸ .release hrow
  | sweep hissue =>
      rw [hissue, Table.find_mapRows] at hrow'
      obtain ⟨row, hrow, rfl⟩ := Option.map_eq_some_iff.mp hrow'
      split
      · rename_i hlapsed
        exact .sweep hrow hlapsed
      · exact .kept hrow
  | closeUnchecked _ hissue =>
      exact rowStep_modify hissue hrow' fun row hid hrow => hid ▸ .closeUnchecked hrow

/-- An issue that is modified is there as before. -/
theorem stays_modify {t t' : Tables} {k id : String} {f : IssueRow → IssueRow} {row : IssueRow}
    (hissue : t'.issue = t.issue.modify k f) (hrow : t.issue.find id = some row) :
    ∃ row', t'.issue.find id = some row' := by
  rw [hissue, Table.find_modify, hrow]
  split
  · exact ⟨_, rfl⟩
  · exact ⟨_, rfl⟩

/-- An issue is there until its project is dropped. -/
theorem Effect.stays {cfg : Config} {t t' : Tables} {s : Scope} {id : String} {row : IssueRow}
    (he : Effect cfg t s t') (hrow : t.issue.find id = some row)
    (hdrop : s ≠ .dropProject row.project) : ∃ row', t'.issue.find id = some row' := by
  cases he with
  | idle hissue | ensureProject hissue | removeDep hissue => exact ⟨row, hissue ▸ hrow⟩
  | @dropProject slug _ hissue =>
      refine ⟨row, ?_⟩
      have hkept : row.project ≠ slug := fun heq => hdrop (heq ▸ rfl)
      rw [hissue, Table.find_filter, Option.filter_eq_some_iff]
      exact ⟨hrow, by simpa using hkept⟩
  | @create _ _ _ _ _ new _ _ _ _ hfresh _ hissue =>
      have hne : id ≠ new := by
        rintro rfl
        rw [hfresh] at hrow
        cases hrow
      exact ⟨row, by rw [hissue, Table.find_insert_ne hne, hrow]⟩
  | update _ _ _ hissue | setLabels hissue | addDep _ _ _ hissue | addRemoteDep hissue
  | claim _ _ hissue | touch _ _ hissue | release hissue | closeUnchecked _ hissue =>
      exact stays_modify hissue hrow
  | sweep hissue =>
      rw [hissue, Table.find_mapRows, hrow]
      exact ⟨_, rfl⟩

/-- A row that a scope can only keep is kept. -/
theorem Effect.unchanged {cfg : Config} {t t' : Tables} {s : Scope} {id : String} {row : IssueRow}
    (he : Effect cfg t s t') (hrow : t.issue.find id = some row)
    (hdrop : s ≠ .dropProject row.project) (hkept : ∀ row', RowStep cfg t id s row' → row' = row) :
    t'.issue.find id = some row := by
  obtain ⟨row', hrow'⟩ := he.stays hrow hdrop
  rw [hrow', hkept row' (he.row hrow')]

end Marbles.Db
