import Marbles.Import

/-!
# The list importer over any store

`import.rs` takes anything that implements the store contract. `Import.import` is what it does
over the lock scopes of the local store; here it is the program over the calls of the contract,
for stores that answer a call as a whole. On the local store they agree.

The two programs make the same calls in the same order, so the proof goes along the rows. What is
not the same is the type of their results, which is why they are compared up to a relation.
-/

namespace Marbles.Contract

open Import (ClockRead Report specOf)

/-- The contract, as its callers see it. -/
abbrev StoreI : Interface := ⟨Op, fun _ => Result Reply⟩

/-- An importer over the contract. -/
abbrev ImportM := ExceptT (Fault String) (Prog StoreI)

/-- Make a call and look at its error. -/
def attempt (op : Op) : ImportM (Except Error Reply) :=
  ExceptT.mk (.call op fun r => .ret (caught r))

/-- Make a call and give up on its error. -/
def orElseFail (op : Op) : ImportM Reply := do
  match ← attempt op with
  | .ok reply => pure reply
  | .error e => throw (.fail e.display)

/-- The store must have used the id of the row. -/
def checkId (row : Issue) : Reply → ImportM Unit
  | .id id =>
      if id ≠ row.id then throw (.fail s!"import promised id {row.id} but got {id}") else pure ()
  | _ => throw .abort

section

variable (project : String) (clock : ClockRead → Int)

/-- An edge to an issue that is not there is counted and skipped; any other error ends the import.
-/
def importDep (id : String) (createdAt : Int) (report : Report) (dep : Dependency) :
    ImportM Report :=
  match dep.dependsOnId with
  | none => pure report
  | some parent => do
      match ← attempt (.addDep id parent "marbles-import" createdAt) with
      | .ok _ => pure { report with deps := report.deps + 1 }
      | .error (.notFound _) => pure { report with missingDeps := report.missingDeps + 1 }
      | .error e => throw (.fail e.display)

/-- A row is created open, and moved to its status afterwards. -/
def importStatus (row : Issue) (now : Int) (report : Report) : ImportM Report :=
  if row.status = "open" then pure report
  else do
    let _ ← orElseFail (.update row.id { status := some row.status } "marbles-import" now)
    pure { report with statused := report.statused + 1 }

/-- The issue, its edges and its status, in this order: an edge to a later row finds no issue yet.
-/
def importRow (report : Report) (entry : Issue × Nat) : ImportM Report := do
  let (row, index) := entry
  let createdAt := if row.createdAt > 0 then row.createdAt else clock (.createdAt index)
  let reply ← orElseFail (.create (specOf project row) [] createdAt)
  checkId row reply
  let report ← row.dependencies.foldlM (importDep row.id createdAt) report
  let report ← importStatus row (clock (.statused index)) report
  pure { report with issues := report.issues + 1 }

/-- The rows one after another, each in calls of its own. Nothing is undone when one fails. -/
def «import» (rows : List Issue) : ImportM Report :=
  rows.zipIdx.foldlM (importRow project clock) {}

end

/-! ### On the local store -/

/-- A program over the contract, and one over the scopes of the local store, that do the same. The
importer is written against the trait, so it is compared with its reading over the local store. -/
def Agrees {α β : Type} (cfg : Db.Config) (same : α → β → Prop) (m : ImportM α)
    (m' : Marbles.ImportM String β) : Prop := ∀ s,
  (Prog.runE (I := StoreI) (Db.perform cfg) m s).2 =
      (Prog.runE (I := Db.DbI) (Db.Scope.exec cfg) m' s).2 ∧
    match (Prog.runE (I := StoreI) (Db.perform cfg) m s).1,
      (Prog.runE (I := Db.DbI) (Db.Scope.exec cfg) m' s).1 with
    | .ok a, .ok b => same a b
    | .error e, .error e' => e = e'
    | _, _ => False

namespace Agrees

variable {cfg : Db.Config} {α β α' β' : Type} {same : α → β → Prop} {same' : α' → β' → Prop}

theorem pure {a : α} {b : β} (h : same a b) :
    Agrees cfg same (pure a : ImportM α) (pure b : Marbles.ImportM String β) :=
  fun _ => ⟨rfl, h⟩

theorem throw (e : Fault String) :
    Agrees cfg same (throw e : ImportM α) (throw e : Marbles.ImportM String β) :=
  fun _ => ⟨rfl, rfl⟩

theorem bind {m : ImportM α} {m' : Marbles.ImportM String β} {f : α → ImportM α'}
    {f' : β → Marbles.ImportM String β'} (hm : Agrees cfg same m m')
    (hf : ∀ a b, same a b → Agrees cfg same' (f a) (f' b)) :
    Agrees cfg same' (m >>= f) (m' >>= f') := by
  intro s
  obtain ⟨hstate, hresult⟩ := hm s
  rw [Prog.runE_bind, Prog.runE_bind]
  cases hr : Prog.runE (I := StoreI) (Db.perform cfg) m s with
  | mk r t =>
  cases hr' : Prog.runE (I := Db.DbI) (Db.Scope.exec cfg) m' s with
  | mk r' t' =>
  rw [hr, hr'] at hstate hresult
  obtain rfl : t = t' := hstate
  cases r with
  | ok a =>
      cases r' with
      | ok b => exact hf a b hresult t
      | error e => exact hresult.elim
  | error e =>
      cases r' with
      | ok b => exact hresult.elim
      | error e' => exact ⟨rfl, hresult⟩

theorem foldlM {γ : Type} {f : α → γ → ImportM α} {f' : β → γ → Marbles.ImportM String β}
    (hf : ∀ a b c, same a b → Agrees cfg same (f a c) (f' b c)) (xs : List γ) {a : α} {b : β}
    (h : same a b) : Agrees cfg same (xs.foldlM f a) (xs.foldlM f' b) := by
  induction xs generalizing a b with
  | nil => exact pure h
  | cons x xs ih =>
      rw [List.foldlM_cons, List.foldlM_cons]
      exact (hf a b x h).bind fun a' b' h' => ih h'

/-- A call and the method that answers it. -/
theorem attempt {op : Op} {m : Db.DbM β} {g : β → Reply} (hop : Db.method cfg op = g <$> m) :
    Agrees cfg (fun r r' => r = r'.map g) (Contract.attempt op) (Marbles.attempt m) := by
  intro s
  have hcall : Prog.runE (I := StoreI) (Db.perform cfg) (Contract.attempt op) s =
      (caught (Db.runM cfg (g <$> m) s).1, (Db.runM cfg (g <$> m) s).2) := by
    rw [← hop]
    rfl
  have hmethod : Prog.runE (I := Db.DbI) (Db.Scope.exec cfg) (@Marbles.attempt String β m) s =
      (caught (Db.runM cfg m s).1, (Db.runM cfg m s).2) := Prog.run_bind ..
  rw [hcall, hmethod, map_eq_pure_bind, Db.runM, Prog.runE_bind, ← Db.runM]
  cases Db.runM cfg m s with
  | mk r t =>
      cases r with
      | ok b => exact ⟨rfl, rfl⟩
      | error e =>
          cases e with
          | fail e => exact ⟨rfl, rfl⟩
          | abort => exact ⟨rfl, rfl⟩

theorem orElseFail {op : Op} {m : Db.DbM β} {g : β → Reply} (hop : Db.method cfg op = g <$> m) :
    Agrees cfg (fun r b => r = g b) (Contract.orElseFail op)
      (Marbles.orElseFail Error.display m) := by
  refine (attempt hop).bind fun r r' hr => ?_
  subst hr
  cases r' with
  | ok b => exact pure rfl
  | error e => exact throw _

end Agrees

variable (cfg : Db.Config) (project : String) (clock : ClockRead → Int)

theorem importDep_local (id : String) (createdAt : Int) (report : Report) (dep : Dependency) :
    Agrees cfg Eq (importDep id createdAt report dep)
      (Import.importDep id createdAt report dep) := by
  unfold importDep Import.importDep
  cases dep.dependsOnId with
  | none => exact .pure rfl
  | some parent =>
      refine Agrees.bind (.attempt (m := Db.addDep id parent "marbles-import" createdAt)
        (g := fun _ => Reply.unit) rfl) fun r r' hr => ?_
      subst hr
      cases r' with
      | ok u => exact .pure rfl
      | error e =>
          cases e with
          | notFound id => exact .pure rfl
          | _ => exact .throw _

theorem importStatus_local (row : Issue) (now : Int) (report : Report) :
    Agrees cfg Eq (importStatus row now report) (Import.importStatus row now report) := by
  unfold importStatus Import.importStatus
  split
  · exact .pure rfl
  · exact (Agrees.orElseFail rfl).bind fun _ _ _ => .pure rfl

theorem checkId_local (row : Issue) (id : String) :
    Agrees cfg Eq (checkId row (.id id)) (Import.checkId row id) := by
  unfold checkId Import.checkId
  dsimp only
  split
  · exact .throw _
  · exact .pure rfl

/-- A row is imported by the same calls. -/
theorem importRow_local (report : Report) (entry : Issue × Nat) :
    Agrees cfg Eq (importRow project clock report entry)
      (Import.importRow cfg project clock report entry) := by
  obtain ⟨row, index⟩ := entry
  unfold importRow Import.importRow
  refine (Agrees.orElseFail rfl).bind fun reply id hreply => ?_
  subst hreply
  refine (checkId_local cfg row id).bind fun _ _ _ => ?_
  refine (Agrees.foldlM (fun a b dep hab => hab ▸ importDep_local cfg row.id _ a dep)
    row.dependencies rfl).bind fun a b hab => ?_
  subst hab
  refine (importStatus_local cfg row _ a).bind fun a b hab => ?_
  subst hab
  exact .pure rfl

/-- On the local store the two importers do the same. -/
theorem import_local (rows : List Issue) :
    Agrees cfg Eq (Contract.import project clock rows) (Import.import cfg project clock rows) :=
  Agrees.foldlM (fun a _ entry hab => hab ▸ importRow_local cfg project clock a entry) _ rfl

end Marbles.Contract
