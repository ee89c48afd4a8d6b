import Marbles.Db.Action
import Marbles.Db.Enters

/-!
# The scopes an action enters

`Action.Enters` lists the lock scopes an action may enter, as `Enters` does for the calls of the
contract. A claim enters one scope, with the lease that was computed for it, and nothing else that
an action does gives anyone a lease. The importers create the rows they are given.

With the lists an invariant of the actions is proved scope by scope and never by looking at a
program again. The lists are sound and need not be complete: a scope that is listed may in fact
never be entered.
-/

namespace Marbles.Db

open Json (Value)

/-- The scopes the list importer may enter. -/
def ListEnters (project : String) (rows : List Issue) (s : Scope) : Prop :=
  (∃ row ∈ rows, ∃ p available now, s = .create (Import.specOf project row) p available [] now) ∨
  (∃ child parent now, s = .addDep child parent "marbles-import" now) ∨
  (∃ row ∈ rows, ∃ now, s = .update row.id { status := some row.status } "marbles-import" now) ∨
  ∃ id, s = .get id

/-- The scopes the export importer may enter. An upper bound along the text of the importer; which
of these a run enters depends on the rows. -/
def ExportEnters (project : String) (rows : List Value) (s : Scope) : Prop :=
  (∃ row ∈ rows, ∃ id p available now,
    s = .create (Jsonl.specOf project id row) p available [] now) ∨
  (∃ child parent now, s = .addDep child parent "marbles-import" now) ∨
  (∃ id status now, status ≠ "closed" ∧
    s = .update id { status := some status, availableAt := some 0 } "marbles-import" now) ∨
  (∃ id, s = .checkBlockers id) ∨
  (∃ id reason evidence now, s = .closeUnchecked id reason evidence "marbles-import" now) ∨
  ∃ id, s = .get id

namespace Action

/-- The scopes an action may enter. A property of the scopes an action may enter is one of the
action, and of every run of actions. -/
def Enters (cfg : Config) : Action → Scope → Prop
  | op (.claim req now), s =>
      ∃ ttl, req.ttl cfg.week cfg.policy now = some ttl ∧ s = .claim req ttl now
  | op o, s => Db.Enters o s
  | setLabels id labels actor now, s => s = .setLabels id labels actor now
  | addRemoteDep child dependency actor now, s => s = .addRemoteDep child dependency actor now
  | removeRemoteDep child canonicalRef actor now, s =>
      s = .removeRemoteDep child canonicalRef actor now
  | remoteDependencies child, s => s = .remoteDependencies child
  | importList project _ rows, s => ListEnters project rows s
  | importJsonl _ project _ rows _, s => ExportEnters project rows s

end Action

/-! ### The importers -/

namespace Within

variable {ε α β : Type} {p : Scope → Prop}

theorem mono {q : Scope → Prop} (h : ∀ s, p s → q s) {m : ExceptT ε (Prog DbI) α}
    (hm : Within p m) : Within q m := ⟨Prog.Only.mono h hm.only⟩

theorem attempt {m : DbM α} (hm : Within p m) :
    Within p (Marbles.attempt m : ImportM ε (Except Error α)) :=
  ⟨Prog.Only.bind hm.only fun _ => trivial⟩

theorem orElseFail {m : DbM α} (f : Error → ε) (hm : Within p m) :
    Within p (Marbles.orElseFail f m) := by
  refine (attempt hm).bind fun r => ?_
  cases r with
  | ok a => exact .pure _
  | error e => exact .throw _

theorem foldlM {f : β → α → ExceptT ε (Prog DbI) β} (xs : List α)
    (hf : ∀ b, ∀ a ∈ xs, Within p (f b a)) (b : β) : Within p (xs.foldlM f b) := by
  induction xs generalizing b with
  | nil => exact .pure _
  | cons x xs ih =>
      rw [List.foldlM_cons]
      exact (hf b x (List.mem_cons_self ..)).bind
        (ih fun b a ha => hf b a (List.mem_cons_of_mem _ ha))

end Within

section Importers

variable {p : Scope → Prop} (cfg : Config)

theorem within_create {spec : NewIssue} {draws : List String} {now : Int}
    (h : ∀ project available, p (.create spec project available draws now)) :
    Within p (create cfg spec draws now) := by
  unfold create
  split
  · exact .throw _
  · exact .call (h _ _)

theorem within_update {id : String} {patch : IssuePatch} {actor : String} {now : Int}
    (hupdate : p (.update id patch actor now)) (hget : p (.get id)) :
    Within p (update id patch actor now) :=
  (Within.liftResult _).bind fun _ => (Within.call hupdate).bind fun _ => .call hget

theorem within_addDep {child parent actor : String} {now : Int}
    (h : p (.addDep child parent actor now)) : Within p (addDep child parent actor now) :=
  .ite (.throw _) (.call h)

theorem importList_enters (project : String) (clock : Import.ClockRead → Int) (rows : List Issue) :
    Within (ListEnters project rows) (Import.import cfg project clock rows) := by
  refine Within.foldlM _ (fun report entry hentry => ?_) _
  have hrow : entry.1 ∈ rows := List.fst_mem_of_mem_zipIdx hentry
  refine (Within.orElseFail _ (within_create cfg fun p available =>
    Or.inl ⟨_, hrow, p, available, _, rfl⟩)).bind fun id => ?_
  refine Within.bind (.ite (.throw _) (.pure _)) fun _ => ?_
  refine (Within.foldlM _ (fun report dep _ => ?_) _).bind fun report => ?_
  · unfold Import.importDep
    split
    · exact .pure _
    · refine (Within.attempt (within_addDep (Or.inr (Or.inl ⟨_, _, _, rfl⟩)))).bind fun r => ?_
      split
      · exact .pure _
      · exact .pure _
      · exact .throw _
  · refine Within.bind (.ite (.pure _) ?_) fun _ => .pure _
    refine (Within.orElseFail _ (within_update ?_ ?_)).bind fun _ => .pure _
    · exact Or.inr (Or.inr (Or.inl ⟨_, hrow, _, rfl⟩))
    · exact Or.inr (Or.inr (Or.inr ⟨_, rfl⟩))

theorem within_check {α : Type} (r : Except Jsonl.ImportError α) : Within p (Jsonl.check r) := by
  cases r with
  | ok a => exact .pure _
  | error e => exact .throw _

theorem within_storedId (ids : Jsonl.IdMap) (row : Value) : Within p (Jsonl.storedId ids row) := by
  unfold Jsonl.storedId
  split
  · exact .pure _
  · exact .throw _

theorem settleRow_enters {project : String} {rows : List Value} (env : Jsonl.Env) (round : Nat)
    (acc : Bool × List Jsonl.Pending) (row : Jsonl.Pending) :
    Within (ExportEnters project rows) (Jsonl.settleRow env round acc row) := by
  have hget : ∀ id, Within (ExportEnters project rows) (get id) := fun id =>
    .call (Or.inr (Or.inr (Or.inr (Or.inr (Or.inr ⟨id, rfl⟩)))))
  refine (within_check _).bind fun status => (Within.orElseFail _ (hget _)).bind fun current => ?_
  split
  · refine (Within.attempt ?_).bind fun r => ?_
    · unfold close
      refine .ite (.throw _) ((Within.call ?_).bind fun _ => (Within.call ?_).bind fun _ => hget _)
      · exact Or.inr (Or.inr (Or.inr (Or.inl ⟨_, rfl⟩)))
      · exact Or.inr (Or.inr (Or.inr (Or.inr (Or.inl ⟨_, _, _, _, rfl⟩))))
    · split
      · exact .pure _
      · exact .ite (.pure _) (.throw _)
      · exact .throw _
  · split
    · rename_i hstatus
      refine (Within.orElseFail _ (within_update ?_ ?_)).bind fun _ => .pure _
      · exact Or.inr (Or.inr (Or.inl ⟨_, _, _, hstatus.2.1, rfl⟩))
      · exact Or.inr (Or.inr (Or.inr (Or.inr (Or.inr ⟨_, rfl⟩))))
    · exact .pure _

theorem settle_enters {project : String} {rows : List Value} (env : Jsonl.Env) (fuel round : Nat)
    (pending : List Jsonl.Pending) :
    Within (ExportEnters project rows) (Jsonl.settle env fuel round pending) := by
  induction fuel generalizing round pending with
  | zero => exact .throw _
  | succ fuel ih =>
      exact (Within.foldlM _ (fun acc row _ => settleRow_enters env round acc row) _).bind fun _ =>
        .ite (ih (round + 1) _) (.pure _)

theorem linkDep_enters {project : String} {rows : List Value} (env : Jsonl.Env)
    (rename : Option (String × String)) (ids : Jsonl.IdMap) (id : String) (row : Nat)
    (report : Jsonl.ImportReport) (entry : Value × Nat) :
    Within (ExportEnters project rows) (Jsonl.linkDep env rename ids id row report entry) := by
  refine .ite (.pure _) ?_
  split
  · exact .pure _
  · refine .ite (.pure _) ((Within.attempt (within_addDep ?_)).bind fun r => ?_)
    · exact Or.inr (Or.inl ⟨_, _, _, rfl⟩)
    · split
      · exact .pure _
      · exact .pure _
      · exact .throw _

theorem importJsonl_enters (env : Jsonl.Env) (project : String) (rename : Option (String × String))
    (rows : List Value) (dryRun : Bool) :
    Within (ExportEnters project rows) (Jsonl.import cfg env project rename rows dryRun) := by
  have hget : ∀ id, Within (ExportEnters project rows) (get id) := fun id =>
    .call (Or.inr (Or.inr (Or.inr (Or.inr (Or.inr ⟨id, rfl⟩)))))
  have hissue : ∀ r ∈ (rows.filter (!Jsonl.isSkip ·)).zipIdx, r.1 ∈ rows := fun r hr =>
    List.mem_of_mem_filter (List.fst_mem_of_mem_zipIdx hr)
  -- Along the text of import: examining reads, creating creates rows of the export, linking and
  -- settling touch their edges and statuses.
  refine (Within.foldlM _ (fun acc r _ => ?_) _).bind fun examined => .ite (.throw _)
    (.ite (.pure _) ?_)
  · unfold Jsonl.examineRow
    dsimp only
    split
    · exact .throw _
    · refine (within_check _).bind fun _ => (Within.attempt (hget _)).bind fun r => ?_
      split
      · exact .pure _
      · exact .ite (.pure _) (.pure _)
  refine (Within.foldlM _ (fun report entry hentry => ?_) _).bind fun report => ?_
  · refine (within_storedId ..).bind fun id => (Within.attempt (hget id)).bind fun r => ?_
    split
    · exact .pure _
    · refine (within_check _).bind fun createdAt => ?_
      refine (Within.orElseFail _ (within_create cfg fun p available => ?_)).bind fun _ => .pure _
      exact Or.inl ⟨_, hissue _ hentry, _, p, available, _, rfl⟩
  refine (Within.foldlM _ (fun report entry _ => ?_) _).bind fun report => ?_
  · exact (within_storedId ..).bind fun id =>
      .foldlM _ (fun report entry _ => linkDep_enters env rename _ id _ report entry) _
  refine (Within.mapM (fun r : Value × Nat => (within_storedId _ r.1).bind fun _ => .pure _) _).bind
    fun pending => (settle_enters env _ 0 pending).bind fun left => ?_
  refine (Within.foldlM _ (fun report row _ => ?_) _).bind fun _ => .pure _
  refine (Within.orElseFail _ (within_closeUnchecked ?_ ?_)).bind fun _ => .pure _
  · exact Or.inr (Or.inr (Or.inr (Or.inr (Or.inl ⟨_, _, _, _, rfl⟩))))
  · exact Or.inr (Or.inr (Or.inr (Or.inr (Or.inr ⟨_, rfl⟩))))

end Importers

/-! ### Every action -/

theorem op_enters (cfg : Config) (op : Op) :
    Within ((Action.op op).Enters cfg) (method cfg op) := by
  have hop := method_enters cfg op
  cases op with
  | claim req now =>
      refine .map _ ?_
      unfold claim
      split
      · exact .throw _
      · rename_i ttl httl
        exact .call ⟨ttl, httl, rfl⟩
  | _ => exact hop

/-- An action enters only the scopes listed for it. -/
theorem Action.prog_enters (cfg : Config) (a : Action) : Prog.Only (a.Enters cfg) (a.prog cfg) := by
  have hreturns : ∀ {ε α : Type} {p : Scope → Prop} {m : ImportM ε α}, Within p m →
      Prog.Only (I := DbI) p (returns m) := fun hm => Prog.Only.bind hm.only fun _ => trivial
  cases a with
  | op o => exact hreturns (op_enters cfg o)
  | setLabels => exact hreturns (.call rfl)
  | addRemoteDep child dependency actor now =>
      refine hreturns ?_
      unfold Db.addRemoteDep
      split
      · exact .throw _
      · exact .ite (.call rfl) (.throw _)
  | removeRemoteDep => exact hreturns (.call rfl)
  | remoteDependencies => exact hreturns (.call rfl)
  | importList => exact hreturns (importList_enters ..)
  | importJsonl => exact hreturns (importJsonl_enters ..)

/-- What the scopes of an action preserve, the action preserves. -/
theorem Action.step_invariant {cfg : Config} {a : Action} {inv : Locked Tables → Prop}
    (h : ∀ c s, a.Enters cfg c → inv s → inv (c.exec cfg s).2) {s : Locked Tables} (hs : inv s) :
    inv (a.step cfg s) :=
  Prog.Only.run_invariant (I := DbI) h (a.prog_enters cfg) hs

end Marbles.Db
