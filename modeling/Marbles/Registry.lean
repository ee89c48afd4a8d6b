import Marbles.Db.Effect
import Marbles.Postgres.Sweep

/-!
# The stores of all companies

A registry knows the data of every company and which stores have been opened. A hosted
server sweeps the opened stores in the order of their names; the first sweep that fails
ends the round. There are two registries: `CompanyStores` keeps one database file for each
company and opens what it finds in its directory, `PostgresCompanyStores` keeps all
companies in one database and opens a store when it is first asked for.

A `Fleet` is what the two have in common: the view each company has of the data, and a
sweep that touches that view only. Which lapsed claims a round reaches is settled for
fleets; the registries differ in what they have opened.

What has been opened differs: a directory is listed when the registry starts, the tables of the
database are not. So the same round of the sweeper reaches different tenants after a restart,
though the two registries sweep what is open in the same way.
-/

namespace Marbles.Registry

open Tenancy

/-! ### Registries -/

/-- The data of all companies, and the companies whose stores are open. Both registries have this
shape; what differs is when a company is opened. -/
structure CompanyStoreRegistry (σ : Type) where
  data : σ
  opened : List String

/-- How a registry sweeps its companies, and what the sweep of one company does. -/
structure Fleet (σ τ : Type) where
  view : String → σ → τ
  /-- There are rows of the company. -/
  stored : τ → Prop
  /-- The company has a claim of an agent that has lapsed. -/
  lapsed : Int → τ → Prop
  /-- `Store::sweep` of one company. -/
  sweep : Int → String → ExceptT (Fault Error) (StateM σ) SweepReport
  isolated : ∀ now c, Isolated view c (sweep now c)
  clears : ∀ now c s, Succeeds (sweep now c) s → ¬ lapsed now (view c (sweep now c s).2)
  stored_of_lapsed : ∀ {now v}, lapsed now v → stored v

namespace Fleet

variable {σ τ : Type} (f : Fleet σ τ)

/-- `open_stores`: the open companies in the order of their names. -/
def openStores (r : CompanyStoreRegistry σ) : List String := distinct r.opened

/-- `sweep_open`: the reports are collected into a `Result`, so the first error is the last
sweep. -/
def sweepOpen (now : Int) (r : CompanyStoreRegistry σ) :
    Result (List (String × SweepReport)) × CompanyStoreRegistry σ :=
  let swept := round (f.sweep now) (openStores r) r.data
  (swept.1, { r with data := swept.2 })

/-- One round leaves no lapsed claim of an agent, except in companies whose own sweep fails, and
every company with rows is open. -/
def Reaches (now : Int) (r : CompanyStoreRegistry σ) : Prop :=
  (∀ c, f.stored (f.view c r.data) → Succeeds (f.sweep now c) r.data →
    ¬ f.lapsed now (f.view c (f.sweepOpen now r).2.data)) ∧
  ∀ c, f.stored (f.view c r.data) → c ∈ openStores r

/-- No open company whose sweep fails comes before an open company whose sweep would clear
something. -/
def Unobstructed (now : Int) (r : CompanyStoreRegistry σ) : Prop :=
  ∀ c ∈ r.opened, f.lapsed now (f.view c r.data) → Succeeds (f.sweep now c) r.data →
    ∀ a ∈ r.opened, a < c → Succeeds (f.sweep now a) r.data

variable {f}

@[simp] theorem mem_openStores {r : CompanyStoreRegistry σ} {c : String} :
    c ∈ openStores r ↔ c ∈ r.opened := by
  unfold openStores distinct
  rw [Sorting.mem_sortOn, List.mem_dedup]

theorem pairwise_openStores (r : CompanyStoreRegistry σ) : (openStores r).Pairwise (· < ·) := by
  have hnodup : (r.opened.dedup.map fun c => c).Nodup := by
    rw [List.map_id']
    exact List.nodup_dedup _
  have h := Sorting.pairwise_sortOn_lt hnodup
  rwa [List.map_id'] at h

/-- A round reaches every tenant exactly when every company with rows is open and no failing
company obstructs another. -/
theorem reaches_iff {now : Int} {r : CompanyStoreRegistry σ} :
    f.Reaches now r ↔
      (∀ c, f.stored (f.view c r.data) → c ∈ r.opened) ∧ f.Unobstructed now r := by
  have hsorted := pairwise_openStores r
  constructor
  · rintro ⟨hcleared, hopen⟩
    refine ⟨fun c hc => mem_openStores.mp (hopen c hc), fun c hc hlapsed hown a ha hlt => ?_⟩
    by_contra hfail
    -- the round ends before `c`, whose claim stays
    refine hcleared c (f.stored_of_lapsed hlapsed) hown ?_
    show f.lapsed now (f.view c (round (f.sweep now) (openStores r) r.data).2)
    rw [view_round_of_obstructed (f.isolated now) hsorted (mem_openStores.mpr ha) hlt hfail]
    exact hlapsed
  · rintro ⟨hopen, hfree⟩
    refine ⟨fun c hc hown => ?_, fun c hc => mem_openStores.mpr (hopen c hc)⟩
    show ¬ f.lapsed now (f.view c (round (f.sweep now) (openStores r) r.data).2)
    by_cases hreached : ∀ a ∈ openStores r, a < c → Succeeds (f.sweep now a) r.data
    · have hmem := mem_openStores.mpr (hopen c hc)
      rw [view_round_of_reached (f.isolated now) hsorted hmem hreached]
      exact f.clears now c r.data hown
    · simp only [not_forall] at hreached
      obtain ⟨a, ha, hlt, hfail⟩ := hreached
      rw [view_round_of_obstructed (f.isolated now) hsorted ha hlt hfail]
      intro hlapsed
      exact hfail (hfree c (hopen c hc) hlapsed hown a (mem_openStores.mp ha) hlt)

end Fleet

/-! ### Company ids -/

/-- `validate_company_id`. -/
def validateCompanyId (company : String) : Result Unit :=
  if company = "" || company.utf8ByteSize > 128 ||
      !company.toList.all fun c => c.isAlphanum || c = '-' || c = '_' then
    Outcome.fail (.bad "OIDC company id is not a safe store name")
  else .ok ()

/-- A call of `for_company`. A directory registry may fail to open the store, or creates one
under a new id. -/
structure ForCompany where
  company : String
  failure : Option Error := none
  storeId : String := ""

/-- The company a call asks for is open after it. -/
def ForCompany.opens (call : ForCompany) (company : String) : Prop :=
  call.company = company ∧ validateCompanyId company = .ok () ∧ call.failure = none

/-! ### One database file for each company -/

/-- The databases by company, opened or not. -/
abbrev Stores := Table String (Locked Db.Tables)

/-- An entry of the directory of a registry, with the database in it and what opening that
database gives. A symbolic link is not a directory, and a name need not be Unicode. -/
structure DirEntry where
  fileName : Option String
  isDir : Bool
  database : Option (Result Db.Tables)

namespace CompanyStores

/-- The entry is the directory of this company and has a database. -/
def isStoreOf (entry : DirEntry) (company : String) : Prop :=
  entry.isDir = true ∧ entry.fileName = some company ∧ entry.database.isSome = true

/-- One turn of the loop of `new`. A directory without a database is passed over, and one whose name
is not allowed ends the scan. -/
def scanEntry (opened : List String) (entry : Result DirEntry) : Result (List String) := do
  let entry ← entry
  if entry.isDir then match entry.fileName, entry.database with
    | some company, some database => do
        validateCompanyId company
        let _ ← database
        pure (company :: opened)
    | _, _ => pure opened
  else pure opened

/-- The databases that can be opened, by the names of their entries. -/
def storedIn (entries : List (Result DirEntry)) : Stores :=
  entries.foldl (fun stores entry => match entry with
    | .ok ⟨some company, _, some (.ok t)⟩ => stores.insert company (.new t)
    | _ => stores) .empty

/-- Open every company that has a database. -/
def new (entries : List (Result DirEntry)) : Result (CompanyStoreRegistry Stores) := do
  let opened ← entries.foldlM scanEntry []
  pure ⟨storedIn entries, opened⟩

/-- Open a store, creating it if there is none. The name is checked first, so no path is made of an
unchecked one. -/
def forCompany (r : CompanyStoreRegistry Stores) (call : ForCompany) :
    Result Unit × CompanyStoreRegistry Stores :=
  match validateCompanyId call.company with
  | .error e => (.error e, r)
  | .ok () =>
      if call.company ∈ r.opened then (.ok (), r)
      else match call.failure with
        | some e => (Outcome.fail e, r)
        | none => (.ok (), ⟨r.data.insert call.company (Db.opened call.storeId),
            call.company :: r.opened⟩)

/-- The registry after a sequence of calls. -/
def run (calls : List ForCompany) (r : CompanyStoreRegistry Stores) :
    CompanyStoreRegistry Stores :=
  calls.foldl (fun r call => (forCompany r call).2) r

/-- `Db::sweep` of one company. `outage` is the storage error the company's file answers with, if
any; `order` is the order in which its rows are visited. -/
def sweep (outage : String → Option (Fault Error)) (order : String → List String) (now : Int)
    (company : String) : ExceptT (Fault Error) (StateM Stores) SweepReport := fun stores =>
  match outage company, stores.find company with
  | some e, _ => (.error e, stores)
  | none, none => (.error .abort, stores)
  | none, some s =>
      let swept := Locked.tx (Db.sweepTx now (order company)) s
      (swept.1, stores.modify company fun _ => swept.2)

/-! #### What is open -/

theorem scanEntry_ok {opened opened' : List String} {entry : Result DirEntry}
    (h : scanEntry opened entry = .ok opened') (c : String) :
    c ∈ opened' ↔ c ∈ opened ∨ ∃ e, entry = .ok e ∧ isStoreOf e c := by
  obtain ⟨⟨fileName, isDir, database⟩, rfl, h⟩ := Outcome.bind_eq_ok.mp h
  unfold isStoreOf
  cases isDir with
  | false => cases h; simp
  | true =>
      rcases fileName with _ | company
      · cases h; simp
      · rcases database with _ | database
        · cases h; simp
        · change (validateCompanyId company >>= fun _ => database >>= fun _ =>
            pure (company :: opened)) = .ok opened' at h
          obtain ⟨_, -, h⟩ := Outcome.bind_eq_ok.mp h
          obtain ⟨_, -, h⟩ := Outcome.bind_eq_ok.mp h
          cases h
          rw [List.mem_cons]
          constructor
          · rintro (rfl | hc)
            · exact Or.inr ⟨_, rfl, rfl, rfl, rfl⟩
            · exact Or.inl hc
          · rintro (hc | ⟨e, he, -, hname, -⟩)
            · exact Or.inr hc
            · cases he
              cases hname
              exact Or.inl rfl

theorem scan_ok {entries : List (Result DirEntry)} :
    ∀ {opened opened' : List String}, entries.foldlM scanEntry opened = .ok opened' →
      ∀ c, c ∈ opened' ↔ c ∈ opened ∨ ∃ e, .ok e ∈ entries ∧ isStoreOf e c := by
  induction entries with
  | nil =>
      intro opened opened' h c
      cases h
      simp
  | cons entry entries ih =>
      intro opened opened' h c
      rw [List.foldlM_cons] at h
      obtain ⟨opened₁, hentry, hrest⟩ := Outcome.bind_eq_ok.mp h
      rw [ih hrest, scanEntry_ok hentry]
      constructor
      · rintro ((hc | ⟨e, rfl, he⟩) | ⟨e, hmem, he⟩)
        · exact Or.inl hc
        · exact Or.inr ⟨e, List.mem_cons_self .., he⟩
        · exact Or.inr ⟨e, List.mem_cons_of_mem _ hmem, he⟩
      · rintro (hc | ⟨e, hmem, he⟩)
        · exact Or.inl (Or.inl hc)
        · rcases List.mem_cons.mp hmem with rfl | hmem
          · exact Or.inl (Or.inr ⟨e, rfl, he⟩)
          · exact Or.inr ⟨e, hmem, he⟩

theorem mem_opened_forCompany (r : CompanyStoreRegistry Stores) (call : ForCompany) (c : String) :
    c ∈ (forCompany r call).2.opened ↔ c ∈ r.opened ∨ call.opens c := by
  unfold forCompany ForCompany.opens
  cases hvalid : validateCompanyId call.company with
  | error e =>
      refine ⟨Or.inl, ?_⟩
      rintro (hc | ⟨rfl, hc, -⟩)
      · exact hc
      · rw [hvalid] at hc
        cases hc
  | ok u =>
      by_cases hopen : call.company ∈ r.opened
      · simp only [hopen, if_true]
        refine ⟨Or.inl, ?_⟩
        rintro (hc | ⟨rfl, -, -⟩)
        · exact hc
        · exact hopen
      · simp only [hopen, if_false]
        cases call.failure with
        | some e => simp
        | none =>
            show c ∈ call.company :: r.opened ↔ _
            rw [List.mem_cons]
            constructor
            · rintro (rfl | hc)
              · exact Or.inr ⟨rfl, hvalid, rfl⟩
              · exact Or.inl hc
            · rintro (hc | ⟨rfl, -, -⟩)
              · exact Or.inr hc
              · exact Or.inl rfl

theorem mem_opened_run {calls : List ForCompany} {r : CompanyStoreRegistry Stores} {c : String} :
    c ∈ (run calls r).opened ↔ c ∈ r.opened ∨ ∃ call ∈ calls, call.opens c := by
  induction calls generalizing r with
  | nil => simp [run]
  | cons call calls ih =>
      show c ∈ (run calls (forCompany r call).2).opened ↔ _
      rw [ih, mem_opened_forCompany]
      simp [or_assoc]

/-! #### Its fleet -/

theorem isolated_sweep (outage : String → Option (Fault Error)) (order : String → List String)
    (now : Int) (c : String) :
    Isolated (fun c (stores : Stores) => stores.find c) c (sweep outage order now c) := by
  constructor
  · intro stores stores' h
    show seen _ c (sweep outage order now c stores) = seen _ c (sweep outage order now c stores')
    unfold sweep
    cases outage c with
    | some e => exact congrArg (Prod.mk (Except.error e)) h
    | none =>
        have h' : stores.find c = stores'.find c := h
        cases hs : stores'.find c with
        | none =>
            rw [h', hs]
            exact congrArg (Prod.mk (Except.error Fault.abort)) h
        | some s =>
            rw [h', hs]
            simp only [seen, Table.find_modify_self, h', hs]
  · intro stores d hd
    show (sweep outage order now c stores).2.find d = stores.find d
    unfold sweep
    cases outage c with
    | some e => rfl
    | none =>
        cases stores.find c with
        | none => rfl
        | some s => exact Table.find_modify_ne hd _

/-- A claim of an agent that has lapsed. -/
def agentLapsed (now : Int) (row : Db.IssueRow) : Prop :=
  row.assignee.isSome = true ∧ row.actorKind = some ActorKind.agent.asStr ∧
    ∃ expiry, row.expiresAt = some expiry ∧ expiry ≤ now

/-- The company's database holds a lapsed claim of an agent. -/
def lapsed (now : Int) (store : Option (Locked Db.Tables)) : Prop :=
  ∃ s, store = some s ∧ ∃ id row, s.state.issue.find id = some row ∧ agentLapsed now row

/-- The company's database is not as it was created. -/
def stored (store : Option (Locked Db.Tables)) : Prop :=
  ∃ s, store = some s ∧ s.state ≠ .empty s.state.storeId

theorem sweepTx_clears {now : Int} {order : List String} {report : SweepReport}
    {t t' : Db.Tables} (h : Db.sweepTx now order t = .ok (report, t')) {id : String}
    {row : Db.IssueRow} (hrow : t'.issue.find id = some row) : ¬ agentLapsed now row := by
  rintro ⟨hheld, hagent, expiry, hexpiry, hle⟩
  rw [(Db.sweepTx_ok h).1, Table.find_mapRows] at hrow
  obtain ⟨old, -, hold⟩ := Option.map_eq_some_iff.mp hrow
  by_cases hsweeps : Db.sweeps now old = true
  · rw [if_pos hsweeps] at hold
    subst hold
    cases hheld
  · rw [if_neg hsweeps] at hold
    subst hold
    refine hsweeps ?_
    rw [Db.sweeps, hheld, hexpiry, hagent]
    simp [hle, ActorKind.asStr]

theorem clears_sweep (outage : String → Option (Fault Error)) (order : String → List String)
    (now : Int) (c : String) (stores : Stores)
    (h : Succeeds (sweep outage order now c) stores) :
    ¬ lapsed now ((sweep outage order now c stores).2.find c) := by
  obtain ⟨report, hreport⟩ := h
  rintro ⟨s', hs', id, row, hrow, hlapsed⟩
  unfold sweep at hreport hs'
  cases hout : outage c with
  | some e => rw [hout] at hreport; cases hreport
  | none =>
      cases hs : stores.find c with
      | none => rw [hout, hs] at hreport; cases hreport
      | some s =>
          rw [hout, hs] at hreport hs'
          simp only [Table.find_modify_self, hs, Option.map_some, Option.some.injEq] at hreport hs'
          obtain ⟨t', htx, hstate⟩ := Locked.tx_committed hreport
          rw [← hs', hstate] at hrow
          exact sweepTx_clears htx hrow hlapsed

def fleet (outage : String → Option (Fault Error)) (order : String → List String) :
    Fleet Stores (Option (Locked Db.Tables)) where
  view := fun c stores => stores.find c
  stored := stored
  lapsed := lapsed
  sweep := sweep outage order
  isolated := isolated_sweep outage order
  clears := clears_sweep outage order
  stored_of_lapsed := by
    rintro now v ⟨s, rfl, id, row, hrow, -⟩
    refine ⟨s, rfl, fun hempty => ?_⟩
    rw [hempty] at hrow
    cases hrow

end CompanyStores

/-! ### All companies in one database -/

namespace PostgresCompanyStores

open Postgres (Server Database Rows IssueRow)

/-- A registry that has just connected knows no company. -/
def connect (db : Database) : CompanyStoreRegistry Database := ⟨db, []⟩

/-- Open a store: nothing is asked of the database. -/
def forCompany (r : CompanyStoreRegistry Database) (company : String) :
    Result Unit × CompanyStoreRegistry Database :=
  match validateCompanyId company with
  | .error e => (.error e, r)
  | .ok () =>
      if company ∈ r.opened then (.ok (), r) else (.ok (), { r with opened := company :: r.opened })

/-- The registry after a sequence of calls. -/
def run (calls : List String) (r : CompanyStoreRegistry Database) : CompanyStoreRegistry Database :=
  calls.foldl (fun r company => (forCompany r company).2) r

/-- `PostgresStore::sweep` of one company. `outage` is the error its connection answers with, if
any. -/
def sweep (outage : String → Option (Fault Error)) (order : String → List String) (now : Int)
    (company : String) : Postgres.Method SweepReport :=
  match outage company with
  | some e => throw e
  | none => transaction (Postgres.sweepTx company now (order company))

theorem forCompany_data (r : CompanyStoreRegistry Database) (company : String) :
    (forCompany r company).2.data = r.data := by
  unfold forCompany
  split
  · rfl
  · split <;> rfl

@[simp] theorem run_data (calls : List String) (r : CompanyStoreRegistry Database) :
    (run calls r).data = r.data := by
  induction calls generalizing r with
  | nil => rfl
  | cons company calls ih => exact (ih _).trans (forCompany_data r company)

theorem mem_opened_forCompany (r : CompanyStoreRegistry Database) (company c : String) :
    c ∈ (forCompany r company).2.opened ↔
      c ∈ r.opened ∨ company = c ∧ validateCompanyId c = .ok () := by
  unfold forCompany
  cases hvalid : validateCompanyId company with
  | error e =>
      refine ⟨Or.inl, ?_⟩
      rintro (hc | ⟨rfl, hc⟩)
      · exact hc
      · rw [hvalid] at hc
        cases hc
  | ok u =>
      by_cases hopen : company ∈ r.opened
      · simp only [hopen, if_true]
        refine ⟨Or.inl, ?_⟩
        rintro (hc | ⟨rfl, -⟩)
        · exact hc
        · exact hopen
      · simp only [hopen, if_false, List.mem_cons]
        constructor
        · rintro (rfl | hc)
          · exact Or.inr ⟨rfl, hvalid⟩
          · exact Or.inl hc
        · rintro (hc | ⟨rfl, -⟩)
          · exact Or.inr hc
          · exact Or.inl rfl

theorem mem_opened_run {calls : List String} {r : CompanyStoreRegistry Database} {c : String} :
    c ∈ (run calls r).opened ↔ c ∈ r.opened ∨ c ∈ calls ∧ validateCompanyId c = .ok () := by
  induction calls generalizing r with
  | nil => simp [run]
  | cons company calls ih =>
      show c ∈ (run calls (forCompany r company).2).opened ↔ _
      rw [ih, mem_opened_forCompany, List.mem_cons]
      constructor
      · rintro ((hc | ⟨rfl, hvalid⟩) | ⟨hmem, hvalid⟩)
        · exact Or.inl hc
        · exact Or.inr ⟨Or.inl rfl, hvalid⟩
        · exact Or.inr ⟨Or.inr hmem, hvalid⟩
      · rintro (hc | ⟨rfl | hmem, hvalid⟩)
        · exact Or.inl (Or.inl hc)
        · exact Or.inl (Or.inr ⟨rfl, hvalid⟩)
        · exact Or.inr ⟨hmem, hvalid⟩

/-! #### Its fleet -/

/-- The company has a lapsed claim of an agent. -/
def lapsed (now : Int) (rows : Rows) : Prop :=
  ∃ id row, rows.issue id = some row ∧ row.agentLapsed now

theorem clears_sweep (outage : String → Option (Fault Error)) (order : String → List String)
    (now : Int) (c : String) (db : Database) (h : Succeeds (sweep outage order now c) db) :
    ¬ lapsed now ((sweep outage order now c db).2.rowsOf c) := by
  obtain ⟨report, hreport⟩ := h
  rintro ⟨id, row, hrow, hlapsed⟩
  unfold sweep at hreport hrow
  cases hout : outage c with
  | some e => rw [hout] at hreport; cases hreport
  | none =>
      rw [hout] at hreport hrow
      change (Locked.commit (Postgres.sweepTx c now (order c)) db).1 = _ at hreport
      change (Locked.commit (Postgres.sweepTx c now (order c)) db).2.issueRow c id = _ at hrow
      unfold Locked.commit at hreport hrow
      cases htx : Postgres.sweepTx c now (order c) db with
      | ok p =>
          rw [htx] at hrow
          exact Postgres.sweepTx_clears htx hrow hlapsed
      | error e => rw [htx] at hreport; cases hreport

def fleet (outage : String → Option (Fault Error)) (order : String → List String) :
    Fleet Database Rows where
  view := Database.rowsOf
  stored := fun rows => rows ≠ .empty
  lapsed := lapsed
  sweep := sweep outage order
  isolated := by
    intro now c
    unfold sweep
    split
    · exact .throw _
    · exact .transaction (Postgres.confined_sweepTx ..)
  clears := clears_sweep outage order
  stored_of_lapsed := by
    rintro now rows ⟨id, row, hrow, -⟩ rfl
    cases hrow

end PostgresCompanyStores

/-! ### The sweeper -/

/-- A hosted sweeper reaches every tenant exactly when every company with rows was found in the
directory or asked for since the start, and no company whose sweep fails comes before one whose
lapsed claims are to be cleared. The second condition is about names, as the round goes by names and
ends with the first sweep that fails. -/
theorem sweeper_reaches_iff (outage : String → Option (Fault Error))
    (order : String → List String) (now : Int) :
    (∀ entries calls r, CompanyStores.new entries = .ok r →
      ((CompanyStores.fleet outage order).Reaches now (CompanyStores.run calls r) ↔
        (∀ c, CompanyStores.stored ((CompanyStores.run calls r).data.find c) →
          (∃ e, .ok e ∈ entries ∧ CompanyStores.isStoreOf e c) ∨
            ∃ call ∈ calls, call.opens c) ∧
        (CompanyStores.fleet outage order).Unobstructed now (CompanyStores.run calls r))) ∧
    ∀ db calls,
      (PostgresCompanyStores.fleet outage order).Reaches now
          (PostgresCompanyStores.run calls (PostgresCompanyStores.connect db)) ↔
        (∀ c, (PostgresCompanyStores.fleet outage order).stored (db.rowsOf c) →
          c ∈ calls ∧ validateCompanyId c = .ok ()) ∧
        (PostgresCompanyStores.fleet outage order).Unobstructed now
          (PostgresCompanyStores.run calls (PostgresCompanyStores.connect db)) := by
  constructor
  · intro entries calls r hnew
    obtain ⟨opened, hscan, hr⟩ := Outcome.bind_eq_ok.mp hnew
    cases hr
    rw [Fleet.reaches_iff]
    refine and_congr_left fun _ => forall_congr' fun c => imp_congr_right fun _ => ?_
    rw [CompanyStores.mem_opened_run, CompanyStores.scan_ok hscan]
    simp
  · intro db calls
    rw [Fleet.reaches_iff]
    refine and_congr_left fun _ => forall_congr' fun c => ?_
    rw [PostgresCompanyStores.run_data, PostgresCompanyStores.mem_opened_run]
    simp [PostgresCompanyStores.connect, PostgresCompanyStores.fleet]

/-! #### Two companies -/

/-- An agent's claim that lapses at 50. -/
def leasedIssue : Postgres.IssueRow :=
  (Postgres.idle.claim "bot" ActorKind.agent.asStr 0 50)

/-- The hosted database of a company with that claim. -/
def leased : Postgres.Database :=
  { Postgres.Database.empty with
    project := Table.empty.insert ("acme", "p") ⟨"/p", "P", 0⟩
    issue := Table.empty.insert ("acme", "i") leasedIssue }

/-- The database file of a company with such a claim. -/
def leasedFile : Db.Tables :=
  (Db.run {} [.ensureProject "p" "/p" "P" 0,
    .create { id := some "i", project := some "p", availableAt := some 0 } [] 0,
    .claim ⟨"i", "bot", .agent, some 50⟩ 0] (Db.opened "s")).state

/-- A directory with the files of two companies. -/
def directory : List (Result DirEntry) :=
  [.ok ⟨some "zeta", true, some (.ok leasedFile)⟩, .ok ⟨some "acme", true, some (.ok leasedFile)⟩]

/-- Once the company has been asked for, the sweeper reaches it; a directory is reached at once. -/
theorem opened_companies_reached :
    (PostgresCompanyStores.fleet (fun _ => none) fun _ => []).Reaches 100
        (PostgresCompanyStores.run ["acme"] (PostgresCompanyStores.connect leased)) ∧
      (CompanyStores.fleet (fun _ => none) fun _ => []).Reaches 100
        (CompanyStores.run [] ⟨CompanyStores.storedIn directory, ["acme", "zeta"]⟩) := by
  -- The hosted registry reaches a company once it has been opened; the local one has every file in
  -- its directory open.
  constructor
  · refine ((sweeper_reaches_iff _ _ _).2 leased ["acme"]).mpr ⟨fun c hc => ?_, ?_⟩
    · by_cases hacme : c = "acme"
      · subst hacme
        exact ⟨by decide, by decide⟩
      · refine absurd ?_ hc
        simp [Postgres.Database.rowsOf, leased, Postgres.Database.empty, Table.tenant_insert, hacme,
          Postgres.Rows.empty]
    · intro c hc _ _ a ha hlt
      obtain rfl := List.mem_singleton.mp hc
      obtain rfl := List.mem_singleton.mp ha
      exact absurd hlt (lt_irrefl _)
  · refine ((sweeper_reaches_iff _ _ _).1 directory [] _ rfl).mpr ⟨fun c hc => ?_, ?_⟩
    · obtain ⟨s, hs, -⟩ := hc
      have hfind : (CompanyStores.storedIn directory).find c =
          if c = "acme" then some (.new leasedFile)
          else if c = "zeta" then some (.new leasedFile) else none := by
        simp [CompanyStores.storedIn, directory, Table.find_insert]
      by_cases hacme : c = "acme"
      · subst hacme
        exact Or.inl ⟨_, List.mem_cons_of_mem _ (List.mem_cons_self ..), rfl, rfl, rfl⟩
      · by_cases hzeta : c = "zeta"
        · subst hzeta
          exact Or.inl ⟨_, List.mem_cons_self .., rfl, rfl, rfl⟩
        · rw [if_neg hacme, if_neg hzeta] at hfind
          cases hfind.symm.trans hs
    · intro c _ _ _ a ha _
      have hmem : a ∈ ["acme", "zeta"] := ha
      simp at hmem
      rcases hmem with rfl | rfl
      · exact ⟨⟨["i"], []⟩, rfl⟩
      · exact ⟨⟨["i"], []⟩, rfl⟩

/-- After a restart the hosted registry has opened no company and sweeps none; and in a directory
a company whose file cannot be written keeps the claims of the next one held. -/
theorem restarted_sweeper_misses_company :
    ¬ (PostgresCompanyStores.fleet (fun _ => none) fun _ => []).Reaches 100
        (PostgresCompanyStores.connect leased) ∧
      ∃ r, CompanyStores.new directory = .ok r ∧
        ¬ (CompanyStores.fleet (fun c => if c = "acme" then some (.fail (.sqlite "disk I/O error"))
          else none) fun _ => []).Reaches 100 r := by
  constructor
  · rintro ⟨-, hopen⟩
    refine absurd (hopen "acme" fun hempty => ?_) List.not_mem_nil
    cases congrArg (fun rows => rows.issue "i") hempty
  · refine ⟨_, rfl, fun hreaches => ?_⟩
    have hzeta : (CompanyStores.storedIn directory).find "zeta" = some (.new leasedFile) := rfl
    have hlapsed : CompanyStores.lapsed 100 ((CompanyStores.storedIn directory).find "zeta") :=
      ⟨_, hzeta, "i", _, rfl, rfl, rfl, 50, rfl, by decide⟩
    have hfree := (Fleet.reaches_iff.mp hreaches).2 "zeta" (by decide) hlapsed ⟨⟨["i"], []⟩, rfl⟩
      "acme" (by decide) (by decide)
    obtain ⟨report, hreport⟩ := hfree
    cases hreport

end Marbles.Registry
