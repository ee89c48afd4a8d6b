import Marbles.Api
import Marbles.Import
import Marbles.Lib.Hosting
import Marbles.Narrowing
import Marbles.Readback
import Marbles.Registry
import Marbles.Tokens

/-!
# The hosted server

With `company_stores` set, a request reaches the store of the company its credential is scoped to:
`db_for` asks the registry for it, which opens a company's file at the first request for it. The
requests of all companies run on worker threads, and the calls they make interleave as they like.

`companies_alone` says that every company is served as by a server of its own: its store and the
answers to its requests are those of a run in which only its requests take turns, in the order in
which they did. Who is of no company reaches no store at all.

A schedule gives each worker the next call of its program. Calls of different companies commute,
as each leaves the stores of the others alone; so a schedule can be thinned out to the calls of
one company without that company noticing. The registry is the one thing they share, and what
matters of it to a company is whether its own store is open.
-/

namespace Marbles.Hosted

open Api (ApiError)
open Db (DbI Scope Tables)
open Hosting (Call Door Host Visitor)
open Registry (CompanyStoreRegistry ForCompany Stores validateCompanyId)
open Registry.CompanyStores (forCompany)

/-! ### The registry -/

/-- The registry of a running server: what is open has a file. The proof is carried along because a
store that is open without a file would have nothing to answer with. -/
structure Running where
  registry : CompanyStoreRegistry Stores
  filed : ∀ c ∈ registry.opened, (registry.data.find c).isSome = true

/-- What the server does not decide when it opens a company: whether the file can be opened, and
the id that is drawn for a new one. -/
structure Opening where
  failure : Option Error := none
  storeId : String := ""

/-- The call of the registry that an opening makes. -/
def Opening.call (opening : Opening) (company : String) : ForCompany :=
  ⟨company, opening.failure, opening.storeId⟩

theorem filed_forCompany {r : CompanyStoreRegistry Stores}
    (h : ∀ c ∈ r.opened, (r.data.find c).isSome = true) (call : ForCompany) :
    ∀ c ∈ (forCompany r call).2.opened, ((forCompany r call).2.data.find c).isSome = true := by
  unfold forCompany
  cases validateCompanyId call.company with
  | error e => exact h
  | ok u =>
      by_cases hopen : call.company ∈ r.opened
      · simp only [hopen, if_true]
        exact h
      · simp only [hopen, if_false]
        cases call.failure with
        | some e => exact h
        | none =>
            intro c hc
            rw [Table.find_insert]
            split
            · rfl
            · rename_i hne
              exact h c ((List.mem_cons.mp hc).resolve_left hne)

theorem filed_modify {r : CompanyStoreRegistry Stores}
    (h : ∀ c ∈ r.opened, (r.data.find c).isSome = true) (company : String)
    (f : Locked Tables → Locked Tables) :
    ∀ c ∈ r.opened, ((r.data.modify company f).find c).isSome = true := by
  intro c hc
  rw [Table.find_modify]
  split
  · rename_i heq
    rw [Option.isSome_map]
    exact heq ▸ h c hc
  · exact h c hc

namespace Running

/-- The database of a company, if it has one. -/
def store (r : Running) (company : String) : Option (Locked Tables) := r.registry.data.find company

/-- `db_for`. -/
def enter (company : String) (opening : Opening) (r : Running) : Result Unit × Running :=
  ((forCompany r.registry (opening.call company)).1,
    ⟨(forCompany r.registry (opening.call company)).2, filed_forCompany r.filed _⟩)

/-- A call of a store that has been opened. -/
def ask (cfg : Db.Config) (company : String) (scope : Scope) (r : Running) :
    Result scope.Ret × Running :=
  match r.store company with
  | none => (.error .abort, r)
  | some s => ((scope.exec cfg s).1,
      ⟨⟨r.registry.data.modify company fun _ => (scope.exec cfg s).2, r.registry.opened⟩,
        filed_modify r.filed company _⟩)

/-- A call of the running server: an opening, or a scope of a company's store. -/
def exec (cfg : Db.Config) : (call : Call String Opening DbI) → Running →
    (Door String Opening (Fault Error) DbI).Resp call × Running
  | .enter company opening => enter company opening
  | .ask company scope => ask cfg company scope

/-- Why a company's store is not opened. -/
def Refuses (company : String) (opening : Opening) (e : Fault Error) : Prop :=
  validateCompanyId company = .error e ∨ ∃ failure, opening.failure = some failure ∧
    e = .fail failure

variable {cfg : Db.Config} {r : Running} {company : String} {opening : Opening}

theorem enter_ok (h : (enter company opening r).1 = .ok ()) :
    (enter company opening r).2.store company =
      some ((r.store company).getD (Db.opened opening.storeId)) := by
  change (forCompany r.registry (opening.call company)).1 = .ok () at h
  show (forCompany r.registry (opening.call company)).2.data.find company = _
  unfold forCompany at h ⊢
  cases hvalid : validateCompanyId (opening.call company).company with
  | error e =>
      rw [hvalid] at h
      cases h
  | ok u =>
      by_cases hopen : (opening.call company).company ∈ r.registry.opened
      · simp only [hopen, if_true]
        obtain ⟨s, hs⟩ := Option.isSome_iff_exists.mp (r.filed _ hopen)
        show r.registry.data.find company = some ((r.registry.data.find company).getD _)
        rw [show r.registry.data.find company = some s from hs, Option.getD_some]
      · simp only [hvalid, hopen, if_false] at h ⊢
        cases hfailure : (opening.call company).failure with
        | some e =>
            rw [hfailure] at h
            cases h
        | none => exact (Table.find_insert ..).trans (if_pos rfl)

theorem enter_error {e : Fault Error} (h : (enter company opening r).1 = .error e) :
    Refuses company opening e ∧ (enter company opening r).2.store company =
      r.store company := by
  change (forCompany r.registry (opening.call company)).1 = .error e at h
  show _ ∧ (forCompany r.registry (opening.call company)).2.data.find company = _
  unfold forCompany at h ⊢
  cases hvalid : validateCompanyId (opening.call company).company with
  | error e' =>
      rw [hvalid] at h
      cases h
      exact ⟨Or.inl hvalid, rfl⟩
  | ok u =>
      by_cases hopen : (opening.call company).company ∈ r.registry.opened
      · simp only [hvalid, hopen, if_true] at h
        cases h
      · simp only [hvalid, hopen, if_false] at h ⊢
        cases hfailure : (opening.call company).failure with
        | some failure =>
            rw [hfailure] at h
            cases h
            exact ⟨Or.inr ⟨failure, hfailure, rfl⟩, rfl⟩
        | none =>
            rw [hfailure] at h
            cases h

theorem ask_store {scope : Scope} {s : Locked Tables} (h : r.store company = some s) :
    (ask cfg company scope r).1 = (scope.exec cfg s).1 ∧
      (ask cfg company scope r).2.store company = some (scope.exec cfg s).2 := by
  have hfind : r.registry.data.find company = some s := h
  have hask : ask cfg company scope r = ((scope.exec cfg s).1,
      ⟨⟨r.registry.data.modify company fun _ => (scope.exec cfg s).2, r.registry.opened⟩,
        filed_modify r.filed company _⟩) := by
    unfold ask
    rw [h]
  rw [hask]
  refine ⟨rfl, ?_⟩
  show (r.registry.data.modify company _).find company = _
  rw [Table.find_modify_self, hfind, Option.map_some]

theorem frame {call : Call String Opening DbI} (h : company ≠ call.key) :
    (exec cfg call r).2.store company = r.store company := by
  cases call with
  | enter other opening =>
      show (forCompany r.registry (opening.call other)).2.data.find company = _
      unfold forCompany
      split
      · rfl
      · split
        · rfl
        · split
          · rfl
          · exact Table.find_insert_ne h _
  | ask other scope =>
      show (ask cfg other scope r).2.store company = _
      unfold ask
      split
      · rfl
      · exact Table.find_modify_ne h _

end Running

/-- The registry as a host: every company has its own database. -/
def host (cfg : Db.Config) : Host String Opening (Fault Error) DbI (Locked Tables) Running where
  exec := Running.exec cfg
  component := Scope.exec cfg
  room := fun company r => r.store company
  fresh := fun opening => Db.opened opening.storeId
  refuses := Running.Refuses
  enter_ok := Running.enter_ok
  enter_error := Running.enter_error
  ask_room := Running.ask_store
  frame := Running.frame

/-! ### Requests -/

/-- What a route asks of a store, and what the store does not decide itself. The body of a request
is parsed by then; what remains are the parameters. -/
inductive Endpoint where
  | write (request : Api.Request)
  | projectsList
  | projectsMove (project : String) (folder : Option String)
  | foldersList
  | foldersCreate (folder : Folder)
  | issuesGet (id : String)
  | issuesList (project : Option String) (all : Bool) (id : Option String)
  | issuesReady (project : Option String)
  | plansShow (plan : String)
  | plansGantt (plan : String)
  | plansReady (plan : String)
  | plansCreate (plan : Plan.ResolvedPlan) (draws : String → List String)
  | viewsDashboard (body : Report.ViewsDashboardBody)
  | viewsScrum (scope : Report.ViewScope) (generatedAt : Int)
  | viewsGantt (body : Report.ViewsGanttBody)
  | historyGet (id : String)
  | issuesImport (project : String) (rows : List Issue) (clock : Import.ClockRead → Int)
  | stats
  | metrics

/-- A board with what it was made for. -/
structure ScrumView where
  schema : String := "marbles.view.scrum.v1"
  generatedAt : Int
  scope : Report.ViewScope
  board : Report.ScrumBoard

/-- The body of a successful response. -/
inductive Answer where
  | written (response : Api.Response)
  | projects (projects : List Report.ProjectInfo)
  | moved (project : String) (folder : Option String)
  | folders (view : FolderView)
  | slug (slug : String)
  | issue (issue : Issue)
  | issues (issues : List Issue)
  | plan (view : Plan.PlanView)
  | chart (gantt : Plan.Gantt)
  | ready (view : Plan.ReadyView)
  | created (report : Plan.CreateReport)
  | dashboard (dashboard : Report.Dashboard)
  | scrum (view : ScrumView)
  | gantt (view : Plan.GanttView)
  | history (events : List HistoryEvent)
  | imported (report : Import.Report)
  | stats (stats : Json.Value)
  | text (text : String)

/-- A program over the store whose errors are texts. -/
def texts {α : Type} (f : String → ApiError) (m : ExceptT (Fault String) (Prog DbI) α) :
    Api.ApiM α := ExceptT.adapt (Fault.map f) m

/-- A view of a plan that has been read from the store. -/
def planView {α : Type} (plan : String) (view : Plan.PlanGraph → Result α) : Api.ApiM α :=
  Api.store do Db.liftResult (view (← Plan.load plan))

/-- The board of a scope. Cards count blockers among all issues, not only those of the scope. -/
def viewsScrum (scope : Report.ViewScope) (generatedAt now : Int) : Db.DbM ScrumView := do
  let all ← Db.call (.list none true none)
  let projects ← Report.viewProjects
  pure { generatedAt, scope, board := Report.scrum (Report.scopeIssues all projects scope) all now }

/-- The handler of a route, once it has its store. Charts are drawn as the build of the server draws
them. -/
def Endpoint.handle (mode : Overflow) (cfg : Db.Config) (principal : Principal) (now : Int) :
    Endpoint → Api.ApiM Answer
  | .write request => .written <$> Api.handle cfg ⟨principal, now, request⟩
  | .projectsList => .projects <$> Api.store Report.viewProjects
  | .projectsMove project folder => do
      Api.store (Db.call (.setProjectFolder project folder now))
      pure (.moved project folder)
  | .foldersList => .folders <$> Api.store (Db.call .folderView)
  | .foldersCreate folder => do
      Api.store (Db.ensureFolder folder now)
      pure (.slug folder.slug)
  | .issuesGet id => .issue <$> Api.store (Db.get id)
  | .issuesList project all id => .issues <$> Api.store (Db.call (.list project all id))
  | .issuesReady project => .issues <$> Api.store (Db.ready project now)
  | .plansShow plan => .plan <$> planView plan Plan.PlanGraph.view
  | .plansGantt plan => .chart <$> planView plan fun graph => Plan.ganttI64 mode graph now
  | .plansReady plan => .ready <$> planView plan fun graph => Plan.ready graph now
  | .plansCreate plan draws => .created <$>
      texts (fun text => .db (.bad text)) (Plan.create cfg plan draws now principal.name)
  | .viewsDashboard body => .dashboard <$> Api.store (Report.viewsDashboard mode body now)
  | .viewsScrum scope generatedAt => .scrum <$> Api.store (Hosted.viewsScrum scope generatedAt now)
  | .viewsGantt body => .gantt <$> Api.store (Report.viewsGantt mode body now)
  | .historyGet id => .history <$> Api.store (Db.call (.history id))
  | .issuesImport project rows clock => do
      Api.store (Db.call (.ensureProject project s!"unhosted/{project}" project now))
      .imported <$> texts (.status 400) (Import.«import» cfg project clock rows)
  | .stats => .stats <$> Api.store (Db.call .stats)
  | .metrics => .text <$> Api.store (Db.call (.prometheusMetrics now))

/-- What is refused before a store is asked for. These checks need the caller only, so no store is
opened for a request they refuse. -/
def Endpoint.barred (principal : Principal) : Endpoint → Option ApiError
  | .write (.claimsSweep _) =>
      if principal.kind ≠ .human then
        some (Api.forbidden "only a human principal may sweep claims")
      else none
  | .issuesImport .. =>
      if principal.kind ≠ .human then
        some (Api.forbidden "only a human principal may import a tracker")
      else none
  | _ => none

/-- A request as it comes in: its header and body, the time, and what the trust roots and the files
are when they are asked. -/
structure Incoming where
  authorization : Option String
  tokenDir : Auth.Node
  jwks : Bool → Option (List Jwk)
  opening : Opening
  now : Int
  endpoint : Endpoint

section Requests

variable (mode : Overflow) (lib : Auth.Jsonwebtoken) (config : AuthConfig) (cfg : Db.Config)

/-- `authenticate`: the token files come before the issuer. -/
def authenticate (req : Incoming) (bearer : Option String) : Option TenantPrincipal :=
  (bearer.map trim).bind fun token =>
    if token = "" then none
    else (Auth.staticToken req.tokenDir token).or
      (if config.oidcIssuer.isSome then Auth.oidc lib config req.jwks token else none)

/-- `require_principal`. -/
def requirePrincipal (req : Incoming) : Except ApiError TenantPrincipal :=
  match authenticate lib config req (req.authorization.bind (Jsonl.stripPrefix "Bearer ")) with
  | some principal => .ok principal
  | none => .error (.status 401 "unknown or missing credential")

/-- The company a principal reaches. -/
def companyOf (principal : TenantPrincipal) : Except ApiError String :=
  match principal.companyId with
  | some company => .ok company
  | none => .error (.status 403 "credential is not scoped to an FPL Auth company")

/-- The request up to the call of `for_company`: who makes it, and for which company. -/
def admission (req : Incoming) : Except ApiError (Principal × String) := do
  let principal ← requirePrincipal lib config req
  match req.endpoint.barred principal.toPrincipal with
  | some e => .error e
  | none => return (principal.toPrincipal, ← companyOf principal)

/-- The worker of a request. -/
def worker (req : Incoming) : Visitor String Opening (Fault Error) DbI (Outcome ApiError Answer) :=
  match admission lib config req with
  | .error e => .away (.error (.fail e))
  | .ok (principal, company) => .enters company req.opening (fun e => .error (e.map .db))
      (req.endpoint.handle mode cfg principal req.now).run

/-! ### All companies at once -/

variable {ι : Type} [DecidableEq ι]

/-- The server after its workers have taken turns. -/
def serve (requests : ι → Incoming) (schedule : List ι) (r : Running) :
    System ι (Door String Opening (Fault Error) DbI) Running (Outcome ApiError Answer) :=
  System.run (Running.exec cfg) schedule
    (System.init r fun i => (worker mode lib config cfg (requests i)).prog)

/-- A server with one store and no other requests than these. -/
def ownServer (requests : ι → Incoming) (turns : List ι) (s : Locked Tables) :
    System ι DbI (Locked Tables) (Outcome ApiError Answer) :=
  System.run (Scope.exec cfg) turns
    (System.init s fun i => (worker mode lib config cfg (requests i)).inner)

/-- The request is the company's. -/
def Of (company : String) (req : Incoming) : Prop :=
  ∃ principal, admission lib config req = .ok (principal, company)

/-- The company's store could not be opened for the request. -/
def Refused (company : String) (req : Incoming) (answer : Outcome ApiError Answer) : Prop :=
  ∃ e, Running.Refuses company req.opening e ∧ answer = .error (e.map .db)

/-! #### Whose the workers are -/

variable {mode lib config cfg} {req : Incoming} {company : String}

theorem worker_enters {opening : Opening} {refused : Fault Error → Outcome ApiError Answer}
    {p : Prog DbI (Outcome ApiError Answer)}
    (h : worker mode lib config cfg req = .enters company opening refused p) :
    Of lib config company req ∧ opening = req.opening ∧ refused = fun e => .error (e.map .db) := by
  unfold worker at h
  cases hadmission : admission lib config req with
  | error e =>
      rw [hadmission] at h
      cases h
  | ok admitted =>
      rw [hadmission] at h
      cases h
      exact ⟨⟨admitted.1, hadmission⟩, rfl, rfl⟩

theorem for_worker : (worker mode lib config cfg req).For company ↔ Of lib config company req := by
  constructor
  · intro hfor
    cases hworker : worker mode lib config cfg req with
    | away a =>
        rw [hworker] at hfor
        exact hfor.elim
    | enters company' opening refused p =>
        rw [hworker] at hfor
        obtain rfl : company' = company := hfor
        exact (worker_enters hworker).1
  · rintro ⟨principal, hadmission⟩
    rw [worker, hadmission]
    rfl

variable {requests : ι → Incoming} {i : ι} {answer : Outcome ApiError Answer}

omit [DecidableEq ι] in
theorem refused_of_host
    (h : (host cfg).Refused (fun i => worker mode lib config cfg (requests i)) i answer)
    (hof : Of lib config company (requests i)) : Refused company (requests i) answer := by
  obtain ⟨company', opening, refused, p, e, hworker, hrefuses, rfl⟩ := h
  obtain ⟨⟨principal', hadmission'⟩, rfl, rfl⟩ := worker_enters hworker
  obtain ⟨principal, hadmission⟩ := hof
  obtain rfl : company' = company :=
    (Prod.mk.inj (Except.ok.inj (hadmission'.symm.trans hadmission))).2
  exact ⟨e, hrefuses, rfl⟩

/-- However the workers of all companies interleave, a company's store and the answers to its
requests are those of a server that has one store, the company's, and gets no other requests. Who is
stopped before a company is known is answered at once and reaches no store. -/
theorem companies_alone (mode : Overflow) (lib : Auth.Jsonwebtoken) (config : AuthConfig)
    (cfg : Db.Config) (requests : ι → Incoming) (schedule : List ι) (r : Running) :
    let w := serve mode lib config cfg requests schedule r
    (∀ i e, admission lib config (requests i) = .error e → w.Returned i (.error (.fail e))) ∧
      ∀ company, let ofCompany := fun i => Of lib config company (requests i)
        (w.shared.store company = none → r.store company = none ∧
          ∀ i answer, ofCompany i → w.Returned i answer → Refused company (requests i) answer) ∧
        ∀ s, w.shared.store company = some s → ∃ s₀ turns,
          (r.store company = some s₀ ∨ r.store company = none ∧ ∃ i, ofCompany i ∧
            s₀ = Db.opened (requests i).opening.storeId) ∧
          turns.Sublist schedule ∧ (∀ i ∈ turns, ofCompany i) ∧
          s = (ownServer mode lib config cfg requests turns s₀).shared ∧
          ∀ i answer, ofCompany i → w.Returned i answer →
            (ownServer mode lib config cfg requests turns s₀).Returned i answer ∨
              Refused company (requests i) answer := by
  intro w
  constructor
  · intro i e hadmission
    have hstart : ((System.init r fun i =>
        (worker mode lib config cfg (requests i)).prog).threads i).prog =
          .ret (.error (.fail e)) := by
      show (worker mode lib config cfg (requests i)).prog = _
      rw [worker, hadmission]
      rfl
    exact System.returned_run hstart schedule
  · intro company ofCompany
    have halone := Host.alone_run (host cfg)
      (fun i => worker mode lib config cfg (requests i)) company r schedule
    -- Either nobody of the company got in, or its store is the one that its own turns made.
    rcases halone with ⟨hnone, hfirst, hout⟩ | ⟨s₀, turns, hstart, hsub, hturns, hstands⟩
    · refine ⟨fun _ => ⟨hfirst, fun i answer hof hreturned => ?_⟩, fun s hs => ?_⟩
      · exact refused_of_host
          ((hout i (for_worker.mpr hof)).refused (for_worker.mpr hof) hreturned) hof
      · rw [show w.shared.store company = none from hnone] at hs
        cases hs
    · have hstore : w.shared.store company =
          some (ownServer mode lib config cfg requests turns s₀).shared := hstands.room
      refine ⟨fun hnone => ?_, fun s hs => ⟨s₀, turns, ?_, hsub, fun i hi => ?_, ?_, ?_⟩⟩
      · rw [hstore] at hnone
        cases hnone
      · rcases hstart with hfirst | ⟨hfirst, i, opening, refused, p, hworker, rfl⟩
        · exact Or.inl hfirst
        · obtain ⟨hof, rfl, -⟩ := worker_enters hworker
          exact Or.inr ⟨hfirst, i, hof, rfl⟩
      · exact for_worker.mp (hturns i hi)
      · exact (Option.some.inj (hstore.symm.trans hs)).symm
      · intro i answer hof hreturned
        rcases hstands.returned (for_worker.mpr hof) hreturned with hown | hrefused
        · exact Or.inl hown
        · exact Or.inr (refused_of_host hrefused hof)

end Requests

end Marbles.Hosted
