import Marbles.Adapter.InStep
import Marbles.Db.Claims

/-!
# Parity of the adapter and the local store

The two stores start with the same projects and are given the same calls. They report the
same issues after every call, unless a claim asks for a lease that walks off the calendar:
the adapter computes the lease under its lock and is poisoned, the local store computes it
before. They keep the same history as long as no edge is added twice or removed without
being there and only known issues are released: the local store records these calls, the
adapter does not.

The runs start from stores that were given the same projects, each with a root of its own: with a
root taken twice the two stores differ from the first call on. For reports, the only call that
parts them is a claim that panics under the lock, and the condition is about that call; for
histories the condition names the calls that only one of them records.
-/

namespace Marbles.Adapter

open Records (Engine Key)
open Db (Tables)

variable {audited : Prop}

/-! ### The same projects -/

/-- A project both stores start with. -/
structure ProjectSpec where
  slug : String
  root : String
  idPrefix : String
  ts : Int

/-- The call that makes sure of a project. -/
def ProjectSpec.ensure (p : ProjectSpec) : Op := .ensureProject p.slug p.root p.idPrefix p.ts

/-- A fresh adapter with these projects. -/
def started (cfg : Config) (projects : List ProjectSpec) : Locked Inner :=
  run cfg (projects.map ProjectSpec.ensure) (opened cfg)

/-- A fresh local store with these projects. -/
def startedDb (cfg : Config) (storeId : String) (projects : List ProjectSpec) : Locked Tables :=
  Db.run cfg.toConfig (projects.map ProjectSpec.ensure) (Db.opened storeId)

/-- Fresh stores are in step. -/
theorem twins_opened (cfg : Config) (storeId : String) :
    Twins audited (opened cfg).state (Tables.empty storeId) := by
  have hdoc : ∀ n key, n ≠ storeMetaKind → (opened cfg).state.doc n key = none := by
    intro n key hn
    exact Engine.current_append_ne fun h => hn h.1
  refine ⟨⟨fun hrow => by simp [Tables.empty] at hrow, fun _ => hdoc _ _ (by decide),
    fun hdata => ?_, fun child parent => ?_, fun hdata => ?_, fun slug => ?_⟩,
    fun _ => ⟨fun hdata => ?_, fun id => ?_⟩⟩
  · rw [hdoc _ _ (by decide)] at hdata
    cases hdata
  · rw [hdoc _ _ (by decide)]
    simp [Tables.empty]
  · rw [hdoc _ _ (by decide)] at hdata
    cases hdata
  · rw [hdoc _ _ (by decide)]
    simp [Tables.empty]
  · rw [hdoc _ _ (by decide)] at hdata
    cases hdata
  · have hevent : ∀ n, (opened cfg).state.eventOf id n = none := by
      intro n
      rw [Inner.eventOf, hdoc _ _ (by decide)]
      rfl
    rw [Inner.trail, List.filterMap_eq_nil_iff.mpr fun n _ => hevent n]
    rfl

/-- Projects with roots of their own are registered by both stores. -/
theorem run_ensure {cfg : Config} {projects : List ProjectSpec} {s : Inner} {t : Tables}
    (h : Twins audited s t) (hs : Db.Sound t) (hroots : (projects.map ProjectSpec.root).Nodup)
    (hfree : ∀ x row, t.project.find x = some row →
      row.root ∉ projects.map ProjectSpec.root) :
    InStep audited (run cfg (projects.map ProjectSpec.ensure) (.new s))
      (Db.run cfg.toConfig (projects.map ProjectSpec.ensure) (.new t)) := by
  induction projects generalizing s t with
  | nil => exact .healthy h hs
  | cons p projects ih =>
      obtain ⟨hroot, hroots⟩ := List.nodup_cons.mp hroots
      obtain ⟨s', project, hrun, htx, htwins, hrows⟩ := @both_ensureProject audited s t h p.slug
        p.root (fun x row hrow heq => hfree x row hrow (heq ▸ List.mem_cons_self ..)) p.idPrefix
          p.ts
      have hmethod : runA (method cfg p.ensure) s = (.ok .unit, s') :=
        (runA_unit Reply.unit _ s).trans (by rw [hrun]; rfl)
      have hop : Db.alone cfg.toConfig p.ensure t = .ok (.unit, { t with project := project }) := by
        change Db.Tx.map (fun _ => Reply.unit) (Db.ensureProjectTx p.slug p.root p.idPrefix p.ts)
            t =
          _
        exact Db.Tx.map_eq_ok.mpr ⟨(), htx, rfl⟩
      have hlease : Db.LeaseDefined cfg.toConfig p.ensure := trivial
      have hstep : step cfg p.ensure (.new s) = .new s' := step_ok hmethod
      have hstep' : Db.step cfg.toConfig p.ensure (.new t) = .new { t with project := project } :=
        stepDb_ok hlease hop
      have hsound : Db.Sound { t with project := project } := by
        have hkept : Db.Sound (Db.step cfg.toConfig p.ensure (.new t)).state := Db.Sound.step hs
        rwa [hstep'] at hkept
      rw [List.map_cons, run, Machine.run_cons, hstep, Db.run, Machine.run_cons, hstep']
      -- the root that was just taken is none of the later ones
      refine ih htwins hsound hroots fun x row hrow hmem => ?_
      rcases hrows x row hrow with heq | hold
      · exact hroot (heq ▸ hmem)
      · exact hfree x row hold (List.mem_cons_of_mem _ hmem)

theorem inStep_started (cfg : Config) (storeId : String) {projects : List ProjectSpec}
    (hroots : (projects.map ProjectSpec.root).Nodup) :
    InStep audited (started cfg projects) (startedDb cfg storeId projects) :=
  run_ensure (twins_opened cfg storeId) (Db.sound_empty storeId) hroots fun x row hrow => by
    simp [Tables.empty] at hrow

/-! ### The same issues -/

/-- A reply without the time of an issue's last update. -/
def replyLifecycle : Reply → Reply
  | .issue issue => .issue (forgetUpdate issue)
  | reply => reply

/-- The ids a reply lists. -/
def replyIds : Reply → List String
  | .issues issues => ids issues
  | _ => []

/-- The two stores report the same issues, up to the time of their last update, and list and offer
the same ids in the same order. Which store is asked does not matter to a client of either. -/
structure Agree (cfg : Config) (l : Locked Inner) (l' : Locked Tables) : Prop where
  get : ∀ id, (perform cfg (.get id) l).1.map replyLifecycle =
    (Db.perform cfg.toConfig (.get id) l').1.map replyLifecycle
  list : ∀ project all onlyId, (perform cfg (.list project all onlyId) l).1.map replyIds =
    (Db.perform cfg.toConfig (.list project all onlyId) l').1.map replyIds
  ready : ∀ project now, (perform cfg (.ready project now) l).1.map replyIds =
    (Db.perform cfg.toConfig (.ready project now) l').1.map replyIds

/-- What a read brings back on a healthy lock. -/
theorem perform_map {cfg : Config} {op : Op} {α : Type} {g : α → Reply} {m : AdapterM α}
    (hop : method cfg op = g <$> m) (s : Inner) :
    (perform cfg op (.new s)).1 = (runA m s).1.map g := by
  rw [perform, Locked.withLock_new_fst, hop, runA_map]

theorem perform_read {cfg : Db.Config} {op : Op} {α : Type} {g : α → Reply}
    {q : Tables → Result α} (hlease : Db.LeaseDefined cfg op)
    (hop : Db.alone cfg op = Db.Tx.map g (Db.Tx.read q)) (t : Tables) :
    (Db.perform cfg op (.new t)).1 = (q t).map g := by
  rw [Db.perform_eq hlease, Locked.finish_fst, hop, Db.Tx.map, Db.Tx.read]
  cases q t <;> rfl

theorem perform_read_poisoned {cfg : Db.Config} {op : Op} {α : Type} {c : Db.Scope}
    {k : c.Ret → Db.DbM α} {g : α → Reply} (hop : Db.method cfg op = g <$> (Db.call c >>= k))
    {l : Locked Tables} (h : l.poisoned = true) : (Db.perform cfg op l).1 = .error .abort := by
  rw [Db.perform, hop, map_eq_pure_bind]
  have hcall : Prog.runE (Db.Scope.exec cfg) (Db.call c >>= k) l = (.error .abort, l) :=
    Prog.runE_bind_error (Db.exec_poisoned h c)
  exact congrArg Prod.fst (Prog.runE_bind_error hcall)

@[simp] theorem map_map {α β γ : Type} (f : α → β) (g : β → γ) (r : Result α) :
    (r.map f).map g = r.map (g ∘ f) := by
  cases r <;> rfl

theorem InStep.agree {cfg : Config} {l : Locked Inner} {l' : Locked Tables}
    (h : InStep audited l l') : Agree cfg l l' := by
  cases h with
  | @healthy s t h hs =>
      refine ⟨fun id => ?_, fun project all onlyId => ?_, fun project now => ?_⟩
      · have hget := congrArg (Except.map Reply.issue) (runA_get h id)
        rw [map_map, map_map] at hget
        rw [perform_map rfl, @perform_read _ (.get id) _ _ _ trivial rfl, map_map, map_map]
        exact hget
      · rw [perform_map rfl, @perform_read _ (.list project all onlyId) _ _ _ trivial rfl, map_map]
        exact runA_list h project all onlyId
      · rw [perform_map rfl, @perform_read _ (.ready project now) _ _ _ trivial rfl, map_map]
        exact runA_ready h hs project now
  | poisoned h h' =>
      have hadapter : ∀ op, (perform cfg op l).1 = .error .abort := fun op => by
        rw [perform, Locked.withLock_poisoned _ h]
      refine ⟨fun id => ?_, fun project all onlyId => ?_, fun project now => ?_⟩
      · rw [hadapter, @perform_read_poisoned _ (.get id) _ (.get id) pure Reply.issue
          (by rw [bind_pure]; rfl) l' h']
      · rw [hadapter, @perform_read_poisoned _ (.list project all onlyId) _
          (.list project all onlyId) pure Reply.issues (by rw [bind_pure]; rfl) l' h']
      · rw [hadapter, @perform_read_poisoned _ (.ready project now) _ (.readyIds project now) _
          Reply.issues rfl l' h']

/-- Whatever calls are made after the same start: as long as no claim asks for a lease that walks
off the calendar, the two stores report the same issues. Such a claim panics on both stores, and on
the adapter under the lock, which then answers nothing any more. -/
theorem lifecycle_agrees (cfg : Config) (storeId : String) {projects : List ProjectSpec}
    (hroots : (projects.map ProjectSpec.root).Nodup) {ops : List Op}
    (hops : ∀ op ∈ ops, Lifecycle op)
    (hlease : ∀ op ∈ ops, Db.LeaseDefined cfg.toConfig op) :
    Agree cfg (run cfg ops (started cfg projects))
      (Db.run cfg.toConfig ops (startedDb cfg storeId projects)) := by
  have hstep : ∀ l l' op, InStep False l l' →
      (Lifecycle op ∧ Db.LeaseDefined cfg.toConfig op) →
        InStep False (step cfg op l) (Db.step cfg.toConfig op l') := fun l l' op h hop =>
    (h.step hop.1 hop.2 False.elim).1
  exact (Machine.simulation (InStep False) hstep ops (inStep_started cfg storeId hroots)
    (Machine.meets_of_forall (fun op hop _ => ⟨hops op hop, hlease op hop⟩) _)).agree

/-- A project with one issue that nobody holds. -/
def oneProject : List ProjectSpec := [⟨"p", "/p", "p", 0⟩]

def unheldIssue : List Op := [.create { id := some "x", project := some "p" } [] 0]

/-- An agent claims the issue and closes it with a receipt. -/
def claimedAndClosed : List Op :=
  unheldIssue ++ [.claim ⟨"x", "a", .agent, none⟩ 5, .close "x" none [.ack "done"] "a" 8]

theorem claimed_and_closed_agrees :
    Agree {} (run {} claimedAndClosed (started {} oneProject))
      (Db.run {} claimedAndClosed (startedDb {} "s" oneProject)) :=
  lifecycle_agrees {} "s" (by decide) (by simp [claimedAndClosed, unheldIssue, Lifecycle])
    (by simp [claimedAndClosed, unheldIssue, Db.LeaseDefined, ClaimRequest.ttl])

/-- A claim whose lease walks off the calendar poisons the adapter, and only the adapter. -/
theorem claim_poisons {cfg : Config} {req : ClaimRequest} {now : Int}
    (h : req.ttl cfg.week cfg.policy now = none) (s : Inner) :
    (step cfg (.claim req now) (.new s)).poisoned = true := by
  have hmethod : runA (method cfg (.claim req now)) s = (.error .abort, s) := by
    change runA (Reply.receipt <$> claim cfg req now) s = _
    rw [runA_map, claim, h]
    rfl
  rw [step, perform, Locked.withLock_healthy _ rfl, Locked.new_state, hmethod]

/-- A human asks for the longest lease there is. -/
def longestClaimed : List Op := unheldIssue ++ [Op.claim Db.longestClaim 10]

/-- After that the local store still offers the issue and the adapter answers nothing. -/
theorem longest_claim_parts :
    (oneProject.map ProjectSpec.root).Nodup ∧ (∀ op ∈ longestClaimed, Lifecycle op) ∧
      ¬ Agree {} (run {} longestClaimed (started {} oneProject))
        (Db.run {} longestClaimed (startedDb {} "s" oneProject)) := by
  refine ⟨by decide, by simp [longestClaimed, unheldIssue, Lifecycle], fun hagree => ?_⟩
  have httl : Db.longestClaim.ttl ({} : Config).week ({} : Config).policy 10 = none :=
    Db.longestClaim_ttl (by decide)
  have hhealthy : (run {} unheldIssue (started {} oneProject)).poisoned = false := by decide +kernel
  -- In the adapter the claim panics under the lock and poisons it; in the local store it panics
  -- before the lock.
  have hpoisoned : (run {} longestClaimed (started {} oneProject)).poisoned = true := by
    rw [run, longestClaimed, Machine.run_append, Machine.run_cons, Machine.run_nil]
    change (step {} _ (run {} unheldIssue (started {} oneProject))).poisoned = true
    rw [Locked.eq_new hhealthy]
    exact claim_poisons httl _
  have hdb : Db.run {} longestClaimed (startedDb {} "s" oneProject) =
      Db.run {} unheldIssue (startedDb {} "s" oneProject) := by
    rw [Db.run, longestClaimed, Machine.run_append, Machine.run_cons, Machine.run_nil, Db.step,
      Db.perform_claim_abort httl]
    rfl
  have hoffered : (Db.perform {} (.ready none 10)
      (Db.run {} unheldIssue (startedDb {} "s" oneProject))).1.isOk = true := by decide +kernel
  have hready := hagree.ready none 10
  rw [perform, Locked.withLock_poisoned _ hpoisoned] at hready
  rw [hdb] at hready
  cases hr : (Db.perform {} (.ready none 10)
      (Db.run {} unheldIssue (startedDb {} "s" oneProject))).1 with
  | ok reply =>
      rw [hr] at hready
      cases hready
  | error e =>
      rw [hr] at hoffered
      cases hoffered

/-! ### The same histories -/

/-- What a call must meet for both stores to record it. It is a condition on the local store alone,
so that it can be checked before the adapter is run. -/
def Recorded (cfg : Config) (l : Locked Tables) (op : Op) : Prop :=
  Lifecycle op ∧ Db.LeaseDefined cfg.toConfig op ∧ SameTrail l.state op

theorem InStep.history {cfg : Config} {l : Locked Inner} {l' : Locked Tables}
    (h : InStep True l l') (id : String) : (perform cfg (.history id) l).1 =
      (Db.perform cfg.toConfig (.history id) l').1 := by
  cases h with
  | @healthy s t h hs =>
      obtain ⟨hnumbered, hsame⟩ := h.trail trivial
      rw [perform_map rfl, @perform_read _ (.history id) _ _ _ trivial rfl,
        (reads_history hnumbered id).eq, hsame]
  | poisoned h h' =>
      rw [perform, Locked.withLock_poisoned _ h, @perform_read_poisoned _ (.history id) _
        (.history id) pure Reply.history (by rw [bind_pure]; rfl) l' h']

/-- Calls that both stores record keep the histories the same. -/
theorem inStep_recorded (cfg : Config) : ∀ {ops : List Op} {l : Locked Inner} {l' : Locked Tables},
    InStep True l l' → Machine.Meets (Db.step cfg.toConfig) (Recorded cfg) ops l' →
      InStep True (run cfg ops l) (Db.run cfg.toConfig ops l') := by
  intro ops l l' h hmeets
  have hstep : ∀ l' l op, InStep True l l' → Recorded cfg l' op →
      InStep True (step cfg op l) (Db.step cfg.toConfig op l') := fun l' l op h hop =>
    (h.step hop.1 hop.2.1 fun _ => hop.2.2).1
  exact Machine.simulation (fun l' l => InStep True l l') hstep ops h hmeets

/-- As long as every call is one that both stores record, each call succeeds on both or on neither,
and every issue has the same history. Which calls these are can be told from the call and the local
store before it, without running the adapter. -/
theorem trails_agree (cfg : Config) (storeId : String) {projects : List ProjectSpec}
    (hroots : (projects.map ProjectSpec.root).Nodup) {ops : List Op}
    (hmeets : Machine.Meets (Db.step cfg.toConfig) (Recorded cfg) ops
      (startedDb cfg storeId projects)) :
    (∀ id, (perform cfg (.history id) (run cfg ops (started cfg projects))).1 =
      (Db.perform cfg.toConfig (.history id)
        (Db.run cfg.toConfig ops (startedDb cfg storeId projects))).1) ∧
    ∀ before op after, ops = before ++ op :: after →
      (perform cfg op (run cfg before (started cfg projects))).1.isOk =
        (Db.perform cfg.toConfig op
          (Db.run cfg.toConfig before (startedDb cfg storeId projects))).1.isOk := by
  have hstart := @inStep_started True cfg storeId projects hroots
  refine ⟨fun id => (inStep_recorded cfg hstart hmeets).history id, fun before op after hops => ?_⟩
  subst hops
  obtain ⟨hbefore, hop, -⟩ := Machine.meets_append.mp hmeets
  exact ((inStep_recorded cfg hstart hbefore).step hop.1 hop.2.1 fun _ => hop.2.2).2 trivial

/-- Two issues and an edge between them, which is added once. -/
def oneEdge : List Op :=
  unheldIssue ++ [.create { id := some "y", project := some "p" } [] 0, .addDep "x" "y" "a" 1]

theorem one_edge_trails_agree :
    (perform {} (.history "x") (run {} oneEdge (started {} oneProject))).1 =
      (Db.perform {} (.history "x") (Db.run {} oneEdge (startedDb {} "s" oneProject))).1 := by
  refine (trails_agree {} "s" (by decide) ?_).1 "x"
  refine ⟨⟨rfl, trivial, trivial⟩, ⟨rfl, trivial, trivial⟩, ⟨trivial, trivial, ?_⟩, trivial⟩
  show ("x", "y") ∉ _
  decide +kernel

/-- The local store records an edge that is added a second time, the adapter does not; and
only the local store releases an issue that is not there. -/
theorem trails_part :
    (perform {} (.history "x") (run {} (oneEdge ++ [.addDep "x" "y" "a" 2])
      (started {} oneProject))).1 ≠
        (Db.perform {} (.history "x") (Db.run {} (oneEdge ++ [.addDep "x" "y" "a" 2])
          (startedDb {} "s" oneProject))).1 ∧
      (perform {} (.release "z" "a" 1) (started {} oneProject)).1.isOk = false ∧
      (Db.perform {} (.release "z" "a" 1) (startedDb {} "s" oneProject)).1.isOk = true := by
  decide +kernel

end Marbles.Adapter
