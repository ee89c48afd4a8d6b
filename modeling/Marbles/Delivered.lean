import Marbles.Api
import Marbles.Db.Closing
import Marbles.Db.Returns

/-!
# Done means delivered

An issue is delivered when it is not closed or has evidence. `close` and `supersede` are
the doors that ask for a receipt, and `close` also asks for its blockers; `update` is a
door that asks for neither. Every request keeps what is delivered delivered, and closes
nothing past an open blocker, as long as no update walks through that door: none asks
for closed without evidence or past a blocker, and none takes the evidence of a closed
issue away.

`update` is left open for the importer, which has to close what was closed elsewhere. The
condition is therefore one on the updates of a run and on the state each of them meets, and not
one on who calls. Each step is inspected scope by scope: `closedIn_of_effect` names the two scopes
that move an issue to closed.
-/

namespace Marbles

namespace Db

/-- Every closed issue has a receipt. -/
def Delivered (t : Tables) : Prop :=
  ∀ id row, t.issue.find id = some row → row.status = .closed → row.evidence ≠ []

/-- The issue is there and closed. -/
def ClosedIn (t : Tables) (id : String) : Prop :=
  ∃ row, t.issue.find id = some row ∧ row.status = .closed

/-- What an update must respect: if the issue is closed afterwards it has evidence, and if it
was not closed before, nothing blocks it. -/
def KeepsDelivery (t : Tables) (id : String) (patch : IssuePatch) : Prop :=
  ∀ row, t.issue.find id = some row → patch.status.getD row.status.asStr = "closed" →
    patch.evidence.getD row.evidence ≠ [] ∧ (row.status ≠ .closed → Unblocked t id)

/-- The updates among the calls respect it. -/
def Respects (t : Tables) : Op → Prop
  | .update id patch _ _ => KeepsDelivery t id patch
  | _ => True

/-! ### What a scope does -/

/-- What a patch makes of the evidence. -/
theorem patch_apply_evidence {patch : IssuePatch} {policy : Policy} {now : Int}
    {issue next : Issue} (h : patch.apply policy now issue = .ok next) :
    next.evidence = patch.evidence.getD issue.evidence := by
  obtain ⟨metadata, reference, rfl, -⟩ := patch.apply_ok h
  unfold IssuePatch.setStatus
  cases patch.status <;> rfl

/-- The status and the evidence of an updated row. -/
theorem write_status_evidence {patch : IssuePatch} {policy : Policy} {now : Int} {t : Tables}
    {id : String} {row : IssueRow} {next : Issue} {status : Status}
    (hnext : patch.apply policy now (t.view id row) = .ok next)
    (hstatus : Status.parse next.status = some status) :
    ((row.write next status).status = .closed ↔ patch.status.getD row.status.asStr = "closed") ∧
      (row.write next status).evidence = patch.evidence.getD row.evidence := by
  refine ⟨?_, patch_apply_evidence hnext⟩
  have heq : status.asStr = patch.status.getD row.status.asStr :=
    (Status.asStr_of_parse hstatus).trans (patch_apply_status hnext)
  rw [← heq]
  exact Status.asStr_eq_closed.symm

/-- The scopes that cannot leave a closed issue without a receipt. -/
def keepsReceipts : Scope → Bool
  | .update .. => false
  | .closeUnchecked _ _ evidence _ _ => !evidence.isEmpty
  | _ => true

/-- The scopes that can move an issue to closed. -/
def mayClose : Scope → Bool
  | .update .. | .closeUnchecked .. => true
  | _ => false

theorem keepsReceipts_of_mayClose {s : Scope} (h : mayClose s = false) :
    keepsReceipts s = true := by
  cases s with
  | update | closeUnchecked => exact absurd h.symm Bool.false_ne_true
  | _ => rfl

/-- The calls that can move an issue to closed. -/
def movesToClosed : Op → Bool
  | .update .. | .close .. | .supersede .. => true
  | _ => false

theorem mayClose_of_enters {op : Op} {c : Scope} (hc : Enters op c)
    (hop : movesToClosed op = false) : mayClose c = false := by
  cases op with
  | update | close | supersede => exact absurd hop.symm Bool.false_ne_true
  | create =>
      obtain ⟨project, available, rfl⟩ := hc
      rfl
  | ready => rcases hc with rfl | ⟨i, rfl⟩ <;> rfl
  | addLabel | removeLabel => rcases hc with rfl | ⟨labels, rfl⟩ <;> rfl
  | claim =>
      obtain ⟨ttl, rfl⟩ := hc
      rfl
  | _ =>
      cases hc
      rfl

theorem Delivered.effect {cfg : Config} {t t' : Tables} {s : Scope} (h : Delivered t)
    (he : Effect cfg t s t') (hs : keepsReceipts s = true) : Delivered t' := by
  intro id row' hrow' hclosed
  cases he.row hrow' with
  | kept hrow | setLabels hrow | addDep hrow | addRemoteDep hrow | claim _ hrow | touch hrow
  | release hrow | sweep hrow =>
      have hdelivered := h id _ hrow
      exact hdelivered hclosed
  | create => cases hclosed
  | update => cases hs
  | closeUnchecked =>
      refine mergeEvidence_ne_nil ?_
      rintro rfl
      cases hs

/-- Only an update and the commit of a close move an issue to closed. -/
theorem closedIn_of_effect {cfg : Config} {t t' : Tables} {s : Scope} {id : String}
    (he : Effect cfg t s t') (hs : mayClose s = false) (h : ClosedIn t' id) : ClosedIn t id := by
  obtain ⟨row', hrow', hclosed⟩ := h
  cases he.row hrow' with
  | kept hrow | setLabels hrow | addDep hrow | addRemoteDep hrow | claim _ hrow | touch hrow
  | release hrow | sweep hrow => exact ⟨_, hrow, hclosed⟩
  | create => cases hclosed
  | update | closeUnchecked => cases hs

/-! ### What a call does -/

/-- An update writes in one scope, on the tables it starts from. -/
theorem step_update (cfg : Config) (id : String) (patch : IssuePatch) (actor : String) (now : Int)
    (s : Locked Tables) :
    Effect cfg s.state (.update id patch actor now)
      (step cfg (.update id patch actor now) s).state := by
  cases hp : s.poisoned with
  | true =>
      rw [step_poisoned hp]
      exact .refl _ _
  | false =>
      rw [Locked.eq_new hp, step, @perform_eq cfg (.update id patch actor now) trivial]
      cases hop : alone cfg (.update id patch actor now) s.state with
      | error e => cases e <;> exact .refl _ _
      | ok p =>
          obtain ⟨reply, t'⟩ := p
          obtain ⟨issue, hupdate, -⟩ := Tx.map_eq_ok.mp hop
          obtain ⟨_, -, hupdate⟩ := Outcome.bind_eq_ok.mp hupdate
          obtain ⟨⟨_, t₁⟩, htx, hread⟩ := Outcome.bind_eq_ok.mp hupdate
          obtain ⟨-, rfl⟩ := Tx.read_eq_ok.mp hread
          obtain ⟨row, next, status, hrow, hnext, hstatus, hi, hd, hpr⟩ := updateTx_ok htx
          exact .update hrow hnext hstatus hi hd hpr

/-- A close that commits has passed the check on the tables it commits to. -/
theorem step_close {cfg : Config} {id : String} {reason : Option String}
    {evidence : List Evidence} {actor : String} {now : Int} {s : Locked Tables}
    (h : step cfg (.close id reason evidence actor now) s ≠ s) :
    Unblocked s.state id ∧
      (step cfg (.close id reason evidence actor now) s).state.issue =
        s.state.issue.modify id fun row => row.close reason evidence now := by
  cases hp : s.poisoned with
  | true => exact absurd (step_poisoned hp) h
  | false =>
      rw [Locked.eq_new hp, step, @perform_eq cfg (.close id reason evidence actor now) trivial]
        at h ⊢
      have hne : alone cfg (.close id reason evidence actor now) s.state ≠ .error .abort :=
        @alone_ne_abort cfg s.state (.close id reason evidence actor now) trivial
      -- A close that changes anything has passed the check of the blockers and written the row.
      cases hop : alone cfg (.close id reason evidence actor now) s.state with
      | error e =>
          rw [hop] at h hne
          cases e with
          | fail e => exact absurd rfl h
          | abort => exact absurd rfl hne
      | ok p =>
          obtain ⟨reply, t'⟩ := p
          obtain ⟨issue, hclose, -⟩ := Tx.map_eq_ok.mp hop
          unfold closeAlone at hclose
          split at hclose
          · cases hclose
          · obtain ⟨_, hcheck, hclose⟩ := Outcome.bind_eq_ok.mp hclose
            obtain ⟨⟨_, t₁⟩, htx, hread⟩ := Outcome.bind_eq_ok.mp hclose
            obtain ⟨-, rfl⟩ := Tx.read_eq_ok.mp hread
            obtain ⟨row, -, rfl⟩ := closeUncheckedTx_ok htx
            exact ⟨checkBlockersQuery_ok hcheck, rfl⟩

/-- A call whose updates respect delivery keeps everything delivered. -/
theorem Delivered.step {cfg : Config} {op : Op} {s : Locked Tables} (h : Delivered s.state)
    (hop : Respects s.state op) : Delivered (step cfg op s).state := by
  have hscopes : (∀ c, Enters op c → keepsReceipts c = true) →
      Delivered (Db.step cfg op s).state := by
    intro hall
    exact @step_invariant cfg op (fun s => Delivered s.state)
      (fun c s hc hs => hs.effect (exec_effect cfg c s) (hall c hc)) s h
  cases op with
  | update id patch actor now =>
      intro k row' hrow' hclosed
      cases (step_update cfg id patch actor now s).row hrow' with
      | kept hrow => exact h k _ hrow hclosed
      | update hrow hnext hstatus =>
          obtain ⟨hst, hev⟩ := write_status_evidence hnext hstatus
          rw [hev]
          exact (hop _ hrow (hst.mp hclosed)).1
  | close id reason evidence actor now =>
      refine hscopes fun c hc => ?_
      rcases hc with rfl | ⟨hevidence, rfl⟩ | rfl
      · rfl
      · simpa [keepsReceipts] using hevidence
      · rfl
  | supersede id replacement actor now =>
      refine hscopes fun c hc => ?_
      rcases hc with ⟨i, rfl⟩ | rfl | ⟨labels, rfl⟩ <;> rfl
  | _ => exact hscopes fun c hc => keepsReceipts_of_mayClose (mayClose_of_enters hc rfl)

/-- A call other than a supersede whose updates respect delivery closes nothing that is
blocked. -/
theorem step_closes_unblocked {cfg : Config} {op : Op} {s : Locked Tables} {id : String}
    (hop : Respects s.state op) (hsupersede : ∀ i r actor now, op ≠ .supersede i r actor now)
    (hbefore : ¬ ClosedIn s.state id) (hafter : ClosedIn (step cfg op s).state id) :
    Unblocked s.state id := by
  have hscopes : (∀ c, Enters op c → mayClose c = false) → Unblocked s.state id := by
    intro hnone
    refine absurd hafter (@step_invariant cfg op (fun s => ¬ ClosedIn s.state id)
      (fun c s hc hs hclosed => hs ?_) s hbefore)
    exact closedIn_of_effect (exec_effect cfg c s) (hnone c hc) hclosed
  -- Only an update, a close and a supersede can close an issue; of the update the hypothesis says
  -- that it respects the blockers.
  cases op with
  | update i patch actor now =>
      obtain ⟨row', hrow', hclosed⟩ := hafter
      cases (step_update cfg i patch actor now s).row hrow' with
      | kept hrow => exact absurd ⟨_, hrow, hclosed⟩ hbefore
      | update hrow hnext hstatus =>
          obtain ⟨hst, -⟩ := write_status_evidence hnext hstatus
          exact (hop _ hrow (hst.mp hclosed)).2 fun hc => hbefore ⟨_, hrow, hc⟩
  | close i reason evidence actor now =>
      by_cases hsame : step cfg (.close i reason evidence actor now) s = s
      · rw [hsame] at hafter
        exact absurd hafter hbefore
      · obtain ⟨hunblocked, hissue⟩ := step_close hsame
        obtain ⟨row', hrow', hclosed⟩ := hafter
        rw [hissue, Table.find_modify] at hrow'
        split at hrow'
        · rename_i hid
          rwa [hid]
        · exact absurd ⟨row', hrow', hclosed⟩ hbefore
  | supersede i r actor now => exact absurd rfl (hsupersede i r actor now)
  | _ => exact hscopes fun c hc => mayClose_of_enters hc rfl

end Db

namespace Api

open Db (Tables Delivered ClosedIn Unblocked KeepsDelivery opened)

/-- An update request respects delivery, and so does every other one. -/
def KeepsReceipts (t : Tables) (r : Authenticated) : Prop :=
  match r.request with
  | .issuesUpdate id patch => KeepsDelivery t id patch
  | _ => True

/-- The request closes nothing past an open blocker, unless it is a supersede. -/
def ClosesUnblocked (cfg : Db.Config) (s : Locked Tables) (r : Authenticated) : Prop :=
  (∀ id replacement, r.request ≠ .issuesSupersede id replacement) →
    ∀ id, ¬ ClosedIn s.state id → ClosedIn (step cfg r s).state id → Unblocked s.state id

theorem KeepsReceipts.respects {t : Tables} {r : Authenticated} (h : KeepsReceipts t r) :
    Db.Respects t r.op := by
  obtain ⟨principal, now, request⟩ := r
  cases request with
  | issuesUpdate id patch => exact h
  | _ => exact trivial

theorem step_delivered {cfg : Db.Config} {s : Locked Tables} {r : Authenticated}
    (h : Delivered s.state) (hr : KeepsReceipts s.state r) : Delivered (step cfg r s).state := by
  rcases step_state r s with hstep | hstep
  · rw [hstep]
    exact h.step hr.respects
  · rw [hstep]
    exact h

theorem step_closes {cfg : Db.Config} {s : Locked Tables} {r : Authenticated}
    (hr : KeepsReceipts s.state r) : ClosesUnblocked cfg s r := by
  intro hsupersede id hbefore hafter
  rcases step_state r s with hstep | hstep
  · rw [hstep] at hafter
    refine Db.step_closes_unblocked hr.respects (fun i replacement actor now hop => ?_) hbefore
      hafter
    obtain ⟨principal, now', request⟩ := r
    cases request with
    | issuesSupersede i' r' => exact hsupersede i' r' rfl
    | _ => exact nomatch hop
  · rw [hstep] at hafter
    exact absurd hafter hbefore

/-- In every sequence of requests whose updates respect delivery, from any principals: every closed
issue has evidence, and no request other than a supersede has closed an issue past an open blocker.
The condition is on updates alone: every other request is stopped by the gates of the store. -/
theorem done_means_delivered {cfg : Db.Config} {storeId : String} {requests : List Authenticated}
    (h : Machine.Meets (step cfg) (fun s r => KeepsReceipts s.state r) requests (opened storeId)) :
    Delivered (run cfg requests (opened storeId)).state ∧
      Machine.Meets (step cfg) (ClosesUnblocked cfg) requests (opened storeId) := by
  constructor
  · refine Machine.invariant_of_meets (fun s : Locked Tables => Delivered s.state)
      (fun s r hs hr => step_delivered hs hr) requests ?_ h
    intro id row hrow
    exact absurd hrow (by simp [opened, Db.Tables.empty])
  · exact h.mono fun s r hr => step_closes hr

/-! ### The door without a receipt -/

/-- The agent that makes all the requests below. -/
def me : Principal := ⟨.agent, "me"⟩

/-- Two issues, `a` waiting for `b`. -/
def setUp : List Authenticated :=
  [⟨me, 0, .projectsEnsure "p" "/p" "p"⟩,
    ⟨me, 1, .issuesCreate { id := some "a", project := some "p" } []⟩,
    ⟨me, 1, .issuesCreate { id := some "b", project := some "p" } []⟩,
    ⟨me, 2, .depsAdd "a" "b"⟩]

/-- An update closes an issue without evidence and past its open dependency. -/
theorem update_closes_undelivered :
    let before := run {} setUp (opened "s")
    let after := step {} ⟨me, 3, .issuesUpdate "a" { status := some "closed" }⟩ before
    (before.state.issue.find "a").map (·.status) = some .«open» ∧
      (after.state.issue.find "a").map (fun row => (row.status, row.evidence)) =
        some (.closed, []) ∧
      before.state.DependsOn "a" "b" ∧ before.state.isOpen "b" = true := by
  decide

/-- Closing both issues in order keeps everything delivered. -/
theorem close_in_order_delivers :
    Delivered (run {} (setUp ++ [⟨me, 3, .issuesClose "b" none [] none none (some "done")⟩,
        ⟨me, 4, .issuesClose "a" none [] (some "pr/1") none none⟩]) (opened "s")).state ∧
      Machine.Meets (step {}) (ClosesUnblocked {})
        (setUp ++ [⟨me, 3, .issuesClose "b" none [] none none (some "done")⟩,
          ⟨me, 4, .issuesClose "a" none [] (some "pr/1") none none⟩]) (opened "s") :=
  done_means_delivered ⟨trivial, trivial, trivial, trivial, trivial, trivial, trivial⟩

end Api

end Marbles
