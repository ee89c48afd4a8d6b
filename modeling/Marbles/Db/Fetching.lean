import Marbles.Db.Closing
import Marbles.Db.Requeue

/-!
# Selecting and fetching

`ready` selects the ids in one lock scope and reads every issue in one of its own.
`ready_consistent` says when what it returns is ready all the same: no other caller's
scope makes an issue unready that is selected and not fetched yet, and no scope has
panicked while it held the connection.

`Consistent` says what the caller may rely on at each of its calls: every id that is selected and
not fetched yet is still ready. The scopes of others are checked against one list of the ways to
make an issue unready. An edit of labels is not among them, though it changes the row.
-/

namespace Marbles.Db

/-- The issue satisfies the conditions of `ready` as it stands. -/
structure ReadyIssue (now : Int) (issue : Issue) : Prop where
  status : issue.status = "open"
  available : issue.availableAt.all (· ≤ now) = true
  unblocked : issue.dependencyCount = 0
  free : issue.assignee = none ∨ issue.expiresAt.any (· ≤ now) = true

/-- The issue is stored and eligible. -/
def ReadyRow (t : Tables) (now : Int) (id : String) : Prop :=
  ∃ row, t.issue.find id = some row ∧ eligible t none now id row = true

theorem eligible_iff {t : Tables} {project : Option String} {now : Int} {id : String}
    {row : IssueRow} : eligible t project now id row = true ↔
      row.status = .«open» ∧ row.availableAt.all (· ≤ now) = true ∧
        matchesScope project row.project = true ∧ Unblocked t id ∧
        (row.assignee = none ∨ row.expiresAt.any (· ≤ now) = true) := by
  unfold eligible
  rw [unblocked_iff, Bool.and_eq_true, Bool.and_eq_true, Bool.and_eq_true, Bool.and_eq_true,
    Bool.or_eq_true, decide_eq_true_iff, List.isEmpty_iff, Option.isNone_iff_eq_none]
  tauto

/-- An eligible row is reported as a ready issue. -/
theorem readyIssue_view {t : Tables} {now : Int} {id : String} {row : IssueRow}
    (h : eligible t none now id row = true) : ReadyIssue now (t.view id row) := by
  obtain ⟨hstatus, havailable, -, hunblocked, hfree⟩ := eligible_iff.mp h
  refine ⟨?_, havailable, ?_, hfree⟩
  · rw [Tables.view, hstatus]
    rfl
  · rw [Tables.view, unblocked_iff.mp hunblocked]
    rfl

/-! ### What makes an issue unready -/

/-- The scopes after which a ready issue is not ready any more. All others leave a ready issue
ready, so a fetch after the query finds it as it was announced. -/
def Unreadies (cfg : Config) (t : Tables) (now : Int) (id : String) : Scope → Prop
  | .dropProject slug => ∃ row, t.issue.find id = some row ∧ row.project = slug
  | .update i patch actor at_ => OpensBlocker t id (.update i patch actor at_) ∨
      i = id ∧ ((∃ status ∈ patch.status, status ≠ "open") ∨
        ∃ row, t.issue.find id = some row ∧ now < patch.available cfg.policy at_ (t.view id row))
  | .addDep child parent actor at_ => OpensBlocker t id (.addDep child parent actor at_)
  | .claim req ttl at_ => req.id = id ∧ now < wrapI64 (at_ + ttl)
  | .touch i assignee at_ => i = id ∧ ∃ row ttl, t.issue.find id = some row ∧
      row.assignee = some assignee ∧
      touchTtl (ActorKind.parse (row.actorKind.getD "agent")) cfg.week cfg.policy at_ = some ttl ∧
      now < wrapI64 (at_ + ttl)
  | .closeUnchecked i .. => i = id
  | _ => False

/-- A patch stores the time it says, or a deferred one. -/
theorem patch_apply_available {patch : IssuePatch} {policy : Policy} {now : Int}
    {issue next : Issue} (h : patch.apply policy now issue = .ok next) :
    next.availableAt = some (patch.available policy now issue) := by
  obtain ⟨metadata, reference, rfl, -⟩ := patch.apply_ok h
  rfl

/-- An update of one row that stays offered. -/
theorem ReadyRow.modify {t t' : Tables} {now : Int} {id k : String} {f : IssueRow → IssueRow}
    (h : ReadyRow t now id) (hunblocked : Unblocked t' id)
    (hissue : t'.issue = t.issue.modify k f)
    (hf : ∀ row, k = id → t.issue.find id = some row → eligible t none now id row = true →
      (f row).status = .«open» ∧ (f row).availableAt.all (· ≤ now) = true ∧
        ((f row).assignee = none ∨ (f row).expiresAt.any (· ≤ now) = true)) :
    ReadyRow t' now id := by
  obtain ⟨row, hrow, heligible⟩ := h
  obtain ⟨hstatus, havailable, -, -, hfree⟩ := eligible_iff.mp heligible
  by_cases hk : k = id
  · obtain ⟨hstatus', havailable', hfree'⟩ := hf row hk hrow heligible
    refine ⟨f row, ?_, eligible_iff.mpr ⟨hstatus', havailable', rfl, hunblocked, hfree'⟩⟩
    rw [hissue, Table.find_modify, if_pos hk.symm, hrow]
    rfl
  · refine ⟨row, ?_, eligible_iff.mpr ⟨hstatus, havailable, rfl, hunblocked, hfree⟩⟩
    rw [hissue, Table.find_modify, if_neg (Ne.symm hk)]
    exact hrow

/-- The same row. -/
theorem ReadyRow.kept {t t' : Tables} {now : Int} {id : String} (h : ReadyRow t now id)
    (hunblocked : Unblocked t' id)
    (hfind : ∀ row, t.issue.find id = some row → t'.issue.find id = some row) :
    ReadyRow t' now id := by
  obtain ⟨row, hrow, heligible⟩ := h
  obtain ⟨hstatus, havailable, -, -, hfree⟩ := eligible_iff.mp heligible
  exact ⟨row, hfind row hrow, eligible_iff.mpr ⟨hstatus, havailable, rfl, hunblocked, hfree⟩⟩

theorem ReadyRow.unblocked {t : Tables} {now : Int} {id : String} (h : ReadyRow t now id) :
    Unblocked t id := by
  obtain ⟨row, -, heligible⟩ := h
  exact (eligible_iff.mp heligible).2.2.2.1

/-- A heartbeat renews the lease to the time that its kind gives it. -/
theorem ReadyRow.touch {cfg : Config} {l : Locked Tables} {now at_ : Int} {id i assignee : String}
    (h : ReadyRow l.state now id) (hwf : WellFormed l.state)
    (hs : ¬ Unreadies cfg l.state now id (.touch i assignee at_)) :
    ReadyRow ((Scope.touch i assignee at_).exec cfg l).2.state now id := by
  have heffect := exec_effect cfg (.touch i assignee at_) l
  have hunblocked := h.unblocked.effect hwf heffect nofun
  rcases Locked.tx_state (touchTx cfg i assignee at_) l with hsame | ⟨expiry, t', htouch, hstate⟩
  · exact h.kept hunblocked fun row hrow => hsame ▸ hrow
  · obtain ⟨old, ttl, hold, hholder, httl, -, rfl⟩ := touchTx_ok htouch
    have hissue : ((Scope.touch i assignee at_).exec cfg l).2.state.issue =
        l.state.issue.modify i fun row =>
          { row with expiresAt := some (wrapI64 (at_ + ttl)), updatedAt := at_ } :=
      congrArg Tables.issue hstate
    refine h.modify hunblocked hissue fun row hid hrow heligible => ?_
    subst hid
    obtain ⟨hstatus, havailable, -, -, -⟩ := eligible_iff.mp heligible
    refine ⟨hstatus, havailable, Or.inr ?_⟩
    exact decide_eq_true (Int.not_lt.mp fun hlt => hs ⟨rfl, old, ttl, hold, hholder, httl, hlt⟩)

/-- An opened blocker makes an issue unready. -/
theorem unreadies_of_opensBlocker {cfg : Config} {t : Tables} {now : Int} {id : String}
    {s : Scope} (h : OpensBlocker t id s) : Unreadies cfg t now id s := by
  cases s with
  | update => exact Or.inl h
  | addDep => exact h
  | _ => exact h.elim

/-- Every other scope leaves a ready issue ready. -/
theorem ReadyRow.effect {cfg : Config} {t t' : Tables} {now : Int} {id : String} {s : Scope}
    (h : ReadyRow t now id) (hwf : WellFormed t) (he : Effect cfg t s t')
    (hs : ¬ Unreadies cfg t now id s) (htouch : ∀ i assignee at_, s ≠ .touch i assignee at_) :
    ReadyRow t' now id := by
  have hunblocked : Unblocked t' id :=
    h.unblocked.effect hwf he fun hopens => hs (unreadies_of_opensBlocker hopens)
  obtain ⟨row, hrow, heligible⟩ := h
  obtain ⟨hopen, havailable, -, -, hfree⟩ := eligible_iff.mp heligible
  have hdrop : s ≠ .dropProject row.project := by
    rintro rfl
    exact hs ⟨row, hrow, rfl⟩
  obtain ⟨row', hrow'⟩ := he.stays hrow hdrop
  have hoffered : row'.status = .«open» ∧ row'.availableAt.all (· ≤ now) = true ∧
      (row'.assignee = none ∨ row'.expiresAt.any (· ≤ now) = true) := by
    -- What a scope may do to a row that stays: the ones that would take it out of the queue are
    -- those that Unreadies names.
    cases he.row hrow' with
    | create hnone =>
        rw [hrow] at hnone
        cases hnone
    | kept hold | setLabels hold | addDep hold | addRemoteDep hold =>
        obtain rfl := Option.some.inj (hrow.symm.trans hold)
        exact ⟨hopen, havailable, hfree⟩
    | @update patch _ at_ _ next _ hold hnext hstatus =>
        obtain rfl := Option.some.inj (hrow.symm.trans hold)
        have hquiet := not_or.mp (not_and.mp (not_or.mp hs).2 rfl)
        refine ⟨?_, ?_, hfree⟩
        · rcases updated_status hnext hstatus with ⟨-, hsame⟩ | hpatch
          · exact hsame.trans hopen
          · by_contra hne
            exact hquiet.1 ⟨_, hpatch, fun heq => hne (Status.asStr_eq_open.mp heq)⟩
        · change next.availableAt.all (· ≤ now) = true
          rw [patch_apply_available hnext]
          exact decide_eq_true (Int.not_lt.mp fun hlt => hquiet.2 ⟨row, hrow, hlt⟩)
    | claim hid hold =>
        obtain rfl := Option.some.inj (hrow.symm.trans hold)
        exact ⟨hopen, havailable,
          Or.inr (decide_eq_true (Int.not_lt.mp fun hlt => hs ⟨hid, hlt⟩))⟩
    | touch => exact (htouch _ _ _ rfl).elim
    | release hold | sweep hold =>
        obtain rfl := Option.some.inj (hrow.symm.trans hold)
        exact ⟨hopen, havailable, Or.inl rfl⟩
    | closeUnchecked => exact absurd rfl hs
  exact ⟨row', hrow', eligible_iff.mpr ⟨hoffered.1, hoffered.2.1, rfl, hunblocked, hoffered.2.2⟩⟩

theorem ReadyRow.exec {cfg : Config} {l : Locked Tables} {now : Int} {id : String} {s : Scope}
    (h : ReadyRow l.state now id) (hwf : WellFormed l.state)
    (hs : ¬ Unreadies cfg l.state now id s) : ReadyRow (s.exec cfg l).2.state now id := by
  by_cases htouch : ∃ i assignee at_, s = .touch i assignee at_
  · obtain ⟨i, assignee, at_, rfl⟩ := htouch
    exact h.touch hwf hs
  · exact h.effect hwf (exec_effect cfg s l) hs fun i assignee at_ heq =>
      htouch ⟨i, assignee, at_, heq⟩

/-! ### One caller that fetches -/

/-- `ready` after it has fetched some issues, with ids left. -/
def fetch (fetched : List Issue) (ids : List String) : DbM (List Issue) := do
  let issues ← ids.mapM get
  pure (fetched ++ issues)

@[simp] theorem fetch_nil (fetched : List Issue) : fetch fetched [] = pure fetched := by
  rw [fetch, List.mapM_nil, pure_bind, List.append_nil]

@[simp] theorem fetch_cons (fetched : List Issue) (id : String) (ids : List String) :
    fetch fetched (id :: ids) = get id >>= fun issue => fetch (fetched ++ [issue]) ids := by
  unfold fetch
  rw [List.mapM_cons]
  simp only [bind_assoc, pure_bind, List.append_assoc, List.singleton_append]

theorem ready_eq (project : Option String) (now : Int) :
    ready project now = call (.readyIds project now) >>= fetch [] := by
  unfold ready fetch
  simp only [List.nil_append, bind_pure]

section Callers

variable {ι : Type} [DecidableEq ι]

/-- A caller of `ready` among others; what those return does not matter. -/
abbrev Fetchers (ι : Type) := System ι DbI (Locked Tables) (Result (List Issue))

/-- The caller has selected the issue and not fetched it yet. -/
def Unfetched (tr : List (Event DbI)) (id : String) : Prop :=
  ∃ project now ids rest, tr = ⟨.readyIds project now, .ok ids⟩ :: rest ∧ id ∈ ids.drop rest.length

/-- The caller finds the lock healthy, and nobody else makes an issue unready that it still
has to fetch. -/
def Undisturbed (cfg : Config) (c : ι) (now : Int) (w : Fetchers ι) (i : ι) : Prop :=
  (i = c → w.shared.poisoned = false) ∧
    (i ≠ c → ∀ s k, (w.threads i).prog = .call s k → ∀ id, Unfetched (w.threads c).trace id →
      ¬ Unreadies cfg w.shared.state now id s)

/-- The caller has fetched ready issues, and those that are left are ready. The query and the
fetches are separate scopes, and between any two of them others may come in. -/
structure Fetched (c : ι) (project : Option String) (now : Int) (w : Fetchers ι)
    (ids : List String) (issues : List Issue) : Prop where
  trace : ∃ rest, (w.threads c).trace = ⟨.readyIds project now, .ok ids⟩ :: rest ∧
    rest.length = issues.length
  prog : (w.threads c).prog = (fetch issues (ids.drop issues.length)).run
  length : issues.length ≤ ids.length
  ready : ∀ issue ∈ issues, ReadyIssue now issue
  left : ∀ id ∈ ids.drop issues.length, ReadyRow w.shared.state now id

/-- Where the caller is. It is stated with the trace of the caller, so that it can be followed
through the steps of others. -/
structure Consistent (c : ι) (project : Option String) (now : Int) (w : Fetchers ι) : Prop where
  wellFormed : WellFormed w.shared.state
  caller : w.threads c = ⟨(Db.ready project now).run, []⟩ ∨
    ∃ ids issues, Fetched c project now w ids issues

/-- The selection: a healthy lock answers with ready ids. -/
theorem selected {cfg : Config} {project : Option String} {now : Int} {l : Locked Tables}
    (hl : l.poisoned = false) : ∃ ids,
      (Scope.readyIds project now).exec cfg l = (.ok ids, l) ∧
        ∀ id ∈ ids, ReadyRow l.state now id := by
  refine ⟨readyIdsQuery project now l.state, ?_, fun id hid => ?_⟩
  · rw [Locked.eq_new hl]
    exact Locked.query_new ..
  · obtain ⟨r, hr, rfl⟩ := List.mem_map.mp hid
    obtain ⟨hrow, heligible⟩ := mem_select.mp hr
    obtain ⟨hstatus, havailable, -, hunblocked, hfree⟩ := eligible_iff.mp heligible
    exact ⟨r.2, hrow, eligible_iff.mpr ⟨hstatus, havailable, rfl, hunblocked, hfree⟩⟩

/-- A fetch: a healthy lock answers with the issue as it is. -/
theorem got {cfg : Config} {now : Int} {id : String} {l : Locked Tables}
    (hl : l.poisoned = false) (h : ReadyRow l.state now id) : ∃ issue,
      (Scope.get id).exec cfg l = (.ok issue, l) ∧ ReadyIssue now issue := by
  obtain ⟨row, hrow, heligible⟩ := h
  refine ⟨l.state.view id row, ?_, readyIssue_view heligible⟩
  have hget := getQuery_find hrow
  have hexec : (Scope.get id).exec cfg (.new l.state) =
      Locked.finish l.state ((getQuery id l.state).map fun a => (a, l.state)) :=
    Locked.query_new ..
  rw [← Locked.eq_new hl, hget] at hexec
  rw [hexec]
  exact Prod.ext rfl (Locked.eq_new hl).symm

/-- The scope of another caller. -/
theorem Consistent.other {cfg : Config} {c i : ι} {project : Option String} {now : Int}
    {w : Fetchers ι} {s : Scope} {k : Result s.Ret → Prog DbI (Result (List Issue))}
    (h : Consistent c project now w) (hi : Undisturbed cfg c now w i) (hic : i ≠ c)
    (hprog : (w.threads i).prog = .call s k) :
    Consistent c project now (System.step (Scope.exec cfg) i w) := by
  have hthread := @System.step_threads_ne _ _ _ _ _ (Scope.exec cfg) w i c (Ne.symm hic)
  have hshared : (System.step (Scope.exec cfg) i w).shared = (s.exec cfg w.shared).2 := by
    rw [System.step_call hprog]
  refine ⟨?_, ?_⟩
  · rw [hshared]
    exact h.wellFormed.effect (exec_effect cfg s w.shared)
  · rcases h.caller with hstart | ⟨ids, issues, hfetched⟩
    · exact Or.inl (hthread.trans hstart)
    · refine Or.inr ⟨ids, issues, ?_, ?_, hfetched.length, hfetched.ready, fun id hid => ?_⟩
      · rw [hthread]
        exact hfetched.trace
      · rw [hthread]
        exact hfetched.prog
      · rw [hshared]
        obtain ⟨rest, htrace, hrest⟩ := hfetched.trace
        exact (hfetched.left id hid).exec h.wellFormed
          (hi.2 hic s k hprog id ⟨project, now, ids, rest, htrace, hrest ▸ hid⟩)

/-- What a turn of the caller makes of an answer. -/
theorem turn {cfg : Config} {c : ι} {w : Fetchers ι} {s : Scope} {f : s.Ret → DbM (List Issue)}
    {a : s.Ret} (hprog : (w.threads c).prog = (call s >>= f).run)
    (hexec : s.exec cfg w.shared = (.ok a, w.shared)) :
    System.step (Scope.exec cfg) c w = ⟨w.shared, Function.update w.threads c
      ⟨(f a).run, (w.threads c).trace ++ [⟨s, .ok a⟩]⟩⟩ := by
  have hcall : (w.threads c).prog = .call s (ExceptT.bindCont f) := hprog
  rw [System.step_call hcall, hexec]
  rfl

/-- A turn of the caller itself. -/
theorem Consistent.own {cfg : Config} {c : ι} {project : Option String} {now : Int}
    {w : Fetchers ι} (h : Consistent c project now w) (hhealthy : w.shared.poisoned = false) :
    Consistent c project now (System.step (Scope.exec cfg) c w) := by
  -- Either the list of ids has not been read yet, or some of the issues have been fetched and the
  -- rest is still to come.
  rcases h.caller with hstart | ⟨ids, issues, hfetched⟩
  · obtain ⟨ids, hexec, hready⟩ := @selected cfg project now w.shared hhealthy
    have hprog : (w.threads c).prog = (call (.readyIds project now) >>= fetch []).run := by
      rw [hstart, ready_eq]
    rw [turn hprog hexec]
    refine ⟨h.wellFormed, Or.inr ⟨ids, [], ⟨[], ?_, rfl⟩, ?_, Nat.zero_le _,
      fun _ hmem => absurd hmem List.not_mem_nil, hready⟩⟩
    · simp only [Function.update_self, hstart, List.nil_append]
    · simp only [Function.update_self, List.length_nil, List.drop_zero]
  · cases hdrop : ids.drop issues.length with
    | nil =>
        have hprog : (w.threads c).prog = .ret (.ok issues) := by
          rw [hfetched.prog, hdrop, fetch_nil]
          rfl
        rwa [System.step_ret hprog]
    | cons id rest =>
        obtain ⟨issue, hexec, hready⟩ :=
          @got cfg now id w.shared hhealthy (hfetched.left id (hdrop ▸ List.mem_cons_self ..))
        have hprog : (w.threads c).prog =
            (call (.get id) >>= fun issue => fetch (issues ++ [issue]) rest).run := by
          rw [hfetched.prog, hdrop, fetch_cons]
          rfl
        have hrest : ids.drop (issues ++ [issue]).length = rest := by
          rw [List.length_append, List.length_singleton, ← List.drop_drop, hdrop]
          rfl
        have hlength : issues.length < ids.length := by
          by_contra hle
          rw [List.drop_eq_nil_of_le (Nat.not_lt.mp hle)] at hdrop
          cases hdrop
        rw [turn hprog hexec]
        refine ⟨h.wellFormed, Or.inr ⟨ids, issues ++ [issue], ?_, ?_, ?_, ?_, ?_⟩⟩
        · obtain ⟨seen, htrace, hseen⟩ := hfetched.trace
          refine ⟨seen ++ [⟨.get id, .ok issue⟩], ?_, ?_⟩
          · simp only [Function.update_self, htrace, List.cons_append]
          · rw [List.length_append, List.length_append, hseen]
            rfl
        · simp only [Function.update_self, hrest]
        · rw [List.length_append]
          exact hlength
        · intro other hother
          rcases List.mem_append.mp hother with hother | hother
          · exact hfetched.ready other hother
          · rwa [List.mem_singleton.mp hother]
        · intro other hother
          rw [hrest] at hother
          exact hfetched.left other (hdrop ▸ List.mem_cons_of_mem _ hother)

theorem Consistent.step {cfg : Config} {c i : ι} {project : Option String} {now : Int}
    {w : Fetchers ι} (h : Consistent c project now w) (hi : Undisturbed cfg c now w i) :
    Consistent c project now (System.step (Scope.exec cfg) i w) := by
  by_cases hic : i = c
  · subst hic
    exact h.own (hi.1 rfl)
  · cases hprog : (w.threads i).prog with
    | ret r => rwa [System.step_ret hprog]
    | call s k => exact h.other hi hic hprog

/-- In every interleaving of a `ready` with any other callers: if the caller finds the lock healthy,
and nobody makes an issue unready between its selection and its fetch, then it returns after one
turn more than it has selected ids, and every issue it returns is ready as it stands. The ids are
selected under one lock and read under others, and what was read is not checked again. -/
theorem ready_consistent {cfg : Config} {c : ι} {project : Option String} {now : Int}
    {p : ι → Prog DbI (Result (List Issue))} {s₀ : Locked Tables} {schedule : List ι}
    (hs₀ : Reachable cfg s₀) (hp : p c = (ready project now).run)
    (hschedule : Machine.Meets (System.step (Scope.exec cfg)) (Undisturbed cfg c now) schedule
      (System.init s₀ p)) :
    (∀ r, (System.run (Scope.exec cfg) schedule (System.init s₀ p)).Returned c r →
      ∃ issues, r = .ok issues ∧ ∀ issue ∈ issues, ReadyIssue now issue) ∧
    (c ∈ schedule → ∃ ids rest,
      ((System.run (Scope.exec cfg) schedule (System.init s₀ p)).threads c).trace =
        ⟨.readyIds project now, .ok ids⟩ :: rest ∧
      (ids.length < schedule.count c →
        ∃ r, (System.run (Scope.exec cfg) schedule (System.init s₀ p)).Returned c r)) := by
  have hstart : Consistent c project now (System.init s₀ p) :=
    ⟨hs₀.wellFormed, Or.inl (by rw [← hp]; rfl)⟩
  have hrun := Machine.invariant_of_meets (Consistent c project now) (fun _ _ h hi => h.step hi)
    schedule hstart hschedule
  have hturns := @System.turns_run _ _ _ _ _ (Scope.exec cfg) schedule (System.init s₀ p) c
  rw [← System.run] at hrun
  generalize System.run (Scope.exec cfg) schedule (System.init s₀ p) = w at hrun hturns ⊢
  have hfirst : (ready project now).run =
      .call (.readyIds project now) (ExceptT.bindCont (fetch [])) := by
    rw [ready_eq]
    rfl
  rcases hrun.caller with hnone | ⟨ids, issues, hfetched⟩
  · -- it has had no turn yet
    constructor
    · intro r hr
      rw [System.Returned, hnone, hfirst] at hr
      cases hr
    · intro hc
      rcases hturns with ⟨r, hr⟩ | hlength
      · rw [System.Returned, hnone, hfirst] at hr
        cases hr
      · rw [hnone] at hlength
        have hzero : schedule.count c = 0 := by simpa [System.init] using hlength.symm
        exact absurd hc (List.count_eq_zero.mp hzero)
  · obtain ⟨rest, htrace, hrest⟩ := hfetched.trace
    have hdone : ∀ r, w.Returned c r → r = .ok issues := by
      intro r hr
      rw [System.Returned, hfetched.prog] at hr
      cases hdrop : ids.drop issues.length with
      | nil =>
          rw [hdrop, fetch_nil] at hr
          exact (Prog.ret.inj hr).symm
      | cons id left =>
          rw [hdrop, fetch_cons] at hr
          cases hr
    refine ⟨fun r hr => ⟨issues, hdone r hr, hfetched.ready⟩, fun _ =>
      ⟨ids, rest, htrace, fun hcount => ?_⟩⟩
    rcases hturns with hreturned | hlength
    · exact hreturned
    · rw [htrace, List.length_cons, hrest] at hlength
      have hall : issues.length = ids.length := by
        have hzero : ((System.init s₀ p).threads c).trace.length = 0 := rfl
        have hle := hfetched.length
        omega
      refine ⟨.ok issues, ?_⟩
      rw [System.Returned, hfetched.prog, hall, List.drop_length, fetch_nil]
      rfl

end Callers

/-! ### A claim that slips in -/

/-- One caller asks for the ready issues, the other claims or labels one of them. -/
def readyAndClaim : Bool → Prog DbI (Result (List Issue))
  | true => (ready none 100).run
  | false => (do let _ ← claim {} ⟨"a", "you", .agent, none⟩ 100; pure []).run

def readyAndLabel : Bool → Prog DbI (Result (List Issue))
  | true => (ready none 100).run
  | false => (do setLabels "a" ["x"] "you" 100; pure []).run

/-- A store with one ready issue. -/
def oneReady : List Action :=
  [.op (.ensureProject "p" "/p" "p" 0),
    .op (.create { id := some "a", project := some "p", availableAt := some 0 } [] 0)]

/-- The claim is granted after the selection, and the issue is returned as held. -/
theorem ready_returns_claimed :
    let w := System.run (Scope.exec {}) [true, false, true]
      (System.init (Action.run {} oneReady (opened "s")) readyAndClaim)
    ∃ issue, w.Returned true (.ok [issue]) ∧ ¬ ReadyIssue 100 issue := by
  refine ⟨_, rfl, fun h => ?_⟩
  have hfree := h.free
  revert hfree
  decide +kernel

/-- A label is added after the selection. -/
theorem ready_returns_labelled :
    let w := System.run (Scope.exec {}) [true, false, true]
      (System.init (Action.run {} oneReady (opened "s")) readyAndLabel)
    (∀ r, w.Returned true r → ∃ issues, r = .ok issues ∧ ∀ issue ∈ issues, ReadyIssue 100 issue) ∧
      (true ∈ [true, false, true] → ∃ ids rest, (w.threads true).trace =
        ⟨.readyIds none 100, .ok ids⟩ :: rest ∧
        (ids.length < [true, false, true].count true → ∃ r, w.Returned true r)) := by
  have hmeets : Machine.Meets (System.step (Scope.exec {})) (Undisturbed {} true 100)
      [true, false, true] (System.init (Action.run {} oneReady (opened "s")) readyAndLabel) := by
    refine ⟨⟨fun _ => by decide +kernel, fun hne => absurd rfl hne⟩,
      ⟨fun h => (nomatch h), fun _ s k hprog id _ => ?_⟩,
      ⟨fun _ => by decide +kernel, fun hne => absurd rfl hne⟩, trivial⟩
    obtain ⟨rfl, -⟩ := Prog.call.inj hprog
    exact fun hunready => hunready.elim
  exact ready_consistent ⟨"s", oneReady, rfl⟩ rfl hmeets

end Marbles.Db
