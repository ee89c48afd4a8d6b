import Marbles.Db.History

/-!
# What the history tells

The history is written for people, one line for each thing that happened. It is also
enough to say where an issue stands: read from its beginning, the events of an issue give
the status, the holder and the time of the claim that its row has. The columns that an
event does not carry (texts, labels, the expiry of a lease) cannot be told from it.

`told` reads a history from its beginning as a fold over events. The invariant says that for every
issue the fold gives what the row has. It holds at every scope because each transaction logs the
event that tells its change, in the same transaction; a scope that changes nothing of it logs an
event that tells nothing.
-/

namespace Marbles.Db

/-! ### Reading a history -/

/-- Where an issue stands: its status, and who has claimed it and when. -/
structure Standing where
  status : Status
  assignee : Option String
  actorKind : Option String
  claimedAt : Option Int
  deriving DecidableEq

namespace Standing

/-- As the issue was created. -/
def created : Standing := ⟨.«open», none, none, none⟩

/-- Held by nobody. -/
def unclaimed (s : Standing) : Standing := ⟨s.status, none, none, none⟩

/-- The status that the detail of a `status` event names. -/
def statusOf (detail : String) : Option Status :=
  Status.all.find? fun status => s!"→ {status.asStr}" = detail

/-- What an event says happened to the issue. -/
def after (s : Standing) (event : HistoryEvent) : Standing :=
  if event.event = "status" then { s with status := (statusOf event.detail).getD s.status }
  else if event.event = "claimed" then
    ⟨s.status, some event.actor, some event.detail, some event.ts⟩
  else if event.event = "released" ∨ event.event = "claim_expired" then s.unclaimed
  else if event.event = "closed" then { s.unclaimed with status := .closed }
  else s

/-- A history may begin with events about an issue of that id that was not there yet. -/
def next (s : Option Standing) (event : HistoryEvent) : Option Standing :=
  if event.event = "created" then some created else s.map (·.after event)

/-- What a history tells. -/
def told (events : List HistoryEvent) : Option Standing := events.foldl next none

end Standing

/-- Where the row says the issue stands. -/
def IssueRow.standing (row : IssueRow) : Standing :=
  ⟨row.status, row.assignee, row.actorKind, row.claimedAt⟩

open Standing

@[simp] theorem statusOf_asStr (status : Status) : statusOf s!"→ {status.asStr}" = some status := by
  cases status <;> rfl

@[simp] theorem told_append (events : List HistoryEvent) (event : HistoryEvent) :
    told (events ++ [event]) = next (told events) event := by
  rw [told, List.foldl_append]
  rfl

/-! ### The trail of an issue -/

/-- The rows of every issue say what its history tells. -/
def Retold (t : Tables) : Prop :=
  ∀ id row, t.issue.find id = some row → told (historyQuery id t) = some row.standing

namespace Retold

variable {t t' : Tables}

theorem empty (storeId : String) : Retold (.empty storeId) := fun _ _ h => absurd h nofun

/-- Neither the issues nor the history were written. -/
theorem same (h : Retold t) (hissue : t'.issue = t.issue)
    (hhistory : t'.ledger.history = t.ledger.history) : Retold t' := fun id row hrow => by
  rw [historyQuery_congr hhistory]
  exact h id row (hissue ▸ hrow)

/-- A row is rewritten and an event logged that says so. -/
theorem log (h : Retold t) {k : String} {ts : Int} {actor event detail : String}
    {f : IssueRow → IssueRow} (hissue : t'.issue = t.issue.modify k f)
    (hhistory : t'.ledger.history = t.ledger.history)
    (hf : ∀ row, t.issue.find k = some row →
      next (some row.standing) ⟨k, ts, actor, event, detail⟩ = some (f row).standing) :
    Retold (t'.logEvent k ts actor event detail) := fun id row hrow => by
  rw [Tables.logEvent_issue, hissue, Table.find_modify] at hrow
  rw [historyQuery_logEvent, historyQuery_congr hhistory]
  split at hrow
  · rename_i hid
    obtain ⟨old, hold, rfl⟩ := Option.map_eq_some_iff.mp hrow
    rw [if_pos hid.symm, told_append, h id old hold]
    exact hf old (hid ▸ hold)
  · rename_i hid
    rw [if_neg fun hk => hid hk.symm, List.append_nil]
    exact h id row hrow

theorem write (h : Retold t) {k : String} {ts : Int} {actor event detail : String}
    {f : IssueRow → IssueRow} (hissue : t'.issue = t.issue)
    (hhistory : t'.ledger.history = t.ledger.history)
    (hf : ∀ row, t.issue.find k = some row →
      next (some row.standing) ⟨k, ts, actor, event, detail⟩ = some (f row).standing) :
    Retold ((t'.setIssue k f).logEvent k ts actor event detail) := by
  refine h.log ?_ hhistory hf
  rw [Tables.setIssue_issue, hissue]

/-- An event is logged that changes nothing of what is told. -/
theorem mention (h : Retold t) {k : String} {ts : Int} {actor event detail : String}
    (hissue : t'.issue = t.issue) (hhistory : t'.ledger.history = t.ledger.history)
    (hkeep : ∀ s, next (some s) ⟨k, ts, actor, event, detail⟩ = some s) :
    Retold (t'.logEvent k ts actor event detail) := by
  refine @log _ _ h _ _ _ _ _ (fun row => row) ?_ hhistory fun row _ => hkeep _
  rw [hissue]
  exact (Table.mapRows_eq_self fun _ _ _ => ite_self _).symm

/-- The id of a new issue may occur in the history already; what it tells starts anew. -/
theorem create (h : Retold t) {id : String} {row : IssueRow} {ts : Int} {actor title : String}
    (hfresh : t.issue.find id = none) (hrow : row.standing = .created) :
    Retold ({ t with issue := t.issue.insert id row }.logEvent id ts actor "created" title) := by
  intro k row' hrow'
  rw [Tables.logEvent_issue] at hrow'
  rw [historyQuery_logEvent]
  by_cases hk : id = k
  · subst hk
    rw [Table.find_insert_new hfresh] at hrow'
    obtain rfl := Option.some.inj hrow'
    rw [if_pos rfl, told_append, hrow]
    rfl
  · rw [Table.find_insert_ne fun heq => hk heq.symm] at hrow'
    rw [if_neg hk, List.append_nil]
    exact h k row' hrow'

/-- The events of other issues stay. -/
theorem drop (h : Retold t) {slug : String} {mine : String → Bool}
    (hmine : mine = fun id => (t.issue.find id).any fun row => row.project = slug)
    (hissue : t'.issue = t.issue.filter fun _ row => row.project ≠ slug)
    (hhistory : t'.ledger.history = t.ledger.history.filter fun row => !mine row.issueId) :
    Retold t' := by
  intro id row hrow
  rw [hissue, Table.find_filter, Option.filter_eq_some_iff] at hrow
  obtain ⟨hrow, hother⟩ := hrow
  have hkept : mine id = false := by
    rw [hmine]
    simpa [hrow] using hother
  have hsame : historyQuery id t' = historyQuery id t := by
    rw [historyQuery, hhistory, historyQuery, Journal.select, Journal.rows_filter,
      List.filter_filter]
    congr 3
    funext r
    by_cases hid : r.2.issueId = id
    · simp [hid, hkept]
    · simp [hid]
  rw [hsame]
  exact h id row hrow

theorem sweep (now : Int) (claims : List (String × String × String)) (acc : SweepReport × Tables)
    (h : Retold acc.2) : Retold (claims.foldl (sweepRow now) acc).2 := by
  induction claims generalizing acc with
  | nil => exact h
  | cons claim claims ih =>
      rw [List.foldl_cons]
      refine ih _ ?_
      unfold sweepRow
      dsimp only
      split
      · exact h.mention rfl rfl fun _ => rfl
      · refine h.write rfl rfl fun _ _ => ?_
        rfl

theorem update (h : Retold t) {cfg : Config} {id : String} {patch : IssuePatch} {actor : String}
    {now : Int} (hok : updateTx cfg id patch actor now t = .ok ((), t')) : Retold t' := by
  unfold updateTx at hok
  obtain ⟨current, hc, hok⟩ := Outcome.bind_eq_ok.mp hok
  obtain ⟨row, hrow, rfl⟩ := rowToIssue_eq_some.mp (Outcome.ofOption_eq_ok.mp hc)
  obtain ⟨next, hn, hok⟩ := Outcome.bind_eq_ok.mp hok
  obtain ⟨status, hs, hok⟩ := Outcome.bind_eq_ok.mp hok
  cases hok
  have hasked := patch_apply_status hn
  have hname := Status.asStr_of_parse (Outcome.ofOption_eq_ok.mp hs)
  by_cases hchanged : patch.statusChanged (t.view id row) = true
  · -- the `status` event names what is written
    rw [if_pos hchanged]
    refine mention ?_ rfl rfl fun _ => rfl
    refine h.write rfl rfl fun row _ => ?_
    change some (row.standing.after ⟨id, now, actor, "status", s!"→ {next.status}"⟩) = _
    rw [← hname]
    unfold after
    rw [if_pos rfl, statusOf_asStr]
    rfl
  · -- the status that is written is the one that was there
    rw [if_neg hchanged]
    refine h.write rfl rfl fun row' hrow' => ?_
    obtain rfl := Option.some.inj (hrow.symm.trans hrow')
    have hkept : status = row.status := by
      rw [← Status.asStr_inj, hname, hasked]
      cases hpatch : patch.status with
      | none => rfl
      | some st =>
          simp only [IssuePatch.statusChanged, hpatch, Option.any_some, decide_eq_true_eq,
            not_not] at hchanged
          exact hchanged
    rw [hkept]
    rfl

/-- Every lock scope keeps the rows and the history in step. -/
theorem exec (cfg : Config) (s : Scope) {l : Locked Tables} (h : Retold l.state) :
    Retold (s.exec cfg l).2.state := by
  have htx : ∀ {α : Type} {f : Tx α}, (∀ a t', f l.state = .ok (a, t') → Retold t') →
      Retold (Locked.tx f l).2.state := fun hf => Locked.tx_preserves h hf
  -- A write retells the history when the columns that the history determines move together with the
  -- event the scope logs.
  cases s with
  | ensureProject slug root idPrefix ts =>
      refine htx fun _ t' hok => ?_
      obtain rfl := ensureProjectTx_ok hok
      exact h.same rfl rfl
  | dropProject slug =>
      refine htx fun _ t' hok => ?_
      obtain ⟨mine, hmine, rfl⟩ := dropProjectTx_ok hok
      exact h.drop hmine rfl rfl
  | ensureFolder slug name parent now =>
      refine htx fun _ t' hok => ?_
      obtain ⟨_, _, hok⟩ := Outcome.bind_eq_ok.mp hok
      cases hok
      exact h.same rfl rfl
  | setProjectFolder project folder now =>
      refine htx fun _ t' hok => ?_
      obtain ⟨assigned, rfl⟩ := setProjectFolderTx_ok hok
      exact h.same rfl rfl
  | markEventDelivered seq now | markEventFailed seq nextAttemptAt error =>
      refine htx fun _ t' hok => ?_
      cases hok
      exact h.same rfl rfl
  | create spec project available draws now =>
      refine htx fun id t' hok => ?_
      obtain ⟨metadata, -, -, hfresh, -, -, rfl⟩ := createTx_ok hok
      exact h.create hfresh rfl
  | update id patch actor now => exact htx fun _ t' hok => h.update hok
  | setLabels id labels actor now =>
      refine htx fun _ t' hok => ?_
      obtain ⟨_, _, hok⟩ := Outcome.bind_eq_ok.mp hok
      cases hok
      refine h.write rfl rfl fun _ _ => ?_
      rfl
  | addDep child parent actor now =>
      refine htx fun _ t' hok => ?_
      obtain ⟨-, -, -, rfl⟩ := addDepTx_ok hok
      refine h.write rfl rfl fun _ _ => ?_
      rfl
  | removeDep child parent actor now | removeRemoteDep child canonicalRef actor now =>
      refine htx fun _ t' hok => ?_
      cases hok
      exact h.mention rfl rfl fun _ => rfl
  | addRemoteDep child dependency actor now =>
      refine htx fun _ t' hok => ?_
      obtain ⟨_, _, hok⟩ := Outcome.bind_eq_ok.mp hok
      cases hok
      refine h.write rfl rfl fun _ _ => ?_
      rfl
  | claim req ttl now =>
      refine htx fun _ t' hok => ?_
      obtain ⟨row, -, -, -, rfl⟩ := claimTx_ok hok
      refine h.write rfl rfl fun _ _ => ?_
      rfl
  | touch id assignee now =>
      refine htx fun _ t' hok => ?_
      obtain ⟨row, ttl, -, -, -, -, rfl⟩ := touchTx_ok hok
      refine h.write rfl rfl fun _ _ => ?_
      rfl
  | release id actor now =>
      refine htx fun _ t' hok => ?_
      cases hok
      refine h.write rfl rfl fun _ _ => ?_
      rfl
  | sweep now order =>
      refine htx fun _ t' hok => ?_
      unfold sweepTx at hok
      obtain ⟨claims, -, hok⟩ := Outcome.bind_eq_ok.mp hok
      have hswept := sweep now claims (⟨[], []⟩, l.state) h
      rwa [Except.ok.inj hok] at hswept
  | closeUnchecked id reason evidence actor now =>
      refine htx fun _ t' hok => ?_
      obtain ⟨row, -, rfl⟩ := closeUncheckedTx_ok hok
      refine h.write rfl rfl fun _ _ => ?_
      rfl
  | _ =>
      change Retold (Locked.query _ l).2.state
      rw [Locked.query_state]
      exact h

theorem runs (cfg : Config) (storeId : String) (scopes : List Scope) :
    Retold (Scope.runs cfg scopes (opened storeId)).state :=
  Machine.invariant (fun l : Locked Tables => Retold l.state) (fun _ s h => h.exec cfg s) scopes
    (.empty storeId)

end Retold

/-- Whatever callers do, and however their lock scopes interleave, the history tells where an issue
stands, and a scope after which it stands elsewhere has written to its history. The expiry of the
lease is no part of an event, which is why it is left out. -/
theorem history_tells_standing (cfg : Config) (storeId : String) (scopes : List Scope)
    {id : String} {row : IssueRow}
    (hrow : (Scope.runs cfg scopes (opened storeId)).state.issue.find id = some row) :
    told (historyQuery id (Scope.runs cfg scopes (opened storeId)).state) = some row.standing ∧
      ∀ (s : Scope) (row' : IssueRow),
        (s.exec cfg (Scope.runs cfg scopes (opened storeId))).2.state.issue.find id = some row' →
        row'.standing ≠ row.standing →
        historyQuery id (s.exec cfg (Scope.runs cfg scopes (opened storeId))).2.state ≠
          historyQuery id (Scope.runs cfg scopes (opened storeId)).state := by
  have htold := Retold.runs cfg storeId scopes id row hrow
  refine ⟨htold, fun s row' hrow' hmoved hsame => hmoved ?_⟩
  have hafter := (Retold.runs cfg storeId scopes).exec cfg s id row' hrow'
  rw [hsame, htold] at hafter
  exact (Option.some.inj hafter).symm

/-- An issue that was claimed, handed back and claimed by somebody else. -/
def handedOver : List Scope :=
  [.ensureProject "p" "/p" "p" 0, .create { id := some "a", title := "t" } "p" 0 [] 1,
    .claim ⟨"a", "me", .agent, none⟩ 60 2, .release "a" "me" 3,
    .claim ⟨"a", "you", .human, none⟩ 60 4]

theorem handedOver_told :
    told (historyQuery "a" (Scope.runs {} handedOver (opened "s")).state) =
      some ⟨.«open», some "you", some "human", some 4⟩ ∧
    historyQuery "a" ((Scope.release "a" "you" 5).exec {}
    (Scope.runs {} handedOver (opened "s"))).2.state ≠
      historyQuery "a" (Scope.runs {} handedOver (opened "s")).state :=
  have h := @history_tells_standing {} "s" handedOver "a" _ rfl
  ⟨h.1, h.2 (.release "a" "you" 5) _ rfl (by decide)⟩

end Marbles.Db
