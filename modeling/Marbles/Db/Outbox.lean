import Marbles.Db.Effect

/-!
# What a lock scope can do to the ledger

`exec_grown` says once, for every scope but `drop_project`, what becomes of the history and
the outbox: rows are appended, each with its outbox row, and rows that were there keep the
columns that say which event they are. `exec_carries` is what also holds of `drop_project`.

`Grown` is transitive, so the statement about one scope is at once one about any number of them.
The keys of the history come from a counter that never goes back, which makes an appended row one
that was not there before, under a key nobody has seen.
-/

namespace Marbles.Db

/-! ### Rows -/

/-- The columns of an outbox row that say which event it is. -/
def OutboundRow.event? (o : OutboundRow) : String × String × String × Int × String :=
  (o.storeId, o.issueId, o.project, o.occurredAt, o.event)

/-- A row of the history has its outbox row under the same key when its issue exists, and
none when it does not. -/
def Published (t : Tables) (r : Nat × HistoryRow) : Prop :=
  t.ledger.outbound.find r.1 = (t.issue.find r.2.issueId).map fun issue =>
    ⟨t.storeId, r.2.issueId, issue.project, r.2.ts, r.2.event, none, 0, r.2.ts, none⟩

/-- `o'` is the row `o` after some attempts to deliver it. -/
structure OutboundRow.Tried (o o' : OutboundRow) : Prop where
  event : o'.event? = o.event?
  delivered : o.deliveredAt.isSome = true → o'.deliveredAt.isSome = true

theorem OutboundRow.Tried.refl (o : OutboundRow) : o.Tried o := ⟨rfl, id⟩

theorem OutboundRow.Tried.trans {o o' o'' : OutboundRow} (h : o.Tried o') (h' : o'.Tried o'') :
    o.Tried o'' := ⟨h'.event.trans h.event, fun hd => h'.delivered (h.delivered hd)⟩

/-! ### Transactions that only append -/

/-- What a transaction that deletes nothing does to the ledger. It does not say which rows are
appended, only that each is published. -/
structure Grown (t t' : Tables) : Prop where
  store : t'.storeId = t.storeId
  last : t.ledger.history.last ≤ t'.ledger.history.last
  appended : ∃ new, t'.ledger.history.rows = t.ledger.history.rows ++ new ∧
    ∀ r ∈ new, t.ledger.history.last < r.1 ∧ Published t' r
  kept : ∀ seq o, t.ledger.outbound.find seq = some o →
    ∃ o', t'.ledger.outbound.find seq = some o' ∧ o.Tried o'
  fresh : ∀ seq o', t'.ledger.outbound.find seq = some o' →
    (∃ o, t.ledger.outbound.find seq = some o) ∨
      (t.ledger.history.last < seq ∧ o'.storeId = t.storeId)

/-- The outbox after an event has been logged. -/
theorem find_logEvent (t : Tables) (id : String) (ts : Int) (actor event detail : String)
    (seq : Nat) : (t.logEvent id ts actor event detail).ledger.outbound.find seq =
      if seq = t.ledger.history.next then (t.issue.find id).map fun row =>
        ⟨t.storeId, id, row.project, ts, event, none, 0, ts, none⟩
      else t.ledger.outbound.find seq := by
  unfold Tables.logEvent Ledger.log
  cases t.issue.find id with
  | none =>
      change t.ledger.outbound.find seq = _
      split
      · rename_i hseq
        rw [hseq, t.ledger.outbound_next]
        rfl
      · rfl
  | some row =>
      change (t.ledger.outbound.insert t.ledger.history.next _).find seq = _
      rw [Table.find_insert, t.ledger.outbound_next]
      rfl

namespace Grown

/-- The ledger was not touched. -/
theorem same {t t' : Tables} (hledger : t'.ledger = t.ledger) (hstore : t'.storeId = t.storeId) :
    Grown t t' := by
  refine ⟨hstore, by rw [hledger], ⟨[], by rw [hledger, List.append_nil], nofun⟩, ?_, ?_⟩
  · intro seq o ho
    exact ⟨o, by rw [hledger, ho], .refl o⟩
  · intro seq o ho
    rw [hledger] at ho
    exact Or.inl ⟨o, ho⟩

theorem refl (t : Tables) : Grown t t := same rfl rfl

/-- Logging appends one row, which is published. -/
theorem log {t t₁ : Tables} (h : Grown t t₁) (id : String) (ts : Int)
    (actor event detail : String) : Grown t (t₁.logEvent id ts actor event detail) := by
  have hnext : t.ledger.history.last < t₁.ledger.history.next := Nat.lt_succ_of_le h.last
  refine ⟨h.store, Nat.le_succ_of_le h.last, ?_, ?_, ?_⟩
  · obtain ⟨new, hrows, hnew⟩ := h.appended
    refine ⟨new ++ [(t₁.ledger.history.next, ⟨id, ts, actor, event, detail⟩)], ?_, ?_⟩
    · change t₁.ledger.history.rows ++ _ = _
      rw [hrows, List.append_assoc]
    · intro r hr
      rcases List.mem_append.mp hr with hr | hr
      · refine ⟨(hnew r hr).1, ?_⟩
        -- an older row is under another key
        have hle : r.1 ≤ t₁.ledger.history.last :=
          t₁.ledger.history.bounded r (hrows ▸ List.mem_append_right _ hr)
        have hne : r.1 ≠ t₁.ledger.history.next := Nat.ne_of_lt (Nat.lt_succ_of_le hle)
        rw [Published, find_logEvent, if_neg hne]
        exact (hnew r hr).2
      · obtain rfl := List.mem_singleton.mp hr
        refine ⟨hnext, ?_⟩
        rw [Published, find_logEvent, if_pos rfl]
        rfl
  · intro seq o ho
    obtain ⟨o', ho', htried⟩ := h.kept seq o ho
    have hle : seq ≤ t₁.ledger.history.last := t₁.ledger.assigned seq (Table.mem_keys_of_find ho')
    have hne : seq ≠ t₁.ledger.history.next := Nat.ne_of_lt (Nat.lt_succ_of_le hle)
    exact ⟨o', by rw [find_logEvent, if_neg hne, ho'], htried⟩
  · intro seq o' ho'
    rw [find_logEvent] at ho'
    split at ho'
    · rename_i hseq
      obtain ⟨row, -, rfl⟩ := Option.map_eq_some_iff.mp ho'
      exact Or.inr ⟨hseq ▸ hnext, h.store⟩
    · exact h.fresh seq o' ho'

/-- An update of an issue that keeps its project. -/
theorem setIssue {t t₁ : Tables} (h : Grown t t₁) (id : String) {f : IssueRow → IssueRow}
    (hf : ∀ row, (f row).project = row.project) : Grown t (t₁.setIssue id f) := by
  refine ⟨h.store, h.last, ?_, h.kept, h.fresh⟩
  obtain ⟨new, hrows, hnew⟩ := h.appended
  refine ⟨new, hrows, fun r hr => ⟨(hnew r hr).1, ?_⟩⟩
  have hpublished := (hnew r hr).2
  unfold Published at hpublished ⊢
  rw [Tables.setIssue_issue, Table.find_modify]
  split
  · change t₁.ledger.outbound.find r.1 = _
    rw [hpublished, Option.map_map]
    congr 1
    funext row
    exact congrArg (OutboundRow.mk t₁.storeId r.2.issueId · r.2.ts r.2.event none 0 r.2.ts none)
      (hf row).symm
  · exact hpublished

/-- A round of deliveries: rows change, but not which events they are. -/
theorem mark {t : Tables} {f : Nat → OutboundRow → OutboundRow}
    (hf : ∀ seq (o : OutboundRow), o.Tried (f seq o)) :
    Grown t { t with ledger := t.ledger.mark f } := by
  refine ⟨rfl, Nat.le_refl _, ⟨[], (List.append_nil _).symm, nofun⟩, ?_, ?_⟩
  · intro seq o ho
    refine ⟨f seq o, ?_, hf seq o⟩
    change (t.ledger.outbound.mapRows f).find seq = _
    rw [Table.find_mapRows, ho]
    rfl
  · intro seq o' ho'
    change (t.ledger.outbound.mapRows f).find seq = _ at ho'
    rw [Table.find_mapRows] at ho'
    obtain ⟨o, ho, -⟩ := Option.map_eq_some_iff.mp ho'
    exact Or.inl ⟨o, ho⟩

theorem sweep {t : Tables} (now : Int) (claims : List (String × String × String))
    (acc : SweepReport × Tables) (h : Grown t acc.2) :
    Grown t (claims.foldl (sweepRow now) acc).2 := by
  induction claims generalizing acc with
  | nil => exact h
  | cons claim claims ih =>
      rw [List.foldl_cons]
      refine ih _ ?_
      unfold sweepRow
      dsimp only
      split
      · exact h.log ..
      · refine Grown.log ?_ ..
        exact Grown.setIssue h _ fun _ => rfl

/-- A transaction that fails leaves everything as it was. -/
theorem tx {α : Type} {f : Tx α} {l : Locked Tables}
    (h : ∀ a t', f l.state = .ok (a, t') → Grown l.state t') :
    Grown l.state (Locked.tx f l).2.state := Locked.tx_preserves (refl _) h

theorem query {α : Type} (f : Tables → Result α) (l : Locked Tables) :
    Grown l.state (Locked.query f l).2.state := by
  rw [Locked.query_state]
  exact refl _

end Grown

/-- What each scope that deletes nothing does to the ledger. -/
theorem exec_grown (cfg : Config) {s : Scope} (l : Locked Tables)
    (hs : ∀ slug, s ≠ .dropProject slug) : Grown l.state (s.exec cfg l).2.state := by
  -- a row enters the outbox with a log entry only, so the other writes leave the ledger alone
  cases s with
  | dropProject slug => exact absurd rfl (hs slug)
  | ensureProject slug root idPrefix ts =>
      refine .tx fun _ t' h => ?_
      obtain rfl := ensureProjectTx_ok h
      exact .same rfl rfl
  | ensureFolder slug name parent now =>
      refine .tx fun _ t' h => ?_
      obtain ⟨_, _, h⟩ := Outcome.bind_eq_ok.mp h
      cases h
      exact .same rfl rfl
  | setProjectFolder project folder now =>
      refine .tx fun _ t' h => ?_
      obtain ⟨assigned, rfl⟩ := setProjectFolderTx_ok h
      exact .same rfl rfl
  | markEventDelivered seq now =>
      refine .tx fun _ t' h => ?_
      cases h
      refine .mark fun k o => ?_
      split
      · exact ⟨rfl, fun _ => rfl⟩
      · exact .refl o
  | markEventFailed seq nextAttemptAt error =>
      refine .tx fun _ t' h => ?_
      cases h
      refine .mark fun k o => ?_
      split
      · exact ⟨rfl, id⟩
      · exact .refl o
  | create spec project available draws now =>
      refine .tx fun id t' h => ?_
      obtain ⟨metadata, -, -, -, -, -, rfl⟩ := createTx_ok h
      refine Grown.log ?_ ..
      exact .same rfl rfl
  | update id patch actor now =>
      refine .tx fun _ t' h => ?_
      unfold updateTx at h
      obtain ⟨current, -, h⟩ := Outcome.bind_eq_ok.mp h
      obtain ⟨next, -, h⟩ := Outcome.bind_eq_ok.mp h
      obtain ⟨status, -, h⟩ := Outcome.bind_eq_ok.mp h
      cases h
      have hset : Grown l.state (l.state.setIssue id fun row => row.write next status) :=
        (Grown.refl _).setIssue id fun _ => rfl
      refine Grown.log ?_ ..
      split
      · exact hset.log ..
      · exact hset
  | setLabels id labels actor now =>
      refine .tx fun _ t' h => ?_
      obtain ⟨_, _, h⟩ := Outcome.bind_eq_ok.mp h
      cases h
      refine Grown.log ?_ ..
      exact Grown.setIssue (.refl _) _ fun _ => rfl
  | addDep child parent actor now =>
      refine .tx fun _ t' h => ?_
      obtain ⟨-, -, -, rfl⟩ := addDepTx_ok h
      refine Grown.log ?_ ..
      refine Grown.setIssue ?_ _ fun _ => rfl
      exact .same rfl rfl
  | removeDep child parent actor now =>
      refine .tx fun _ t' h => ?_
      cases h
      refine Grown.log ?_ ..
      exact .same rfl rfl
  | addRemoteDep child dependency actor now =>
      refine .tx fun _ t' h => ?_
      obtain ⟨_, _, h⟩ := Outcome.bind_eq_ok.mp h
      cases h
      refine Grown.log ?_ ..
      refine Grown.setIssue ?_ _ fun _ => rfl
      exact .same rfl rfl
  | removeRemoteDep child canonicalRef actor now =>
      refine .tx fun _ t' h => ?_
      cases h
      refine Grown.log ?_ ..
      exact .same rfl rfl
  | claim req ttl now =>
      refine .tx fun _ t' h => ?_
      obtain ⟨row, -, -, -, rfl⟩ := claimTx_ok h
      refine Grown.log ?_ ..
      exact Grown.setIssue (.refl _) _ fun _ => rfl
  | touch id assignee now =>
      refine .tx fun _ t' h => ?_
      obtain ⟨row, ttl, -, -, -, -, rfl⟩ := touchTx_ok h
      refine Grown.log ?_ ..
      exact Grown.setIssue (.refl _) _ fun _ => rfl
  | release id actor now =>
      refine .tx fun _ t' h => ?_
      cases h
      refine Grown.log ?_ ..
      exact Grown.setIssue (.refl _) _ fun _ => rfl
  | sweep now order =>
      refine .tx fun _ t' h => ?_
      unfold sweepTx at h
      obtain ⟨claims, -, h⟩ := Outcome.bind_eq_ok.mp h
      have hfold := Except.ok.inj h
      have hgrown := Grown.sweep now claims (⟨[], []⟩, l.state) (.refl l.state)
      rwa [hfold] at hgrown
  | closeUnchecked id reason evidence actor now =>
      refine .tx fun _ t' h => ?_
      obtain ⟨row, -, rfl⟩ := closeUncheckedTx_ok h
      refine Grown.log ?_ ..
      exact Grown.setIssue (.refl _) _ fun _ => rfl
  | _ => exact .query _ l

/-! ### Every transaction -/

/-- What any transaction does to the ledger, read backwards. No event is made up, none changes its
store, and the numbers only go up. -/
structure Carries (t t' : Tables) : Prop where
  store : t'.storeId = t.storeId
  last : t.ledger.history.last ≤ t'.ledger.history.last
  outbound : ∀ seq o', t'.ledger.outbound.find seq = some o' →
    (∃ o, t.ledger.outbound.find seq = some o ∧ o.Tried o') ∨
      (t.ledger.history.last < seq ∧ o'.storeId = t.storeId)
  history : ∀ r ∈ t'.ledger.history.rows,
    r ∈ t.ledger.history.rows ∨ t.ledger.history.last < r.1

theorem Grown.carries {t t' : Tables} (h : Grown t t') : Carries t t' := by
  refine ⟨h.store, h.last, fun seq o' ho' => ?_, fun r hr => ?_⟩
  · rcases h.fresh seq o' ho' with ⟨o, ho⟩ | hfresh
    · obtain ⟨o'', ho'', htried⟩ := h.kept seq o ho
      obtain rfl := Option.some.inj (ho'.symm.trans ho'')
      exact Or.inl ⟨o, ho, htried⟩
    · exact Or.inr hfresh
  · obtain ⟨new, hrows, hnew⟩ := h.appended
    rw [hrows] at hr
    rcases List.mem_append.mp hr with hr | hr
    · exact Or.inl hr
    · exact Or.inr (hnew r hr).1

theorem Carries.refl (t : Tables) : Carries t t := (Grown.refl t).carries

theorem Carries.trans {t t' t'' : Tables} (h : Carries t t') (h' : Carries t' t'') :
    Carries t t'' := by
  refine ⟨h'.store.trans h.store, Nat.le_trans h.last h'.last, fun seq o'' ho'' => ?_,
    fun r hr => ?_⟩
  · rcases h'.outbound seq o'' ho'' with ⟨o', ho', htried'⟩ | ⟨hlast, hstore⟩
    · rcases h.outbound seq o' ho' with ⟨o, ho, htried⟩ | ⟨hlast, hstore⟩
      · exact Or.inl ⟨o, ho, htried.trans htried'⟩
      · have hid : o''.storeId = o'.storeId := congrArg Prod.fst htried'.event
        exact Or.inr ⟨hlast, hid.trans hstore⟩
    · exact Or.inr ⟨Nat.lt_of_le_of_lt h.last hlast, hstore.trans h.store⟩
  · rcases h'.history r hr with hr | hlast
    · exact h.history r hr
    · exact Or.inr (Nat.lt_of_le_of_lt h.last hlast)

theorem exec_carries (cfg : Config) (s : Scope) (l : Locked Tables) :
    Carries l.state (s.exec cfg l).2.state := by
  by_cases hs : ∀ slug, s ≠ .dropProject slug
  · exact (exec_grown cfg l hs).carries
  · obtain ⟨slug, rfl⟩ := not_forall_not.mp hs
    refine Locked.tx_preserves (.refl _) fun r t' h => ?_
    -- the ledger loses rows and gets none
    obtain ⟨mine, -, rfl⟩ := dropProjectTx_ok h
    refine ⟨rfl, Nat.le_refl _, fun seq o' ho' => ?_, fun r hr => ?_⟩
    · change (l.state.ledger.outbound.filter _).find seq = _ at ho'
      rw [Table.find_filter] at ho'
      exact Or.inl ⟨o', (Option.filter_eq_some_iff.mp ho').1, .refl o'⟩
    · change r ∈ (l.state.ledger.forget mine).history.rows at hr
      rw [Ledger.history_forget, Journal.rows_filter] at hr
      exact Or.inl (List.mem_filter.mp hr).1

end Marbles.Db
