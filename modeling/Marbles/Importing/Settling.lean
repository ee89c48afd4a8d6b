import Marbles.Importing.Phases

/-!
# The closing loop

Phase 3 goes over the rows in rounds. A round closes what nothing blocks and keeps the
rest; the loop ends with the first round that changes nothing. Every round that does
change something keeps fewer rows, so the loop ends, and what it keeps at the end are
closed rows each of which some open issue blocks. Those are then closed regardless.

The rounds are described by two relations on statuses, `Later` and `Orderly`: statuses only move
towards closed, and an issue is closed only when nothing it waits for is open. What is left when a
round has changed nothing is therefore determined by the graph and by the statuses that the rows
ask for.
-/

namespace Marbles.Jsonl

open Json (Value Object)
open Db Importing

/-! ### The refusal to close -/

theorem splitOnce_isSome {sep before after : List Char} (hsep : sep ≠ []) :
    (splitOnce sep (before ++ sep ++ after)).isSome = true := by
  induction before with
  | nil =>
      obtain ⟨c, cs, rfl⟩ := List.exists_cons_of_ne_nil hsep
      have hstart : (c :: cs).isPrefixOf ((c :: cs) ++ after) = true := by simp
      rw [List.nil_append, List.cons_append, splitOnce, ← List.cons_append, if_pos hstart]
      rfl
  | cons b before ih =>
      rw [List.cons_append, List.cons_append, splitOnce]
      split
      · rfl
      · rwa [Option.isSome_map]

/-- The importer recognises the error of closing past a blocker. -/
theorem waitsOn_recognised (id blocker : String) :
    ∃ message, waitsOn id blocker = .bad message ∧
      (splitOnce "still waits on".toList message.toList).isSome = true := by
  refine ⟨_, rfl, ?_⟩
  have hwords : " still waits on ".toList = [' '] ++ "still waits on".toList ++ [' '] := by decide
  have hsplit := @splitOnce_isSome "still waits on".toList (id.toList ++ [' '])
    (' ' :: blocker.toList ++ "; close it first or remove the dependency".toList) (by decide)
  simp only [toString, String.toList_append, hwords]
  simpa only [List.append_assoc, List.cons_append, List.nil_append] using hsplit

/-- The receipt of an imported row is never empty. -/
theorem closeEvidence_ne_nil (row : Value) : closeEvidence row ≠ [] := List.cons_ne_nil _ _

/-! ### What a round may do to the statuses -/

/-- `u'` is `u` with some open issues moved on and some issues closed. -/
structure Later (u u' : Tables) : Prop where
  keys : u'.issue.keys = u.issue.keys
  dep : u'.dep = u.dep
  closed : ∀ id row row', u.issue.find id = some row → u'.issue.find id = some row' →
    row.status = .closed → row'.status = .closed
  moved : ∀ id row row', u.issue.find id = some row → u'.issue.find id = some row' →
    row.status ≠ .«open» → row'.status ≠ .«open»

theorem Later.refl (u : Tables) : Later u u where
  keys := rfl
  dep := rfl
  closed := fun _ _ _ h h' hs => Option.some.inj (h.symm.trans h') ▸ hs
  moved := fun _ _ _ h h' hs => Option.some.inj (h.symm.trans h') ▸ hs

theorem Later.find {u u' : Tables} (h : Later u u') {id : String} {row' : IssueRow}
    (hrow' : u'.issue.find id = some row') : ∃ row, u.issue.find id = some row :=
  Table.mem_keys.mp (h.keys ▸ Table.mem_keys_of_find hrow')

theorem Later.trans {u u' u'' : Tables} (h : Later u u') (h' : Later u' u'') : Later u u'' where
  keys := h'.keys.trans h.keys
  dep := h'.dep.trans h.dep
  closed := fun id row row'' hrow hrow'' hs => by
    obtain ⟨row', hrow'⟩ := h'.find hrow''
    exact h'.closed id row' row'' hrow' hrow'' (h.closed id row row' hrow hrow' hs)
  moved := fun id row row'' hrow hrow'' hs => by
    obtain ⟨row', hrow'⟩ := h'.find hrow''
    exact h'.moved id row' row'' hrow' hrow'' (h.moved id row row' hrow hrow' hs)

/-- One issue gets a status that is not open, and is not reopened. -/
theorem Later.modify {u u' : Tables} {id : String} {f : IssueRow → IssueRow}
    (hissue : u'.issue = u.issue.modify id f) (hdep : u'.dep = u.dep)
    (hopen : ∀ row, (f row).status ≠ .«open»)
    (hclosed : ∀ row, u.issue.find id = some row → row.status = .closed →
    (f row).status = .closed) :
    Later u u' := by
  have hfind : ∀ k row row', u.issue.find k = some row → u'.issue.find k = some row' →
      row' = row ∨ k = id ∧ row' = f row := by
    intro k row row' hrow hrow'
    rw [hissue, Table.find_modify, hrow] at hrow'
    split at hrow'
    · rename_i hk
      exact Or.inr ⟨hk, (Option.some.inj hrow').symm⟩
    · exact Or.inl (Option.some.inj hrow').symm
  refine ⟨by rw [hissue, Table.keys_modify], hdep, fun k row row' hrow hrow' hs => ?_,
    fun k row row' hrow hrow' hs => ?_⟩
  · rcases hfind k row row' hrow hrow' with rfl | ⟨rfl, rfl⟩
    · exact hs
    · exact hclosed row hrow hs
  · rcases hfind k row row' hrow hrow' with rfl | ⟨-, rfl⟩
    · exact hs
    · exact hopen row

/-- What is closed or absent stays so. -/
theorem Later.isOpen {u u' : Tables} (h : Later u u') {id : String} (hid : u.isOpen id = false) :
    u'.isOpen id = false := by
  refine isOpen_of_find hid fun row' hrow' hopen => ?_
  obtain ⟨row, hrow⟩ := h.find hrow'
  exact ⟨row, hrow, fun hs => hopen (h.closed id row row' hrow hrow' hs)⟩

theorem Later.unblocked {u u' : Tables} (h : Later u u') {id : String} (hid : Unblocked u id) :
    Unblocked u' id := fun p hp => h.isOpen (hid p (dependsOn_of_dep h.dep hp))

/-- Nothing outside `old` is closed past a blocker. -/
def Orderly (old : List String) (u : Tables) : Prop :=
  ∀ id row, id ∉ old → u.issue.find id = some row → row.status = .closed → Unblocked u id

/-- Closing an issue that nothing blocks, or moving one on, is orderly. -/
theorem Orderly.modify {old : List String} {u u' : Tables} {id : String} {f : IssueRow → IssueRow}
    (h : Orderly old u) (hlater : Later u u') (hissue : u'.issue = u.issue.modify id f)
    (hf : ∀ row, (f row).status = .closed → Unblocked u id) : Orderly old u' := by
  intro k row' hk hrow' hclosed
  rw [hissue, Table.find_modify] at hrow'
  split at hrow'
  · rename_i heq
    subst heq
    obtain ⟨row, -, rfl⟩ := Option.map_eq_some_iff.mp hrow'
    exact hlater.unblocked (hf row hclosed)
  · exact hlater.unblocked (h k row' hk hrow' hclosed)

namespace Export

variable {x : Export} {t u u' v start : Tables} {cfg : Config} {env : Env}

/-- The issue of a row has moved on as the row asks. -/
structure RowDone (x : Export) (u : Tables) (row : Value) : Prop where
  closed : asked row = .closed → ∀ stored, u.issue.find (x.key row) = some stored →
    stored.status = .closed
  moved : asked row ≠ .«open» → ∀ stored, u.issue.find (x.key row) = some stored →
    stored.status ≠ .«open»

theorem RowDone.later {row : Value} (h : x.RowDone u row) (hlater : Later u u') :
    x.RowDone u' row where
  closed := fun hasked stored' hstored' => by
    obtain ⟨stored, hstored⟩ := hlater.find hstored'
    exact hlater.closed _ stored stored' hstored hstored' (h.closed hasked stored hstored)
  moved := fun hasked stored' hstored' => by
    obtain ⟨stored, hstored⟩ := hlater.find hstored'
    exact hlater.moved _ stored stored' hstored hstored' (h.moved hasked stored hstored)

/-- Where the loop is, `t` being the store before the import and `v` before the loop. -/
structure Settles (x : Export) (t v u : Tables) : Prop where
  under : x.Underway t u
  later : Later v u
  orderly : Orderly t.issue.keys u

/-- An issue that is not closed and that something blocks. -/
structure Waiting (u : Tables) (id : String) : Prop where
  blocked : ¬ Unblocked u id
  unclosed : ∀ stored, u.issue.find id = some stored → stored.status ≠ .closed

/-- A round that began in `start` has gone over these rows. A round without progress is the last
one, and then everything that failed still waits. -/
structure Round (x : Export) (start : Tables) (rows : List Pending) (progressed : Bool)
    (failed : List Pending) (u : Tables) : Prop where
  sublist : failed.Sublist rows
  closed : ∀ p ∈ failed, asked p.row = .closed
  done : ∀ p ∈ rows, p ∈ failed ∨ x.RowDone u p.row
  later : Later start u
  stuck : progressed = false → u = start ∧ ∀ p ∈ failed, Waiting u p.id
  fewer : progressed = true → failed.length < rows.length

theorem Round.progress {rows failed : List Pending} {progressed : Bool} {p : Pending}
    (h : x.Round start rows progressed failed u) (hlater : Later u u')
    (hdone : x.RowDone u' p.row) :
    x.Round start (rows ++ [p]) true failed u' where
  sublist := h.sublist.trans (List.sublist_append_left ..)
  closed := h.closed
  done := fun q hq => by
    rcases List.mem_append.mp hq with hq | hq
    · exact (h.done q hq).imp_right fun hd => hd.later hlater
    · exact Or.inr (List.mem_singleton.mp hq ▸ hdone)
  later := h.later.trans hlater
  stuck := nofun
  fewer := fun _ => by
    rw [List.length_append, List.length_singleton]
    exact Nat.lt_succ_of_le h.sublist.length_le

theorem Round.wait {rows failed : List Pending} {progressed : Bool} {p : Pending}
    (h : x.Round start rows progressed failed u) (hclosed : asked p.row = .closed)
    (hwaiting : Waiting u p.id) : x.Round start (rows ++ [p]) progressed (failed ++ [p]) u where
  sublist := h.sublist.append (List.Sublist.refl _)
  closed := fun q hq => (List.mem_append.mp hq).elim (h.closed q) fun hq =>
    List.mem_singleton.mp hq ▸ hclosed
  done := fun q hq => by
    rcases List.mem_append.mp hq with hq | hq
    · exact (h.done q hq).imp_left (List.mem_append_left _)
    · exact Or.inl (List.mem_append_right _ hq)
  later := h.later
  stuck := fun hnone => ⟨(h.stuck hnone).1, fun q hq => (List.mem_append.mp hq).elim
    ((h.stuck hnone).2 q) fun hq => List.mem_singleton.mp hq ▸ hwaiting⟩
  fewer := fun hsome => by
    rw [List.length_append, List.length_append]
    exact Nat.add_lt_add_right (h.fewer hsome) _

theorem Round.pass {rows failed : List Pending} {progressed : Bool} {p : Pending}
    (h : x.Round start rows progressed failed u) (hdone : x.RowDone u p.row) :
    x.Round start (rows ++ [p]) progressed failed u where
  sublist := h.sublist.trans (List.sublist_append_left ..)
  closed := h.closed
  done := fun q hq => by
    rcases List.mem_append.mp hq with hq | hq
    · exact h.done q hq
    · exact Or.inr (List.mem_singleton.mp hq ▸ hdone)
  later := h.later
  stuck := h.stuck
  fewer := fun hsome => by
    rw [List.length_append]
    exact Nat.lt_add_right _ (h.fewer hsome)

/-- In the first round, an issue that is still open takes the first status its rows ask for. -/
theorem Round.first {rows failed : List Pending} {progressed : Bool} {p : Pending}
    {rest : List Value} (h : x.Round start rows progressed failed u)
    (hrows : x.rows = rows.map Pending.row ++ p.row :: rest) (hasked : asked p.row ≠ .«open»)
    (hopen : ∀ stored, u.issue.find (x.key p.row) = some stored → stored.status = .«open»)
    (hstored : x.key p.row ∈ u.issue.keys) :
    ((x.rowsOf (x.key p.row)).map asked).find? (· ≠ .«open») = some (asked p.row) ∨
      .closed ∈ (x.rowsOf (x.key p.row)).map asked := by
  by_cases hclosed : Status.closed ∈ (x.rowsOf (x.key p.row)).map asked
  · exact Or.inr hclosed
  obtain ⟨stored, hfind⟩ := Table.mem_keys.mp hstored
  -- the rows before it ask for nothing else, or the issue would not be open any more
  have hbefore : (((rows.map Pending.row).filter fun r => x.key r = x.key p.row).map asked).find?
      (· ≠ .«open») = none := by
    rw [List.find?_eq_none]
    intro st hst
    obtain ⟨r, hr, rfl⟩ := List.mem_map.mp hst
    obtain ⟨hr, hkey⟩ := List.mem_filter.mp hr
    obtain ⟨q, hq, rfl⟩ := List.mem_map.mp hr
    have hkey : x.key q.row = x.key p.row := by simpa using hkey
    have hnot : asked q.row ≠ .closed := fun heq => hclosed (heq ▸ List.mem_map_of_mem
      (mem_rowsOf.mpr ⟨hrows ▸ List.mem_append_left _ (List.mem_map_of_mem hq), hkey⟩))
    have hdone := (h.done q hq).resolve_left fun hfailed => hnot (h.closed q hfailed)
    rw [decide_eq_true_eq, not_not]
    by_contra hne
    exact hdone.moved hne stored (hkey ▸ hfind) (hopen stored hfind)
  refine Or.inl ?_
  rw [rowsOf, hrows, List.filter_append, List.map_append, List.find?_append, hbefore,
    List.filter_cons_of_pos (by simp), List.map_cons,
      List.find?_cons_of_pos (by simpa using hasked)]
  rfl

/-- A pending row of the export, whose issue is stored. -/
structure Ready (x : Export) (v : Tables) (p : Pending) : Prop where
  row : p.row ∈ x.rows
  id : p.id = x.key p.row
  readable : Readable p.row
  stored : x.key p.row ∈ v.issue.keys

theorem runs_settleRow {rows failed : List Pending} {progressed : Bool} {p : Pending} {n : Nat}
    (hready : x.Ready v p) (hs : x.Settles t v u)
    (hfirst : asked p.row = .closed ∨ ∃ rest, x.rows = rows.map Pending.row ++ p.row :: rest)
    (h : x.Round start rows progressed failed u) :
    Runs (Scope.exec cfg) (x.Underway t)
      (fun (acc : Bool × List Pending) u' =>
        x.Round start (rows ++ [p]) acc.1 acc.2 u' ∧ x.Settles t v u')
      (fun _ _ => False) (settleRow env n (progressed, failed) p) u := by
  obtain ⟨status, hstatus⟩ := hready.readable.status
  have htext := asked_asStr hstatus
  have hstored : x.key p.row ∈ u.issue.keys := hs.later.keys ▸ hready.stored
  obtain ⟨stored, hfind⟩ := Table.mem_keys.mp hstored
  have honly : ∀ other, u.issue.find (x.key p.row) = some other → other = stored :=
      fun other hother =>
    Option.some.inj (hother.symm.trans hfind)
  unfold settleRow
  dsimp only
  rw [hstatus, hready.id]
  refine Runs.bind (q := fun s w => s = status ∧ w = u) (.pure hs.under ⟨rfl, rfl⟩) ?_
  rintro _ w - ⟨rfl, rfl⟩
  refine Runs.bind (q := fun issue w' => w' = w ∧ issue.status = stored.status.asStr)
    (runs_orElseFail (runs_get hs.under (fun other hother => ⟨rfl, ?_⟩) fun hnone => ?_)) ?_
  · rw [honly other hother]
    rfl
  · rw [hfind] at hnone
    cases hnone
  rintro current w - ⟨rfl, hcurrent⟩
  rw [hcurrent, ← htext]
  simp only [Status.asStr_eq_closed, Status.asStr_eq_open, ne_eq]
  refine .ite (fun hclose => ?_) fun hnotclose => .ite (fun hmove => ?_) fun hnotmove => ?_
  · -- the row is closed and its issue is not
    obtain ⟨hasked, hunclosed⟩ := hclose
    have hmem : Status.closed ∈ (x.rowsOf (x.key p.row)).map asked :=
      hasked ▸ List.mem_map_of_mem (mem_rowsOf.mpr ⟨hready.row, rfl⟩)
    refine runs_attempt (runs_close hs.under hstored rfl (fun hunblocked w' hi hd hp => ?_)
      fun hblocked blocker => ?_)
    · have hunder : x.Underway t w' :=
        ⟨hs.under.advances.trans (.close hi hd hp hmem (closeEvidence_ne_nil _)),
          hs.under.graph.frame (fun k hk => by rwa [hi, Table.keys_modify]) hd⟩
      have hlater : Later w w' := .modify hi hd (fun _ => Status.noConfusion) fun _ _ _ => rfl
      have hdone : x.RowDone w' p.row := by
        refine ⟨fun _ other hother => ?_, fun _ other hother => ?_⟩ <;>
          · rw [hi, Table.find_modify_self, hfind] at hother
            cases hother
            simp [IssueRow.close]
      exact ⟨hunder, fun _ => .pure hunder ⟨h.progress hlater hdone, hunder, hs.later.trans hlater,
        hs.orderly.modify hlater hi fun _ _ => hunblocked⟩⟩
    · obtain ⟨message, hmessage, hfound⟩ := waitsOn_recognised (x.key p.row) blocker
      rw [hmessage]
      refine .ite (fun _ => .pure hs.under ⟨h.wait hasked ?_, hs⟩) fun hlost => absurd hfound hlost
      rw [hready.id]
      exact ⟨hblocked, fun other hother => honly other hother ▸ hunclosed⟩
  · -- the row is neither open nor closed, and its issue is open
    obtain ⟨hne, hnc, hopen⟩ := hmove
    refine Runs.bind (runs_orElseFail
      (runs_restate hs.under (fun st closedAt available hst _ w' hi hd hp => ?_)
      fun hbad _ => ?_)) fun _ w' hunder' hdone => .pure hunder' hdone
    · obtain rfl := Option.some.inj ((Status.parse_asStr _).symm.trans hst)
      obtain ⟨rest, hrows⟩ := hfirst.resolve_left hnc
      have hfirst := h.first hrows hne (fun other hother => honly other hother ▸ hopen) hstored
      have hunder : x.Underway t w' :=
        ⟨hs.under.advances.trans (.restate hi hd hp (fun other hother => honly other hother ▸ hopen)
            hnc hfirst), hs.under.graph.frame (fun k hk => by rwa [hi, Table.keys_modify]) hd⟩
      have hlater : Later w w' := .modify hi hd (fun _ => hne) fun other hother hclosed => by
        rw [honly other hother, hopen] at hclosed
        cases hclosed
      have hdone : x.RowDone w' p.row := by
        refine ⟨fun hasked => absurd hasked hnc, fun _ other hother => ?_⟩
        rw [hi, Table.find_modify_self, hfind] at hother
        cases hother
        exact hne
      exact ⟨hunder, fun _ => ⟨h.progress hlater hdone, hunder, hs.later.trans hlater,
        hs.orderly.modify hlater hi fun _ hclosed => absurd hclosed hnc⟩⟩
    · rcases hbad with hbad | hbad
      · exact hbad (mem_allStatuses.mpr ⟨_, Status.parse_asStr _⟩)
      · exact hbad hstored
  · -- nothing is left to do for the row
    refine .pure hs.under ⟨h.pass ⟨fun hasked other hother => ?_,
      fun hasked other hother hstill => ?_⟩, hs⟩
    · by_contra hunclosed
      exact hnotclose ⟨hasked, honly other hother ▸ hunclosed⟩
    · by_cases hclosed : asked p.row = .closed
      · refine hnotclose ⟨hclosed, fun heq => ?_⟩
        rw [honly other hother, heq] at hstill
        cases hstill
      · exact hnotmove ⟨hasked, hclosed, honly other hother ▸ hstill⟩

theorem runs_round {pending : List Pending} {n : Nat} (hready : ∀ p ∈ pending, x.Ready v p)
    (hs : x.Settles t v u)
    (hfirst : pending.map Pending.row = x.rows ∨ ∀ p ∈ pending, asked p.row = .closed) :
    Runs (Scope.exec cfg) (x.Underway t)
      (fun (acc : Bool × List Pending) u' => x.Round u pending acc.1 acc.2 u' ∧ x.Settles t v u')
      (fun _ _ => False) (pending.foldlM (settleRow env n) (false, [])) u := by
  refine Runs.foldlM (q := fun pre (acc : Bool × List Pending) u' =>
    x.Round u pre acc.1 acc.2 u' ∧ x.Settles t v u') hs.under
    ⟨⟨.refl _, nofun, nofun, .refl u, fun _ => ⟨rfl, nofun⟩, nofun⟩, hs⟩ ?_
  rintro pre p post ⟨progressed, failed⟩ u' hsplit - ⟨hround, hs'⟩
  have hmem : p ∈ pending := hsplit ▸ List.mem_append_right _ (List.mem_cons_self ..)
  refine runs_settleRow (hready p hmem) hs' ?_ hround
  rcases hfirst with hall | hclosed
  · refine Or.inr ⟨post.map Pending.row, ?_⟩
    rw [← hall, hsplit, List.map_append, List.map_cons]
  · exact Or.inl (hclosed p hmem)

/-- What the loop leaves: closed rows that wait, every other row being done. -/
structure Left (x : Export) (pending left : List Pending) (u : Tables) : Prop where
  sublist : left.Sublist pending
  closed : ∀ p ∈ left, asked p.row = .closed
  waiting : ∀ p ∈ left, Waiting u p.id
  done : ∀ row ∈ x.rows, (∃ p ∈ left, p.row = row) ∨ x.RowDone u row

theorem runs_settle {pending : List Pending} {fuel n : Nat} (hready : ∀ p ∈ pending, x.Ready v p)
    (hs : x.Settles t v u)
    (hfirst : pending.map Pending.row = x.rows ∨ ∀ p ∈ pending, asked p.row = .closed)
    (hdone : ∀ row ∈ x.rows, (∃ p ∈ pending, p.row = row) ∨ x.RowDone u row)
    (hfuel : pending.length < fuel) :
    Runs (Scope.exec cfg) (x.Underway t)
      (fun left u' => x.Left pending left u' ∧ x.Settles t v u') (fun _ _ => False)
      (settle env fuel n pending) u := by
  induction fuel generalizing n pending u with
  | zero => exact absurd hfuel (Nat.not_lt_zero _)
  | succ fuel ih =>
      unfold settle
      refine (runs_round hready hs hfirst).bind ?_
      rintro ⟨progressed, failed⟩ u' - ⟨hround, hs'⟩
      have hleft : ∀ row ∈ x.rows, (∃ p ∈ failed, p.row = row) ∨ x.RowDone u' row := by
        intro row hrow
        rcases hdone row hrow with ⟨p, hp, rfl⟩ | hdone
        · exact (hround.done p hp).imp_left fun hfailed => ⟨p, hfailed, rfl⟩
        · exact Or.inr (hdone.later hround.later)
      cases progressed with
      | false =>
          exact .pure hs'.under ⟨⟨hround.sublist, hround.closed, (hround.stuck rfl).2, hleft⟩, hs'⟩
      | true =>
          have hfewer := hround.fewer rfl
          refine (ih (fun p hp => hready p (hround.sublist.subset hp)) hs' (Or.inr hround.closed)
            hleft
            (by omega)).imp fun left w _ ⟨hleft', hs''⟩ => ⟨⟨hleft'.sublist.trans hround.sublist,
              hleft'.closed, hleft'.waiting, hleft'.done⟩, hs''⟩

/-! ### The forced pass -/

/-- `w` is `u` with these issues closed. -/
structure ClosedIn (u : Tables) (ids : List String) (w : Tables) : Prop where
  later : Later u w
  closed : ∀ id ∈ ids, ∀ row, w.issue.find id = some row → row.status = .closed
  others : ∀ id, id ∉ ids →
    (w.issue.find id).map IssueRow.status = (u.issue.find id).map IssueRow.status

theorem runs_closeException {ids : List String} {report : ImportReport} {p : Pending} {w : Tables}
    (hready : x.Ready v p) (hvu : Later v u) (hasked : asked p.row = .closed)
    (hunder : x.Underway t w)
    (h : ClosedIn u ids w) :
    Runs (Scope.exec cfg) (x.Underway t)
      (fun report' w' => report' = { report with exceptionClosed := report.exceptionClosed + 1 } ∧
        ClosedIn u (ids ++ [p.id]) w') (fun _ _ => False) (closeException env report p) w := by
  have hmem : Status.closed ∈ (x.rowsOf p.id).map asked :=
    hasked ▸ List.mem_map_of_mem (mem_rowsOf.mpr ⟨hready.row, hready.id.symm⟩)
  have hstored : p.id ∈ w.issue.keys := by
    rw [h.later.keys, hvu.keys, hready.id]
    exact hready.stored
  unfold closeException
  refine Runs.bind (runs_orElseFail (runs_closeUnchecked hunder hstored fun w' hi hd hp => ?_))
    fun _ w' hunder' hclosed => .pure hunder' ⟨rfl, hclosed⟩
  have hlater : Later w w' := .modify hi hd (fun _ => nofun) fun _ _ _ => rfl
  refine ⟨⟨hunder.advances.trans (.close hi hd hp hmem (List.cons_ne_nil _ _)),
    hunder.graph.frame (fun k hk => by rwa [hi, Table.keys_modify]) hd⟩,
    fun _ => ⟨h.later.trans hlater, fun id hid row hrow => ?_, fun id hid => ?_⟩⟩
  · rw [hi, Table.find_modify] at hrow
    split at hrow
    · obtain ⟨old, -, rfl⟩ := Option.map_eq_some_iff.mp hrow
      rfl
    · rename_i hne
      exact h.closed id ((List.mem_append.mp hid).resolve_right fun heq =>
        hne (List.mem_singleton.mp heq)) row hrow
  · rw [List.mem_append, List.mem_singleton, not_or] at hid
    rw [hi, Table.find_modify_ne hid.2]
    exact h.others id hid.1

theorem runs_closeExceptions {pending left : List Pending} {report : ImportReport}
    (hready : ∀ p ∈ pending, x.Ready v p) (hs : x.Settles t v u) (hleft : x.Left pending left u) :
    Runs (Scope.exec cfg) (x.Underway t)
      (fun report' w => report' = { report with
          exceptionClosed := report.exceptionClosed + (left.length : Nat) } ∧
        ClosedIn u (left.map Pending.id) w) (fun _ _ => False)
      (left.foldlM (closeException env) report) u := by
  have hstart : report = { report with
      exceptionClosed := report.exceptionClosed + (([] : List Pending).length : Nat) } := by simp
  refine Runs.foldlM (q := fun pre report' w => report' = { report with
      exceptionClosed := report.exceptionClosed + (pre.length : Nat) } ∧
    ClosedIn u (pre.map Pending.id) w) hs.under ⟨hstart, .refl u, nofun, fun _ _ => rfl⟩ ?_
  rintro pre p post report' w hsplit hunder ⟨rfl, hclosed⟩
  have hmem : p ∈ left := hsplit ▸ List.mem_append_right _ (List.mem_cons_self ..)
  refine (runs_closeException (hready p (hleft.sublist.subset hmem)) hs.later (hleft.closed p hmem)
    hunder hclosed).imp fun report'' w' _ ⟨hreport, h⟩ => ⟨?_, ?_⟩
  · rw [hreport, List.length_append, List.length_singleton]
    push_cast
    rw [Int.add_assoc]
  · rwa [List.map_append]

end Export

end Marbles.Jsonl
