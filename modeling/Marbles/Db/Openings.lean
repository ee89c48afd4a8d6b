import Marbles.Db.Outbox

/-!
# The identity of a database file

A file has a store id of its own, which every event in its outbox carries. Opening a file
reads the id, generates one if there is none, and stamps the events of an older schema.
These are separate statements, so processes that open the same file interleave with each
other and with the lock scopes of those that have it open already.

An event keeps its id for as long as it is in the outbox, whatever happens. That it is the
id of the file needs one thing more: an id that is generated is written before another
process has generated one.

A process that opens a file goes from statement to statement, and any of them may be its last. The
history of ids is that of the file: once a row carries an id it is not stamped again, and the
file's own id is written only where there is none. The race is between two processes that both
found none.
-/

namespace Marbles.Db

/-! ### Opening a file -/

/-- A fresh store id, from the random bytes in hexadecimal. -/
def newStoreId (hex : String) : String := "store_" ++ hex

/-- `INSERT INTO store_meta … ON CONFLICT DO UPDATE`. -/
def writeStoreId (storeId : String) (t : Tables) : Tables := { t with storeId := storeId }

/-- Only an event without an id is stamped: an id that is there is what receivers have seen. -/
def OutboundRow.stamp (storeId : String) (row : OutboundRow) : OutboundRow :=
  if row.storeId = "" then { row with storeId := storeId } else row

/-- Events without an id get the one of the opener. -/
def backfillOutboundStoreId (storeId : String) (t : Tables) : Tables :=
  { t with ledger := t.ledger.mark fun _ row => row.stamp storeId }

/-- The transaction of `set_store_id`. -/
def setStoreIdTx (storeId : String) : Tx Unit := fun t =>
  if t.ledger.outbound.rows ≠ [] then
    Outcome.fail (.bad "cannot change store id after outbound events were recorded")
  else .ok ((), writeStoreId storeId t)

/-- How far a process has come. `missing` is that it found no id. -/
inductive Opening where
  | closed
  | missing
  | stamping (storeId : String)
  | opened (storeId : String)
  deriving DecidableEq

/-- A file, empty before the first opening, and the processes. -/
structure Shared where
  tables : Tables
  process : Nat → Opening

/-- What a process does next. The statements of opening a file are separate steps, since processes
open it without a common lock. -/
inductive Visit where
  /-- Look for the id of the file. -/
  | read (p : Nat)
  /-- Write an id that was generated. -/
  | create (p : Nat) (hex : String)
  | backfill (p : Nat)
  | setStoreId (p : Nat) (storeId : String)
  | scope (p : Nat) (s : Scope)
  /-- The process is gone. -/
  | exit (p : Nat)

namespace Shared

/-- No id, no rows, nobody there. -/
def empty : Shared := ⟨.empty "", fun _ => .closed⟩

/-- A process is at another point of its opening; the file is as it was. -/
def enter (w : Shared) (p : Nat) (phase : Opening) : Shared :=
  { w with process := Function.update w.process p phase }

/-- Whether there is an id, as the process sees it. What it found may be out of date when it acts on
it. -/
def read (p : Nat) (w : Shared) : Shared :=
  match w.process p with
  | .closed => w.enter p (if w.tables.storeId = "" then .missing else .stamping w.tables.storeId)
  | _ => w

/-- An id that was generated replaces whatever is there by now. -/
def create (p : Nat) (hex : String) (w : Shared) : Shared :=
  match w.process p with
  | .missing =>
      { w with tables := writeStoreId (newStoreId hex) w.tables }.enter p
        (.stamping (newStoreId hex))
  | _ => w

/-- The last statement of the opening; the process works under the id it read or wrote, not under
the one the file has by now. -/
def backfill (p : Nat) (w : Shared) : Shared :=
  match w.process p with
  | .stamping storeId =>
      { w with tables := backfillOutboundStoreId storeId w.tables }.enter p (.opened storeId)
  | _ => w

/-- An empty id is refused, and the one that the process knows already is not written. The handle
keeps the id it was told, whatever the file says later. -/
def setStoreId (p : Nat) (storeId : String) (w : Shared) : Shared :=
  match w.process p with
  | .opened current =>
      if storeId = "" ∨ current = storeId then w
      else match setStoreIdTx storeId w.tables with
        | .ok (_, t) => { w with tables := t }.enter p (.opened storeId)
        | .error _ => w
  | _ => w

/-- A scope of a process that has the file open. Reading and writing rows does not need the id. -/
def scope (cfg : Config) (p : Nat) (s : Scope) (w : Shared) : Shared :=
  match w.process p with
  | .opened _ => { w with tables := (s.exec cfg (.new w.tables)).2.state }
  | _ => w

/-- What one statement of one process does. -/
def step (cfg : Config) (visit : Visit) (w : Shared) : Shared :=
  match visit with
  | .read p => w.read p
  | .create p hex => w.create p hex
  | .backfill p => w.backfill p
  | .setStoreId p storeId => w.setStoreId p storeId
  | .scope p s => w.scope cfg p s
  | .exit p => w.enter p .closed

/-- Any order of the statements of any processes. -/
def run (cfg : Config) (visits : List Visit) (w : Shared) : Shared :=
  Machine.run (step cfg) visits w

/-- An id that was generated is written to a file that still has none. -/
def First (w : Shared) : Visit → Prop
  | .create p _ => w.process p = .missing → w.tables.storeId = ""
  | _ => True

instance (w : Shared) (visit : Visit) : Decidable (w.First visit) := by
  unfold First
  split <;> infer_instance

end Shared

/-! ### Events keep their ids -/

/-- From `t` to `t'` no event changed its columns, and no key was used again. -/
structure Keeps (t t' : Tables) : Prop where
  last : t.ledger.history.last ≤ t'.ledger.history.last
  outbound : ∀ seq o', t'.ledger.outbound.find seq = some o' →
    (∃ o, t.ledger.outbound.find seq = some o ∧ o'.event? = o.event?) ∨
      t.ledger.history.last < seq

theorem Keeps.same {t t' : Tables} (h : t'.ledger = t.ledger) : Keeps t t' :=
  ⟨h ▸ Nat.le_refl _, fun _ o' ho' => Or.inl ⟨o', h ▸ ho', rfl⟩⟩

theorem Keeps.trans {t t' t'' : Tables} (h : Keeps t t') (h' : Keeps t' t'') : Keeps t t'' := by
  refine ⟨Nat.le_trans h.last h'.last, fun seq o'' ho'' => ?_⟩
  rcases h'.outbound seq o'' ho'' with ⟨o', ho', hevent'⟩ | hlast
  · rcases h.outbound seq o' ho' with ⟨o, ho, hevent⟩ | hlast
    · exact Or.inl ⟨o, ho, hevent'.trans hevent⟩
    · exact Or.inr hlast
  · exact Or.inr (Nat.lt_of_le_of_lt h.last hlast)

theorem Carries.keeps {t t' : Tables} (h : Carries t t') : Keeps t t' := by
  refine ⟨h.last, fun seq o' ho' => ?_⟩
  rcases h.outbound seq o' ho' with ⟨o, ho, htried⟩ | ⟨hlast, -⟩
  · exact Or.inl ⟨o, ho, htried.event⟩
  · exact Or.inr hlast

/-- Every event carries an id. -/
def Ided (t : Tables) : Prop :=
  ∀ seq o, t.ledger.outbound.find seq = some o → o.storeId ≠ ""

/-- Every event carries the id of the file. -/
def Stamped (t : Tables) : Prop :=
  ∀ seq o, t.ledger.outbound.find seq = some o → o.storeId = t.storeId

theorem Ided.carries {t t' : Tables} (h : Ided t) (hid : t.storeId ≠ "") (hc : Carries t t') :
    Ided t' := fun seq o' ho' => by
  rcases hc.outbound seq o' ho' with ⟨o, ho, htried⟩ | ⟨-, hstore⟩
  · have hsame : o'.storeId = o.storeId := congrArg Prod.fst htried.event
    exact hsame ▸ h seq o ho
  · exact hstore ▸ hid

theorem Stamped.carries {t t' : Tables} (h : Stamped t) (hc : Carries t t') : Stamped t' :=
  fun seq o' ho' => by
    rcases hc.outbound seq o' ho' with ⟨o, ho, htried⟩ | ⟨-, hstore⟩
    · have hsame : o'.storeId = o.storeId := congrArg Prod.fst htried.event
      exact (hsame.trans (h seq o ho)).trans hc.store.symm
    · exact hstore.trans hc.store.symm

/-- There is nothing left to stamp. -/
theorem backfillOutboundStoreId_eq {t : Tables} (h : Ided t) (storeId : String) :
    backfillOutboundStoreId storeId t = t := by
  have hrows : t.ledger.outbound.mapRows (fun _ row => row.stamp storeId) = t.ledger.outbound :=
    Table.mapRows_eq_self fun seq row hrow => if_neg (h seq row hrow)
  have hmark : t.ledger.mark (fun _ row => row.stamp storeId) = t.ledger := Ledger.ext rfl hrows
  unfold backfillOutboundStoreId
  rw [hmark]

theorem setStoreIdTx_ok {storeId : String} {t t' : Tables} {u : Unit}
    (h : setStoreIdTx storeId t = .ok (u, t')) :
    t.ledger.outbound.rows = [] ∧ t' = writeStoreId storeId t := by
  unfold setStoreIdTx at h
  split at h
  · exact absurd h Outcome.fail_ne_ok
  · rename_i hnone
    cases h
    exact ⟨not_not.mp hnone, rfl⟩

theorem newStoreId_ne (hex : String) : newStoreId hex ≠ "" := by
  intro h
  have hlength := congrArg String.length h
  simp [newStoreId, String.length_append] at hlength

namespace Shared

/-- Nobody has come to an id that is none, and no event is without one. -/
structure Named (w : Shared) : Prop where
  rows : Ided w.tables
  known : ∀ p storeId, w.process p = .stamping storeId ∨ w.process p = .opened storeId →
    storeId ≠ "" ∧ w.tables.storeId ≠ ""

theorem named_empty : Named empty := ⟨nofun, fun _ _ h => by rcases h with h | h <;> cases h⟩

/-- A process moves on, and the tables with it. -/
theorem Named.enter {w : Shared} (h : Named w) {t : Tables} {p : Nat} {phase : Opening}
    (hrows : Ided t) (hid : w.tables.storeId ≠ "" → t.storeId ≠ "")
    (hphase : ∀ storeId, phase = .stamping storeId ∨ phase = .opened storeId →
      storeId ≠ "" ∧ t.storeId ≠ "") :
    Named ({ w with tables := t }.enter p phase) := by
  refine ⟨hrows, fun q storeId hq => ?_⟩
  by_cases hqp : q = p
  · subst hqp
    refine hphase storeId ?_
    simpa [Shared.enter] using hq
  · have hold : w.process q = .stamping storeId ∨ w.process q = .opened storeId := by
      simpa [Shared.enter, hqp] using hq
    exact ⟨(h.known q storeId hold).1, hid (h.known q storeId hold).2⟩

/-- What a visit that takes `w` to `w'` does to the tables. -/
structure Visited (w : Shared) (visit : Visit) (w' : Shared) : Prop where
  named : Named w'
  tables : w'.tables = w.tables ∨ Carries w.tables w'.tables ∨
    ∃ storeId, w'.tables = writeStoreId storeId w.tables ∧
      (w.First visit → w.tables.ledger.outbound.rows = [] ∨ w.tables.storeId = "")

theorem Named.idle {w : Shared} (h : Named w) (visit : Visit) : Visited w visit w := ⟨h, Or.inl rfl⟩

theorem Named.read {w : Shared} (h : Named w) (p : Nat) : Visited w (.read p) (w.read p) := by
  unfold Shared.read
  split
  · refine ⟨h.enter h.rows id fun storeId hphase => ?_, Or.inl rfl⟩
    split at hphase
    · rcases hphase with hphase | hphase <;> cases hphase
    · rename_i hid
      rcases hphase with hphase | hphase <;> cases hphase
      exact ⟨hid, hid⟩
  · exact h.idle _

theorem Named.create {w : Shared} (h : Named w) (p : Nat) (hex : String) :
    Visited w (.create p hex) (w.create p hex) := by
  unfold Shared.create
  split
  · rename_i hmissing
    refine ⟨h.enter h.rows (fun _ => newStoreId_ne hex) fun storeId hphase => ?_,
      Or.inr (Or.inr ⟨_, rfl, fun hfirst => Or.inr (hfirst hmissing)⟩)⟩
    rcases hphase with hphase | hphase <;> cases hphase
    exact ⟨newStoreId_ne hex, newStoreId_ne hex⟩
  · exact h.idle _

theorem Named.backfill {w : Shared} (h : Named w) (p : Nat) :
    Visited w (.backfill p) (w.backfill p) := by
  unfold Shared.backfill
  split
  · rename_i storeId hphase
    rw [backfillOutboundStoreId_eq h.rows]
    refine ⟨h.enter h.rows id fun storeId' hphase' => ?_, Or.inl rfl⟩
    rcases hphase' with hphase' | hphase' <;> cases hphase'
    exact h.known p storeId (Or.inl hphase)
  · exact h.idle _

theorem Named.setStoreId {w : Shared} (h : Named w) (p : Nat) (storeId : String) :
    Visited w (.setStoreId p storeId) (w.setStoreId p storeId) := by
  unfold Shared.setStoreId
  split
  · split
    · exact h.idle _
    · rename_i hnew
      obtain ⟨hne, -⟩ := not_or.mp hnew
      split
      · rename_i u t hok
        obtain ⟨hnone, rfl⟩ := setStoreIdTx_ok hok
        refine ⟨h.enter h.rows (fun _ => hne) fun storeId' hphase' => ?_,
          Or.inr (Or.inr ⟨_, rfl, fun _ => Or.inl hnone⟩)⟩
        rcases hphase' with hphase' | hphase' <;> cases hphase'
        exact ⟨hne, hne⟩
      · exact h.idle _
  · exact h.idle _

theorem Named.scope {cfg : Config} {w : Shared} (h : Named w) (p : Nat) (s : Scope) :
    Visited w (.scope p s) (w.scope cfg p s) := by
  unfold Shared.scope
  split
  · rename_i storeId hphase
    have hid := (h.known p storeId (Or.inr hphase)).2
    have hcarries := exec_carries cfg s (.new w.tables)
    refine ⟨⟨h.rows.carries hid hcarries, fun q storeId' hq => ?_⟩, Or.inr (Or.inl hcarries)⟩
    exact ⟨(h.known q storeId' hq).1, hcarries.store.symm ▸ hid⟩
  · exact h.idle _

theorem Named.step {w : Shared} (h : Named w) (cfg : Config) (visit : Visit) :
    Visited w visit (w.step cfg visit) := by
  cases visit with
  | read p => exact h.read p
  | create p hex => exact h.create p hex
  | backfill p => exact h.backfill p
  | setStoreId p storeId => exact h.setStoreId p storeId
  | scope p s => exact h.scope p s
  | exit p =>
      refine ⟨h.enter h.rows id fun storeId hphase => ?_, Or.inl rfl⟩
      rcases hphase with hphase | hphase <;> cases hphase

theorem Visited.keeps {w w' : Shared} {visit : Visit} (h : Visited w visit w') :
    Keeps w.tables w'.tables := by
  rcases h.tables with heq | hcarries | ⟨storeId, heq, -⟩
  · exact .same (congrArg Tables.ledger heq)
  · exact hcarries.keeps
  · exact .same (heq ▸ rfl)

theorem Visited.stamped {w w' : Shared} {visit : Visit} (h : Visited w visit w') (hw : Named w)
    (hstamped : Stamped w.tables) (hfirst : w.First visit) : Stamped w'.tables := by
  rcases h.tables with heq | hcarries | ⟨storeId, heq, hwhen⟩
  · exact heq ▸ hstamped
  · exact hstamped.carries hcarries
  · -- an id is written over another one only when there is no event
    intro seq o ho
    rw [heq] at ho
    rcases hwhen hfirst with hnone | hid
    · exact absurd (Table.mem_rows.mpr ho) (hnone ▸ List.not_mem_nil)
    · exact absurd ((hstamped seq o ho).trans hid) (hw.rows seq o ho)

theorem named_run (cfg : Config) (visits : List Visit) {w : Shared} (h : Named w) :
    Named (run cfg visits w) :=
  Machine.invariant Named (fun _ visit hw => (hw.step cfg visit).named) visits h

theorem keeps_run (cfg : Config) (visits : List Visit) {w : Shared} (h : Named w) :
    Keeps w.tables (run cfg visits w).tables := by
  refine (Machine.invariant (fun w' : Shared => Named w' ∧ Keeps w.tables w'.tables)
    (fun w' visit hw' => ?_) visits ⟨h, .same rfl⟩).2
  have hvisited := hw'.1.step cfg visit
  exact ⟨hvisited.named, hw'.2.trans hvisited.keeps⟩

end Shared

/-- However processes open a file, set its id and use it, an event that is in the outbox at two
moments has the same columns at both, its id among them. If every id that is generated is written to
a file that still has none, all events carry the id of the file, which therefore does not change as
long as one event stays. The second half has its condition because two processes may both find no id
and write one after the other. -/
theorem event_identity_stable (cfg : Config) (earlier later : List Visit) :
    let w := Shared.run cfg earlier .empty
    let w' := Shared.run cfg later w
    (∀ seq o o', w.tables.ledger.outbound.find seq = some o →
      w'.tables.ledger.outbound.find seq = some o' → o'.event? = o.event?) ∧
    (Machine.Meets (Shared.step cfg) Shared.First (earlier ++ later) .empty →
      Stamped w.tables ∧ Stamped w'.tables ∧
      ∀ seq, seq ∈ w.tables.ledger.outbound.keys → seq ∈ w'.tables.ledger.outbound.keys →
        w'.tables.storeId = w.tables.storeId) := by
  intro w w'
  have hw : Shared.Named w := Shared.named_run cfg earlier Shared.named_empty
  have hsame : ∀ seq o o', w.tables.ledger.outbound.find seq = some o →
      w'.tables.ledger.outbound.find seq = some o' → o'.event? = o.event? := by
    intro seq o o' ho ho'
    rcases (Shared.keeps_run cfg later hw).outbound seq o' ho' with ⟨o₀, ho₀, hevent⟩ | hlast
    · obtain rfl := Option.some.inj (ho.symm.trans ho₀)
      exact hevent
    · -- the key was assigned before
      exact absurd (w.tables.ledger.assigned seq (Table.mem_keys_of_find ho)) (Nat.not_le.mpr hlast)
  refine ⟨hsame, fun hfirst => ?_⟩
  have hstamped : ∀ (visits : List Visit) {w : Shared}, Shared.Named w ∧ Stamped w.tables →
      Machine.Meets (Shared.step cfg) Shared.First visits w →
      Shared.Named (Shared.run cfg visits w) ∧ Stamped (Shared.run cfg visits w).tables :=
    fun visits {_} h hm => Machine.invariant_of_meets
      (fun w : Shared => Shared.Named w ∧ Stamped w.tables)
      (fun w visit h hf => ⟨(h.1.step cfg visit).named, (h.1.step cfg visit).stamped h.1 h.2 hf⟩)
      visits h hm
  obtain ⟨hfirst, hfirst'⟩ := Machine.meets_append.mp hfirst
  have h := hstamped earlier ⟨Shared.named_empty, nofun⟩ hfirst
  have h' := hstamped later h hfirst'
  refine ⟨h.2, h'.2, fun seq hseq hseq' => ?_⟩
  obtain ⟨o, ho⟩ := Table.mem_keys.mp hseq
  obtain ⟨o', ho'⟩ := Table.mem_keys.mp hseq'
  have hid : o'.storeId = o.storeId := congrArg Prod.fst (hsame seq o o' ho ho')
  exact (h'.2 seq o' ho').symm.trans (hid.trans (h.2 seq o ho))

/-- Two processes open a new file one after the other, and one of them logs an event. -/
def openedTwice : List Visit :=
  [.read 0, .create 0 "aa", .backfill 0, .read 1, .backfill 1,
    .scope 0 (.ensureProject "p" "/p" "p" 0), .scope 0 (.create { id := some "a" } "p" 0 [] 1)]

/-- The id of a file with events is not set to another. -/
theorem openedTwice_kept :
    (Shared.run {} [.setStoreId 1 "other"] (Shared.run {} openedTwice .empty)).tables.storeId =
      (Shared.run {} openedTwice .empty).tables.storeId :=
  ((event_identity_stable {} openedTwice [.setStoreId 1 "other"]).2 (by decide)).2.2 1
    (by decide) (by decide)

end Marbles.Db
