import Marbles.Adapter.Looking

/-!
# The numbers of the audit trail

An event is recorded under the next number of the audit counter, and its outbound event under the
same. The engine counts on its own, one number for every revision; the audit counter never gets
ahead of it between two calls of a method that wait for nothing, and the numbers in the trail
never get ahead of either. So a counter that starts again where the engine has got to starts
above every number that has been used.

Calls may be cut anywhere, so the invariant cannot be one about whole methods. It is proved for
each call of the engine, with a notion of what a program is still allowed to do, and put together
along the structure of the methods. Only `logEvent` writes a new number, and it waits for nothing
between taking it and writing both documents.
-/

namespace Marbles.Adapter

open Json (Value)
open Records (Engine Key Revision Trail Version)

/-! ### What a trail of events looks like -/

/-- The events of a trail, the oldest first: its revisions, without the tombstones. -/
def events (trail : Trail) : List Revision := trail.reverse.filter fun r => !r.deleted

/-- The outbound event tells of this event. -/
structure Tells (event outbound : Value) : Prop where
  issue : outbound.field "issue_id" = event.field "issue_id"
  kind : outbound.field "event" = event.field "event"
  time : outbound.field "occurred_at" = event.field "ts"

/-- The events carry numbers that grow. Every other revision, of an event or of an outbound event,
has the number of an event, and an outbound event tells of the event whose number it has. -/
structure AuditTrail (e : Engine) : Prop where
  numbers : ∃ ns : List Nat, ns.Pairwise (· < ·) ∧
    (events (e.history marblesEventKind)).map (·.key) = ns.map fun n => [n.repr]
  tombstones : ∀ r ∈ e.history marblesEventKind,
    ∃ event ∈ events (e.history marblesEventKind), event.key = r.key
  outbound : ∀ r ∈ e.history outboundEventKind,
    ∃ event ∈ events (e.history marblesEventKind), event.key = r.key ∧
      (r.deleted = false → Tells event.data r.data ∧
        ∃ n : Nat, r.key = [n.repr] ∧ r.data.field "seq" = .num n)

/-- None of the numbers is above this one. -/
structure Audited (e : Engine) (bound : Nat) : Prop extends AuditTrail e where
  bounded : ∀ r ∈ events (e.history marblesEventKind), ∃ n ≤ bound, r.key = [n.repr]

@[simp] theorem mem_events {trail : Trail} {r : Revision} :
    r ∈ events trail ↔ r ∈ trail ∧ r.deleted = false := by
  rw [events, List.mem_filter, List.mem_reverse, Bool.not_eq_true']

@[simp] theorem events_cons (r : Revision) (trail : Trail) :
    events (r :: trail) = events trail ++ if r.deleted then [] else [r] := by
  rw [events, List.reverse_cons, List.filter_append, List.filter_singleton]
  cases r.deleted <;> rfl

@[simp] theorem history_append_self (e : Engine) (name : String) (key : Key) (data : Value)
    (deleted : Bool) : (e.append name key data deleted).history name =
      ⟨e.seq + 1, key, data, deleted⟩ :: e.history name := Function.update_self ..

theorem history_append_ne (e : Engine) {name n : String} (h : n ≠ name) (key : Key) (data : Value)
    (deleted : Bool) : (e.append name key data deleted).history n = e.history n :=
  Function.update_of_ne h ..

/-- The current state of a key is in its trail. -/
theorem exists_revision {e : Engine} {name : String} {key : Key} {data : Value}
    (h : e.current name key = some data) :
    ∃ r ∈ e.history name, r.key = key ∧ r.deleted = false ∧ r.data = data := by
  obtain ⟨r, hr, hdata⟩ := Option.bind_eq_some_iff.mp h
  have hkey : r.key = key := by simpa using List.find?_some hr
  cases hdeleted : r.deleted with
  | true =>
      rw [hdeleted] at hdata
      cases hdata
  | false =>
      rw [hdeleted] at hdata
      exact ⟨r, List.mem_of_find?_eq_some hr, hkey, hdeleted, Option.some.inj hdata⟩

namespace Audited

variable {e : Engine} {bound : Nat}

theorem mono (h : Audited e bound) {bound' : Nat} (hle : bound ≤ bound') : Audited e bound' where
  toAuditTrail := h.toAuditTrail
  bounded := fun r hr => by
    obtain ⟨n, hn, hkey⟩ := h.bounded r hr
    exact ⟨n, Nat.le_trans hn hle, hkey⟩

/-- Only the two trails matter. -/
theorem congr {e' : Engine} (h : Audited e bound)
    (hevents : e'.history marblesEventKind = e.history marblesEventKind)
    (houtbound : e'.history outboundEventKind = e.history outboundEventKind) :
    Audited e' bound where
  numbers := hevents ▸ h.numbers
  tombstones := hevents ▸ h.tombstones
  outbound := by
    rw [hevents, houtbound]
    exact h.outbound
  bounded := hevents ▸ h.bounded

theorem append_other (h : Audited e bound) {name : String} (hevent : name ≠ marblesEventKind)
    (houtbound : name ≠ outboundEventKind) (key : Key) (data : Value) (deleted : Bool) :
    Audited (e.append name key data deleted) bound :=
  h.congr (history_append_ne e hevent.symm ..) (history_append_ne e houtbound.symm ..)

/-- An event under a number above all others. -/
theorem append_event (h : Audited e bound) (data : Value) :
    Audited (e.append marblesEventKind [(bound + 1).repr] data false) (bound + 1) := by
  have hevents : events ((e.append marblesEventKind [(bound + 1).repr] data false).history
      marblesEventKind) = events (e.history marblesEventKind) ++
        [⟨e.seq + 1, [(bound + 1).repr], data, false⟩] := by
    rw [history_append_self, events_cons]
    rfl
  obtain ⟨ns, hns, hkeys⟩ := h.numbers
  have hbound : ∀ n ∈ ns, n ≤ bound := by
    intro n hn
    have hmem : [n.repr] ∈ (events (e.history marblesEventKind)).map (·.key) :=
      hkeys ▸ List.mem_map_of_mem hn
    obtain ⟨r, hr, hkey⟩ := List.mem_map.mp hmem
    obtain ⟨m, hm, hkey'⟩ := h.bounded r hr
    rw [hkey] at hkey'
    obtain rfl : n = m := repr_inj (List.singleton_inj.mp hkey')
    exact hm
  -- The new event has the next number, so the numbers stay in order and the tombstones still point
  -- at older events.
  constructor
  · refine ⟨⟨ns ++ [bound + 1], ?_, ?_⟩, fun r hr => ?_, fun r hr => ?_⟩
    · refine List.pairwise_append.mpr ⟨hns, List.pairwise_singleton .., fun n hn m hm => ?_⟩
      rw [List.mem_singleton.mp hm]
      exact Nat.lt_succ_of_le (hbound n hn)
    · rw [hevents, List.map_append, List.map_append, hkeys]
      rfl
    · rw [hevents]
      rw [history_append_self] at hr
      rcases List.mem_cons.mp hr with rfl | hr
      · exact ⟨_, List.mem_append_right _ (List.mem_singleton_self _), rfl⟩
      · obtain ⟨event, hevent, hkey⟩ := h.tombstones r hr
        exact ⟨event, List.mem_append_left _ hevent, hkey⟩
    · rw [hevents]
      rw [history_append_ne e (by decide)] at hr
      obtain ⟨event, hevent, htells⟩ := h.outbound r hr
      exact ⟨event, List.mem_append_left _ hevent, htells⟩
  · intro r hr
    rw [hevents] at hr
    rcases List.mem_append.mp hr with hr | hr
    · obtain ⟨n, hn, hkey⟩ := h.bounded r hr
      exact ⟨n, Nat.le_succ_of_le hn, hkey⟩
    · exact ⟨bound + 1, Nat.le_refl _, by rw [List.mem_singleton.mp hr]⟩

/-- A tombstone for an event. -/
theorem drop_event (h : Audited e bound) {key : Key} {data : Value}
    (hlive : e.current marblesEventKind key = some data) :
    Audited (e.append marblesEventKind key .null true) bound := by
  have hevents : events ((e.append marblesEventKind key .null true).history marblesEventKind) =
      events (e.history marblesEventKind) := by
    rw [history_append_self, events_cons]
    exact List.append_nil _
  obtain ⟨event, hevent, hkey, hdeleted, -⟩ := exists_revision hlive
  refine ⟨⟨hevents ▸ h.numbers, fun r hr => ?_, fun r hr => ?_⟩, hevents ▸ h.bounded⟩
  · rw [hevents]
    rw [history_append_self] at hr
    rcases List.mem_cons.mp hr with rfl | hr
    · exact ⟨event, mem_events.mpr ⟨hevent, hdeleted⟩, hkey⟩
    · exact h.tombstones r hr
  · rw [hevents]
    rw [history_append_ne e (by decide)] at hr
    exact h.outbound r hr

/-- One more revision of an outbound event, with the number of an event it tells of. -/
theorem append_outbound (h : Audited e bound) {key : Key} {data : Value} {deleted : Bool}
    (htells : ∃ event ∈ events (e.history marblesEventKind), event.key = key ∧
      (deleted = false → Tells event.data data ∧
        ∃ n : Nat, key = [n.repr] ∧ data.field "seq" = .num n)) :
    Audited (e.append outboundEventKind key data deleted) bound := by
  have hne : marblesEventKind ≠ outboundEventKind := by decide
  have hevents := history_append_ne e hne key data deleted
  refine ⟨⟨hevents ▸ h.numbers, hevents ▸ h.tombstones, fun r hr => ?_⟩, hevents ▸ h.bounded⟩
  rw [hevents]
  rw [history_append_self] at hr
  rcases List.mem_cons.mp hr with rfl | hr
  · exact htells
  · exact h.outbound r hr

/-- A tombstone for an outbound event. -/
theorem drop_outbound (h : Audited e bound) {key : Key} {data : Value}
    (hlive : e.current outboundEventKind key = some data) :
    Audited (e.append outboundEventKind key .null true) bound := by
  obtain ⟨r, hr, hkey, -, -⟩ := exists_revision hlive
  obtain ⟨event, hevent, hnumber, -⟩ := h.outbound r hr
  exact h.append_outbound ⟨event, hevent, hnumber.trans hkey, nofun⟩

end Audited

/-- Setting a field leaves the others alone. -/
theorem Value.field_set_ne {v value : Value} {key key' : String} (h : key' ≠ key) :
    (v.set key value).field key' = v.field key' := by
  cases v with
  | obj fields =>
      show (Json.Object.get key' (Json.Object.insert key value fields)).getD .null = _
      rw [Json.Object.get_insert, if_neg h]
      rfl
  | null =>
      show (Json.Object.get key' [(key, value)]).getD .null = _
      rw [Json.Object.get, List.lookup_cons, beq_eq_false_iff_ne.mpr h]
      rfl
  | _ => rfl

/-! ### Between calls and inside them -/

/-- Between the methods the audit counter is not ahead of the engine, and no number is ahead of the
counter. It is what makes opening the store again safe: the counter then starts where the engine is.
-/
structure Resting (s : Inner) : Prop where
  counter : s.seq ≤ s.engine.seq
  audited : Audited s.engine s.seq

/-- Inside a method no number is ahead of the engine. Inside a method the counter may have been
taken and nothing written yet, so less is known. -/
def Halting (s : Inner) : Prop := Audited s.engine s.engine.seq

theorem Resting.halting {s : Inner} (h : Resting s) : Halting s := h.audited.mono h.counter

/-- Wherever the method is cut off no number is ahead of the engine, and when it is through the
counter is not either. Both are needed, as a store can be dropped at either point. -/
structure Safe {α : Type} (m : AdapterM α) : Prop where
  run : ∀ s, Resting s → Prog.Throughout exec Halting m.run s ∧ Resting (runA m s).2

namespace Safe

variable {α β : Type}

theorem pure (a : α) : Safe (pure a : AdapterM α) := ⟨fun _ h => ⟨h.halting, h⟩⟩

theorem throw (e : Fault Error) : Safe (throw e : AdapterM α) :=
  ⟨fun _ h => ⟨h.halting, h⟩⟩

theorem bind {m : AdapterM α} {f : α → AdapterM β} (hm : Safe m) (hf : ∀ a, Safe (f a)) :
    Safe (m >>= f) := by
  refine ⟨fun s hs => ?_⟩
  obtain ⟨hinside, hafter⟩ := hm.run s hs
  have hrest : ∀ r, Prog.Throughout exec Halting (ExceptT.bindCont f r) (runA m s).2 ∧
      Resting (Prog.run exec (ExceptT.bindCont f r) (runA m s).2).2 := by
    intro r
    cases r with
    | ok a => exact (hf a).run _ hafter
    | error e => exact ⟨hafter.halting, hafter⟩
  refine ⟨hinside.bind (hrest _).1, ?_⟩
  change Resting (Prog.run exec (m.run >>= ExceptT.bindCont f) s).2
  rw [Prog.run_bind]
  exact (hrest _).2

theorem map {m : AdapterM α} (f : α → β) (hm : Safe m) : Safe (f <$> m) := by
  rw [map_eq_pure_bind]
  exact hm.bind fun _ => pure _

theorem foldlM {f : β → α → AdapterM β} (hf : ∀ b a, Safe (f b a)) (xs : List α) (b : β) :
    Safe (xs.foldlM f b) := by
  induction xs generalizing b with
  | nil => exact pure b
  | cons x xs ih =>
      rw [List.foldlM_cons]
      exact (hf b x).bind ih

theorem forM {f : α → AdapterM PUnit} (hf : ∀ a, Safe (f a)) (xs : List α) : Safe (xs.forM f) := by
  induction xs with
  | nil => exact pure PUnit.unit
  | cons x xs ih => exact (hf x).bind fun _ => ih

theorem ite {c : Prop} [Decidable c] {m m' : AdapterM α} (hm : Safe m) (hm' : Safe m') :
    Safe (if c then m else m') := by
  split
  · exact hm
  · exact hm'

theorem whenSome {a : Option α} {f : α → AdapterM Unit} (hf : ∀ a, Safe (f a)) :
    Safe (Adapter.whenSome a f) := by
  cases a with
  | none => exact pure ()
  | some a => exact hf a

/-- What only looks leaves everything as it is. -/
theorem of_looking {m : AdapterM α} (hm : Looking m) : Safe m := by
  refine ⟨fun s hs => ?_⟩
  change Prog.Throughout exec Halting m.run s ∧ Resting (Prog.run exec m.run s).2
  have honly := hm.only
  generalize m.run = p at honly
  induction p with
  | ret a => exact ⟨hs.halting, hs⟩
  | call c k ih =>
      have hsame : (exec c s).2 = s := by
        cases c with
        | current name key => rfl
        | keys name => rfl
        | _ => exact honly.1.elim
      rw [Prog.Throughout, Prog.run_call, hsame]
      obtain ⟨hinside, hafter⟩ := ih _ (honly.2 _)
      exact ⟨⟨hs.halting, hinside⟩, hafter⟩

/-- What follows on a look. -/
theorem look {m : AdapterM α} {f : α → AdapterM β} (hm : Looking m) (hf : ∀ a, Safe (f a)) :
    Safe (m >>= f) := (of_looking hm).bind hf

/-- What is asked, and what follows on the answer. -/
theorem call {c : Call} {f : c.Resp → AdapterM α} {s : Inner} (hs : Halting s)
    (hf : Prog.Throughout exec Halting (f (exec c s).1).run (exec c s).2 ∧
      Resting (runA (f (exec c s).1) (exec c s).2).2) :
    Prog.Throughout exec Halting (ask c >>= f).run s ∧ Resting (runA (ask c >>= f) s).2 :=
  ⟨⟨hs, hf.1⟩, hf.2⟩

/-! #### The calls of the engine -/

theorem version (name : String) (key : Key) : Safe (ask (.version name key)) :=
  ⟨fun _ h => ⟨⟨h.halting, h.halting⟩, h⟩⟩

/-- A revision of another type. -/
theorem put {name : String} (hevent : name ≠ marblesEventKind)
    (houtbound : name ≠ outboundEventKind)
    (key : Key) (data : Value) (deleted : Bool) : Safe (ask (.append name key data deleted)) := by
  refine ⟨fun s hs => ?_⟩
  have hafter : Resting (exec (.append name key data deleted) s).2 :=
    ⟨Nat.le_succ_of_le hs.counter, hs.audited.append_other hevent houtbound key data deleted⟩
  exact ⟨⟨hs.halting, hafter.halting⟩, hafter⟩

theorem compareAndSwap {name : String} (hevent : name ≠ marblesEventKind)
    (houtbound : name ≠ outboundEventKind) (key : Key) (expected : Option Version) (data : Value)
    (deleted : Bool) : Safe (ask (.compareAndSwap name key expected data deleted)) := by
  refine ⟨fun s hs => ?_⟩
  have hput : Resting { s with engine := s.engine.append name key data deleted } :=
    ⟨Nat.le_succ_of_le hs.counter, hs.audited.append_other hevent houtbound key data deleted⟩
  have hafter : Resting (exec (.compareAndSwap name key expected data deleted) s).2 := by
    change Resting { s with engine := (s.engine.compareAndSwap name key expected data deleted).2 }
    rcases s.engine.compareAndSwap_engine name key expected data deleted with heq | heq
    · rw [heq]
      exact hput
    · rw [heq]
      exact hs
  exact ⟨⟨hs.halting, hafter.halting⟩, hafter⟩

/-! #### The calls that touch the two trails -/

/-- An event and its outbound event are recorded under the next number. -/
theorem logEvent (storeId id : String) (ts : Int) (actor event detail : String) :
    Safe (Adapter.logEvent storeId id ts actor event detail) := by
  refine ⟨fun s hs => ?_⟩
  let recorded : Inner := ⟨s.engine.append marblesEventKind [(s.seq + 1).repr]
    (eventToJson id ts actor event detail) false, s.seq + 1⟩
  have hrecorded : Resting recorded := ⟨Nat.succ_le_succ hs.counter, hs.audited.append_event _⟩
  have houtbound : Prog.Throughout exec Halting (logOutbound storeId id (s.seq + 1) ts event).run
      recorded ∧
      Resting (runA (logOutbound storeId id (s.seq + 1) ts event) recorded).2 := by
    refine @call _ (.current issueKind [id]) _ recorded hrecorded.halting ?_
    cases (exec (.current issueKind [id]) recorded).1 with
    | none => exact ⟨hrecorded.halting, hrecorded⟩
    | some data =>
        have hevent : (⟨s.engine.seq + 1, [(s.seq + 1).repr], eventToJson id ts actor event detail,
            false⟩ : Revision) ∈ events (recorded.engine.history marblesEventKind) := by
          refine mem_events.mpr ⟨?_, rfl⟩
          rw [history_append_self]
          exact List.mem_cons_self ..
        have hafter : Resting ⟨recorded.engine.append outboundEventKind [(s.seq + 1).repr]
            (outboundToJson (s.seq + 1) storeId id (textOf "project" data) ts event) false,
            s.seq + 1⟩ := by
          refine ⟨Nat.le_succ_of_le hrecorded.counter, hrecorded.audited.append_outbound
            ⟨_, hevent, rfl, fun _ => ⟨⟨rfl, rfl, rfl⟩, s.seq + 1, rfl, rfl⟩⟩⟩
        exact ⟨⟨hrecorded.halting, hafter.halting⟩, hafter⟩
  exact call hs.halting (call hs.halting houtbound)

/-- A delivery leaves alone what an outbound event tells. -/
def Keeps (f : Value → Value) : Prop :=
  ∀ data, ∀ key ∈ ["issue_id", "event", "occurred_at", "seq"], (f data).field key = data.field key

theorem markEvent (seq : Int) {f : Value → Value} (hf : Keeps f) :
    Safe (Adapter.markEvent seq f) := by
  refine ⟨fun s hs => ?_⟩
  refine @call _ (.current outboundEventKind [toString seq]) _ s hs.halting ?_
  change Prog.Throughout exec Halting (ExceptT.run (Adapter.whenSome
    (s.engine.current outboundEventKind [toString seq]) _)) s ∧
      Resting (runA (Adapter.whenSome (s.engine.current outboundEventKind [toString seq]) _) s).2
  -- A mark writes the document again with other delivery fields, so it still tells the event it
  -- told before.
  cases hcurrent : s.engine.current outboundEventKind [toString seq] with
  | none => exact ⟨hs.halting, hs⟩
  | some data =>
      unfold Adapter.whenSome
      dsimp only
      split
      · exact ⟨hs.halting, hs⟩
      · obtain ⟨r, hr, hkey, hdeleted, rfl⟩ := exists_revision hcurrent
        obtain ⟨event, hevent, hnumber, htells⟩ := hs.audited.outbound r hr
        obtain ⟨⟨hissue, hkind, htime⟩, n, hn, hseq⟩ := htells hdeleted
        have hkeeps : ∀ attempts, ∀ key ∈ ["issue_id", "event", "occurred_at", "seq"],
            (f (r.data.set "attempts" attempts)).field key = r.data.field key := by
          intro attempts key hmem
          refine (hf _ key hmem).trans (Value.field_set_ne fun heq => ?_)
          rw [heq] at hmem
          exact absurd hmem (by decide)
        have hafter : ∀ attempts, Resting ⟨s.engine.append outboundEventKind [toString seq]
            (f (r.data.set "attempts" attempts)) false, s.seq⟩ := by
          intro attempts
          have hfields := hkeeps attempts
          simp only [List.forall_mem_cons, List.not_mem_nil, false_imp_iff, implies_true,
            and_true] at hfields
          obtain ⟨hissue', hkind', htime', hseq'⟩ := hfields
          refine ⟨Nat.le_succ_of_le hs.counter, hs.audited.append_outbound
            ⟨event, hevent, hnumber.trans hkey, fun _ => ⟨⟨?_, ?_, ?_⟩, n, hkey ▸ hn, ?_⟩⟩⟩
          · rw [hissue', hissue]
          · rw [hkind', hkind]
          · rw [htime', htime]
          · rw [hseq', hseq]
        exact ⟨⟨hs.halting, (hafter _).halting⟩, hafter _⟩

/-- Tombstones for live documents. -/
theorem tombstoneDocs {name : String} (gone : Value → Bool)
    (hdrop : ∀ {e : Engine} {bound : Nat} {key : Key} {data : Value}, Audited e bound →
      e.current name key = some data → Audited (e.append name key .null true) bound) :
    Safe (Adapter.tombstoneDocs name gone) := by
  refine look (.keys name) fun found => forM (fun key => ⟨fun s hs => ?_⟩) found
  refine @call _ (.current name key) _ s hs.halting ?_
  change Prog.Throughout exec Halting (ExceptT.run (Adapter.whenSome
    (s.engine.current name key) _)) s ∧
      Resting (runA (Adapter.whenSome (s.engine.current name key) _) s).2
  cases hcurrent : s.engine.current name key with
  | none => exact ⟨hs.halting, hs⟩
  | some data =>
      unfold Adapter.whenSome
      dsimp only
      split
      · have hafter : Resting { s with engine := s.engine.append name key .null true } :=
          ⟨Nat.le_succ_of_le hs.counter, hdrop hs.audited hcurrent⟩
        exact ⟨⟨hs.halting, hafter.halting⟩, hafter⟩
      · exact ⟨hs.halting, hs⟩

/-! #### What the methods are made of -/

theorem append {name : String} (hevent : name ≠ marblesEventKind)
    (houtbound : name ≠ outboundEventKind)
    (key : Key) (data : Value) : Safe (Adapter.append name key data) :=
  put hevent houtbound key data false

theorem tombstone {name : String} (hevent : name ≠ marblesEventKind)
    (houtbound : name ≠ outboundEventKind)
    (key : Key) : Safe (Adapter.tombstone name key) := put hevent houtbound key .null true

theorem saveIssue (issue : Issue) : Safe (Adapter.saveIssue issue) :=
  append (by decide) (by decide) [issue.id] (issueToJson issue)

theorem issueVersion (id : String) : Safe (Adapter.issueVersion id) := by
  refine (version issueKind [id]).bind fun found => ?_
  cases found with
  | none => exact throw _
  | some found => exact pure _

theorem saveIssueCas (issue : Issue) (expected : Version) :
    Safe (Adapter.saveIssueCas issue expected) := by
  refine (compareAndSwap (by decide) (by decide) _ _ _ _).bind fun result => ?_
  cases result with
  | ok result => exact pure _
  | error message => exact throw _

/-! #### Projects and folders -/

theorem ensureProject (slug root idPrefix : String) (ts : Int) :
    Safe (Adapter.ensureProject slug root idPrefix ts) :=
  look (.loadProject slug) fun _ => append (by decide) (by decide) _ _

theorem ensureFolder (folder : Folder) (now : Int) : Safe (Adapter.ensureFolder folder now) := by
  refine ite (throw _) (ite (throw _) ?_)
  refine look (.checkFolderParent _ _) fun _ => ?_
  exact look (.loadFolder _) fun _ => append (by decide) (by decide) _ _

theorem setProjectFolder (project : String) (folder : Option String) (now : Int) :
    Safe (Adapter.setProjectFolder project folder now) := by
  refine look (.loadProject project) fun data => ?_
  cases data with
  | none => exact throw _
  | some data =>
      cases trimmed folder with
      | none => exact tombstone (by decide) (by decide) _
      | some folder =>
          refine look (.loadFolder folder) fun found => ?_
          cases found with
          | none => exact throw _
          | some found =>
              exact look (.current projectFolderKind _) fun _ => append (by decide) (by decide) _ _

theorem keeps_set {key : String} (value : Value)
    (h : key ∉ ["issue_id", "event", "occurred_at", "seq"]) : Keeps fun data =>
    data.set key value :=
  fun _ _ hmem => Value.field_set_ne fun heq => h (heq ▸ hmem)

theorem Keeps.comp {f g : Value → Value} (hf : Keeps f) (hg : Keeps g) :
    Keeps fun data => g (f data) :=
  fun data key hmem => (hg (f data) key hmem).trans (hf data key hmem)

theorem markEventDelivered (seq now : Int) : Safe (Adapter.markEventDelivered seq now) :=
  markEvent seq ((keeps_set _ (by decide)).comp (keeps_set _ (by decide)))

theorem markEventFailed (seq nextAttemptAt : Int) (error : String) :
    Safe (Adapter.markEventFailed seq nextAttemptAt error) :=
  markEvent seq ((keeps_set _ (by decide)).comp (keeps_set _ (by decide)))

theorem tombstoneKeys {name : String} (hevent : name ≠ marblesEventKind)
    (houtbound : name ≠ outboundEventKind) (gone : Key → Bool) : Safe
    (Adapter.tombstoneKeys name gone) :=
  look (.keys name) fun found =>
    forM (fun key => ite (tombstone hevent houtbound key) (pure _)) found

/-- A dropped project takes its events with it. -/
theorem dropProject (slug : String) : Safe (Adapter.dropProject slug) := by
  refine look (.loadProject slug) fun data => ?_
  cases data with
  | none => exact throw _
  | some data =>
      refine look (.issuesOf slug) fun mine => ?_
      refine (tombstoneDocs _ fun h => h.drop_outbound).bind fun _ => ?_
      refine (tombstoneDocs _ fun h => h.drop_event).bind fun _ => ?_
      refine (tombstoneKeys (by decide) (by decide) _).bind fun _ => ?_
      refine (tombstoneKeys (by decide) (by decide) _).bind fun _ => ?_
      refine (forM (fun id => tombstone (by decide) (by decide) _) mine).bind fun _ => ?_
      exact (tombstone (by decide) (by decide) _).bind fun _ => pure _

/-! #### The life of an issue -/

section

variable (cfg : Config)

theorem create (spec : NewIssue) (draws : List String) (now : Int) :
    Safe (Adapter.create cfg spec draws now) := by
  unfold Adapter.create
  cases spec.project with
  | none => exact throw _
  | some project =>
      refine look (.loadProject project) fun data => ?_
      cases data with
      | none => exact throw _
      | some data =>
          refine look (.checkParent _ _) fun _ => look (.chooseId _ _ _) fun id => ?_
          refine look (.liftResult _) fun _ => (append (by decide) (by decide) _ _).bind fun _ => ?_
          exact (logEvent ..).bind fun _ => pure _

theorem update (id : String) (patch : IssuePatch) (actor : String) (now : Int) :
    Safe (Adapter.update cfg id patch actor now) := by
  have hrest : Safe (do
      Adapter.logEvent cfg.storeId id now actor "updated" ""
      Adapter.get id) := (logEvent ..).bind fun _ => of_looking (.get id)
  refine look (.liftResult _) fun _ => look (.get id) fun _ => look (.liftResult _) fun _ => ?_
  exact (saveIssue _).bind fun _ => ite ((logEvent ..).bind fun _ => hrest) hrest

theorem saveLabels (issue : Issue) (labels : List String) (actor : String) (now : Int) :
    Safe (Adapter.saveLabels cfg issue labels actor now) :=
  (saveIssue _).bind fun _ => logEvent ..

theorem addLabel (id label actor : String) (now : Int) :
    Safe (Adapter.addLabel cfg id label actor now) :=
  look (.get id) fun _ => whenSome fun _ => saveLabels cfg _ _ actor now

theorem removeLabel (id label actor : String) (now : Int) :
    Safe (Adapter.removeLabel cfg id label actor now) :=
  look (.get id) fun _ => saveLabels cfg _ _ actor now

theorem addDep (child parent actor : String) (now : Int) :
    Safe (Adapter.addDep cfg child parent actor now) := by
  refine ite (throw _) (look (.checkIssue child) fun _ => look (.checkIssue parent) fun _ => ?_)
  refine look (.reachable parent child) fun _ => ite (throw _) ?_
  refine look (.current dependencyKind _) fun edge => ?_
  cases edge with
  | some edge => exact pure _
  | none =>
      refine (append (by decide) (by decide) _ _).bind fun _ => look (.get child) fun _ => ?_
      exact (saveIssue _).bind fun _ => logEvent ..

theorem removeDep (child parent actor : String) (now : Int) :
    Safe (Adapter.removeDep cfg child parent actor now) := by
  refine look (.current dependencyKind _) fun edge => ?_
  cases edge with
  | none => exact pure _
  | some edge => exact (tombstone (by decide) (by decide) _).bind fun _ => logEvent ..

/-! #### Claims -/

theorem claim (req : ClaimRequest) (now : Int) : Safe (Adapter.claim cfg req now) := by
  unfold Adapter.claim
  cases req.ttl cfg.week cfg.policy now with
  | none => exact throw _
  | some ttl =>
      refine look (.projectOf _) fun _ => look (.get _) fun _ => (issueVersion _).bind fun _ => ?_
      refine ite (throw _) ((saveIssueCas _ _).bind fun _ => ite ?_ ?_)
      · exact (logEvent ..).bind fun _ => pure _
      · refine look (.get _) fun latest => ?_
        cases latest.assignee with
        | none => exact throw _
        | some holder => exact ite (throw _) (throw _)

theorem touch (id assignee : String) (now : Int) : Safe (Adapter.touch cfg id assignee now) := by
  refine look (.get id) fun issue => ite (throw _) ?_
  cases touchTtl (issue.actorKind.bind ActorKind.parse) cfg.week cfg.policy now with
  | none => exact throw _
  | some ttl => exact (saveIssue _).bind fun _ => (logEvent ..).bind fun _ => pure _

theorem release (id actor : String) (now : Int) : Safe (Adapter.release cfg id actor now) :=
  look (.get id) fun _ => (saveIssue _).bind fun _ => logEvent ..

theorem sweepClaim (now : Int) (report : SweepReport) (lapsed : String × String × String) :
    Safe (Adapter.sweepClaim cfg now report lapsed) := by
  refine ite ((logEvent ..).bind fun _ => pure _) (look (.get _) fun _ => ?_)
  exact (saveIssue _).bind fun _ => (logEvent ..).bind fun _ => pure _

theorem sweep (now : Int) : Safe (Adapter.sweep cfg now) :=
  look (.lapsed now) fun found => foldlM (sweepClaim cfg now) found ⟨[], []⟩

/-! #### Closing -/

theorem closeUnchecked (id : String) (reason : Option String) (evidence : List Evidence)
    (actor : String) (now : Int) : Safe (Adapter.closeUnchecked cfg id reason evidence actor now) :=
  look (.get id) fun _ => (saveIssue _).bind fun _ => (logEvent ..).bind fun _ =>
    of_looking (.get id)

theorem close (id : String) (reason : Option String) (evidence : List Evidence) (actor : String)
    (now : Int) : Safe (Adapter.close cfg id reason evidence actor now) :=
  ite (throw _) (look (.checkBlockers id) fun _ => closeUnchecked cfg id reason evidence actor now)

theorem supersede (id replacement actor : String) (now : Int) :
    Safe (Adapter.supersede cfg id replacement actor now) :=
  look (.get replacement) fun _ => (closeUnchecked cfg id _ _ actor now).bind fun _ =>
    addLabel cfg id _ actor now

end

/-- Every method of the contract. -/
theorem method (cfg : Config) (op : Op) : Safe (Adapter.method cfg op) := by
  -- Each method is made of looking and of appends that have lemmas of their own.
  cases op with
  | ensureProject slug root idPrefix ts => exact (ensureProject ..).bind fun _ => pure _
  | dropProject slug => exact (dropProject slug).map _
  | projects => exact (of_looking .projects).map _
  | ensureFolder folder now => exact (ensureFolder folder now).bind fun _ => pure _
  | setProjectFolder project folder now => exact (setProjectFolder ..).bind fun _ => pure _
  | folderView => exact (of_looking .folderView).map _
  | pendingEvents now limit => exact (of_looking (.pendingEvents now limit)).map _
  | markEventDelivered seq now => exact (markEventDelivered seq now).bind fun _ => pure _
  | markEventFailed seq nextAttemptAt error => exact (markEventFailed ..).bind fun _ => pure _
  | create spec draws now => exact (create cfg spec draws now).map _
  | get id => exact (of_looking (.get id)).map _
  | list project all onlyId => exact (of_looking (.list project all onlyId)).map _
  | ready project now => exact (of_looking (.ready project now)).map _
  | update id patch actor now => exact (update cfg id patch actor now).map _
  | addLabel id label actor now => exact (addLabel cfg id label actor now).bind fun _ => pure _
  | removeLabel id label actor now =>
      exact (removeLabel cfg id label actor now).bind fun _ => pure _
  | addDep child parent actor now => exact (addDep cfg child parent actor now).bind fun _ => pure _
  | removeDep child parent actor now =>
      exact (removeDep cfg child parent actor now).bind fun _ => pure _
  | claim req now => exact (claim cfg req now).map _
  | touch id assignee now => exact (touch cfg id assignee now).map _
  | release id actor now => exact (release cfg id actor now).bind fun _ => pure _
  | sweep now claims => exact (sweep cfg now).map _
  | close id reason evidence actor now => exact (close cfg id reason evidence actor now).map _
  | supersede id replacement actor now =>
      exact (supersede cfg id replacement actor now).bind fun _ => pure _
  | history id => exact (of_looking (.history id)).map _
  | stats => exact (of_looking .stats).map _
  | prometheusMetrics now => exact (of_looking (.prometheusMetrics now)).map _

end Safe

end Marbles.Adapter
