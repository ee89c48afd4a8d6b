import Marbles.Adapter.Alone
import Marbles.Durable

/-!
# The adapter on a trail file

Opened on a file, the adapter works as in memory, and every revision it appends goes to
the trail. An operation appends several revisions one after the other, and nothing marks
where it ends: a trail that was cut at a line end is reopened as the store was at some
moment of the run, between two operations or inside one.

The result is about files: what is on disk after a crash is a prefix of the lines that were
written, cut at a line end. Reopening such a prefix gives the state some call of the run was at.
There is no promise that this is between two methods, and with several documents per method there
cannot be.
-/

namespace Marbles.Adapter

open Json (Value)
open Records (Engine Key Durable PersistedRevision)

/-- The state behind an adapter that was opened on a file. -/
structure DurableInner where
  durable : Durable
  seq : Nat

/-- What of it an adapter in memory has. -/
def DurableInner.inner (s : DurableInner) : Inner := ⟨s.durable.engine, s.seq⟩

/-- The content of the trail file. -/
def DurableInner.text (s : DurableInner) : String := s.durable.file.getD ""

/-- A durable engine answers at once. Each append reaches the trail file before the method goes on.
-/
def execDurable : (c : Call) → DurableInner → c.Resp × DurableInner
  | .append name key data deleted, s =>
      ((), { s with durable := (s.durable.append name key data deleted).2 })
  | .current name key, s => (s.durable.engine.current name key, s)
  | .keys name, s => (s.durable.engine.keys name, s)
  | .version name key, s => (s.durable.engine.version name key, s)
  | .compareAndSwap name key expected data deleted, s =>
      let (result, durable) := s.durable.compareAndSwap name key expected data deleted
      (result, { s with durable := durable })
  | .nextSeq, s => (s.seq + 1, { s with seq := s.seq + 1 })

section

variable (fromStr : String → Except String PersistedRevision) (cfg : Config)

/-- Replay the trail, go on counting from its last number, and seed the store id. The audit counter
is not on disk, which is why it is set from the engine. -/
def openFile (file : Option String) : Except String (Locked DurableInner) := do
  let durable ← Durable.load fromStr file
  pure (.new ⟨(durable.append storeMetaKind [cfg.storeId]
    (.obj [("value", .str cfg.storeId)]) false).2, durable.engine.seq⟩)

/-- One call under the lock. -/
def performFile (op : Op) : Locked DurableInner → Result Reply × Locked DurableInner :=
  Locked.withLock (Prog.runE (I := InnerI) execDurable (method cfg op))

/-- The state, with its file, after one method. -/
def stepFile (op : Op) (s : Locked DurableInner) : Locked DurableInner := (performFile cfg op s).2

/-- The store after a sequence of calls. -/
def runFile (ops : List Op) (s : Locked DurableInner) : Locked DurableInner :=
  Machine.run (stepFile cfg) ops s

/-- The state when `k` calls are through and the next one has asked `n` times. That is where a crash
can leave the file, apart from a torn line. -/
def haltFile : List Op → Nat → Nat → Locked DurableInner → DurableInner
  | [], _, _, s => s.state
  | op :: _, 0, n, s =>
      if s.poisoned then s.state else Prog.halt execDurable n (method cfg op).run s.state
  | op :: ops, k + 1, n, s => haltFile ops k n (stepFile cfg op s)

end

/-! ### It answers as in memory -/

theorem execDurable_inner (c : Call) (s : DurableInner) :
    exec c s.inner = ((execDurable c s).1, (execDurable c s).2.inner) := by
  cases c with
  | compareAndSwap name key expected data deleted =>
      unfold execDurable exec DurableInner.inner
      dsimp only
      rw [Durable.compareAndSwap_fst, Durable.compareAndSwap_engine]
  | _ => rfl

/-- What a method that is run alone reads. -/
def DurableInner.read {α : Type} (s : DurableInner) (m : AdapterM α) : Result α :=
  (Prog.runE (I := InnerI) execDurable m s).1

/-- The inner store runs the same calls. -/
theorem run_inner {α : Type} (p : Prog InnerI α) (s : DurableInner) :
    Prog.run exec p s.inner =
      ((Prog.run execDurable p s).1, (Prog.run execDurable p s).2.inner) :=
  Prog.run_project execDurable_inner p s

theorem read_of_reads {α : Type} {s : DurableInner} {m : AdapterM α} {a : α}
    (h : Reads m s.inner a) : s.read m = .ok a := by
  have hrun := run_inner m.run s
  have hread : Prog.run exec m.run s.inner = (.ok a, s.inner) := h.eq
  rw [hread] at hrun
  exact (congrArg Prod.fst hrun).symm

/-- What is computed from the same is the same. -/
theorem read_map_congr {α β : Type} {s s' : DurableInner} {m : AdapterM α} {a : α} (g : α → β)
    (h : Reads m s.inner a) (h' : Reads m s'.inner a) :
    s.read (do let a ← m; pure (g a)) = s'.read (do let a ← m; pure (g a)) := by
  rw [read_of_reads (h.map g), read_of_reads (h'.map g)]

theorem read_missing {s : DurableInner} {id : String} (h : s.inner.rowToIssue id = none) :
    s.read (get id) = .error (.fail (.notFound id)) := by
  have hrun := run_inner (get id).run s
  have hread : Prog.run exec (get id).run s.inner = (.error (.fail (.notFound id)), s.inner) :=
    get_missing h
  rw [hread] at hrun
  exact (congrArg Prod.fst hrun).symm

/-! ### What an operation writes -/

/-- One call writes one revision, or none. -/
theorem grew_call (c : Call) (s : DurableInner) : ∃ revs, revs.length ≤ 1 ∧
    Durable.Grew s.durable revs (execDurable c s).2.durable := by
  cases c with
  | append name key data deleted => exact ⟨[_], Nat.le_refl 1, .append ..⟩
  | compareAndSwap name key expected data deleted => exact Durable.Grew.compareAndSwap ..
  | _ => exact ⟨[], Nat.zero_le 1, .refl _⟩

/-- The revisions of a program come one after the other: each number of them is there
after some number of its calls. -/
theorem grew_prog {α : Type} (p : Prog InnerI α) (s : DurableInner) : ∃ revs,
    Durable.Grew s.durable revs (Prog.run execDurable p s).2.durable ∧
      ∀ j ≤ revs.length, ∃ n,
        Durable.Grew s.durable (revs.take j) (Prog.halt execDurable n p s).durable := by
  induction p generalizing s with
  | ret a => exact ⟨[], .refl _, fun j _ => ⟨0, by rw [List.take_nil]; exact .refl _⟩⟩
  | call c k ih =>
      obtain ⟨first, hlength, hfirst⟩ := grew_call c s
      obtain ⟨revs, hrevs, hcut⟩ := ih (execDurable c s).1 (execDurable c s).2
      refine ⟨first ++ revs, hfirst.trans hrevs, fun j hj => ?_⟩
      cases j with
      | zero => exact ⟨0, by rw [Prog.halt_zero]; exact .refl _⟩
      | succ j =>
          rw [List.length_append] at hj
          obtain ⟨n, hn⟩ := hcut (j + 1 - first.length) (by omega)
          refine ⟨n + 1, ?_⟩
          rw [Prog.halt_succ, List.take_append, List.take_of_length_le (by omega)]
          exact hfirst.trans hn

/-- So do the revisions of a sequence of operations. -/
theorem grew_run (cfg : Config) (ops : List Op) (s : Locked DurableInner) : ∃ revs,
    Durable.Grew s.state.durable revs (runFile cfg ops s).state.durable ∧
      ∀ j ≤ revs.length, ∃ k ≤ ops.length, ∃ n,
        Durable.Grew s.state.durable (revs.take j) (haltFile cfg ops k n s).durable := by
  induction ops generalizing s with
  | nil =>
      refine ⟨[], .refl _, fun j _ => ⟨0, Nat.le_refl 0, 0, ?_⟩⟩
      rw [List.take_nil]
      exact .refl _
  | cons op ops ih =>
      obtain ⟨revs, hrevs, hcut⟩ := ih (stepFile cfg op s)
      have hstate : (stepFile cfg op s).state = if s.poisoned then s.state else
          (Prog.run execDurable (method cfg op).run s.state).2 := Locked.withLock_state ..
      cases hp : s.poisoned with
      | true =>
          rw [hp, if_pos rfl] at hstate
          rw [hstate] at hrevs hcut
          refine ⟨revs, hrevs, fun j hj => ?_⟩
          obtain ⟨k, hk, n, hn⟩ := hcut j hj
          exact ⟨k + 1, Nat.succ_le_succ hk, n, hn⟩
      | false =>
          rw [hp, if_neg Bool.false_ne_true] at hstate
          rw [hstate] at hrevs hcut
          obtain ⟨first, hfirst, hinside⟩ := grew_prog (method cfg op).run s.state
          refine ⟨first ++ revs, hfirst.trans hrevs, fun j hj => ?_⟩
          rcases Nat.lt_or_ge j first.length with hlt | hge
          · -- inside the first operation
            obtain ⟨n, hn⟩ := hinside j (Nat.le_of_lt hlt)
            refine ⟨0, Nat.zero_le _, n, ?_⟩
            rw [haltFile, hp, if_neg Bool.false_ne_true,
              List.take_append_of_le_length (Nat.le_of_lt hlt)]
            exact hn
          · rw [List.length_append] at hj
            obtain ⟨k, hk, n, hn⟩ := hcut (j - first.length) (by omega)
            refine ⟨k + 1, Nat.succ_le_succ hk, n, ?_⟩
            rw [List.take_append, List.take_of_length_le hge]
            exact hfirst.trans hn

/-! ### What is found again -/

/-- Two stores that report the same issues with their edges, the same history and the same pending
events. The engines may differ in what no method reads. -/
structure SameStore (s s' : DurableInner) : Prop where
  get : ∀ id, s.read (get id) = s'.read (get id)
  list : ∀ project all onlyId, s.read (list project all onlyId) = s'.read (list project all onlyId)
  edges : s.read edges = s'.read edges
  history : ∀ id, s.read (history id) = s'.read (history id)
  pendingEvents : ∀ now limit, s.read (pendingEvents now limit) = s'.read (pendingEvents now limit)

/-- The documents decide what is reported. -/
theorem sameStore_of_docs {s s' : DurableInner}
    (hdoc : ∀ n key, n ≠ storeMetaKind → s.inner.doc n key = s'.inner.doc n key)
    (hkeys : ∀ n, n ≠ storeMetaKind → s.inner.engine.keys n = s'.inner.engine.keys n) :
    SameStore s s' := by
  have hissue : issueKind ≠ storeMetaKind := by decide
  have hevent : marblesEventKind ≠ storeMetaKind := by decide
  have houtbound : outboundEventKind ≠ storeMetaKind := by decide
  have hedges : s.inner.edges = s'.inner.edges := by
    rw [Inner.edges, Inner.edges, hkeys _ (by decide)]
  have hstatus : ∀ id, s.inner.statusOf id = s'.inner.statusOf id := fun id => by
    rw [Inner.statusOf, Inner.statusOf, hdoc _ _ hissue]
  have hrow : s.inner.rowToIssue = s'.inner.rowToIssue := by
    have hopen : s.inner.isOpen = s'.inner.isOpen := by
      funext id
      rw [Inner.isOpen, Inner.isOpen, hstatus]
    funext id
    unfold Inner.rowToIssue Inner.view Inner.parents Inner.children
    rw [hdoc _ _ hissue, hedges, hopen]
  have hdocs : ∀ n, n ≠ storeMetaKind → s.inner.docs n = s'.inner.docs n := fun n hn => by
    unfold Inner.docs
    rw [hkeys n hn]
    exact List.filterMap_congr fun key _ => by rw [hdoc n key hn]
  have hall : s.inner.allIssues = s'.inner.allIssues := by
    rw [Inner.allIssues, Inner.allIssues, hrow, hkeys _ hissue]
  -- Each reading of the store reads documents and keys of the other kinds only.
  constructor
  · intro id
    cases h : s.inner.rowToIssue id with
    | some issue =>
        rw [read_of_reads (reads_get h), read_of_reads (reads_get (hrow ▸ h))]
    | none => rw [read_missing h, read_missing (hrow ▸ h)]
  · intro project all onlyId
    exact read_map_congr _ reads_allIssues (hall ▸ reads_allIssues)
  · exact read_map_congr _ (Reads.keys _) (hkeys dependencyKind (by decide) ▸ Reads.keys _)
  · intro id
    exact read_map_congr _ (reads_docs _) (hdocs _ hevent ▸ reads_docs _)
  · intro now limit
    exact read_map_congr _ (reads_docs _) (hdocs _ houtbound ▸ reads_docs _)

section

variable {fromStr : String → Except String PersistedRevision} {cfg : Config}

/-- A complete trail is reopened as the store it was written by. -/
theorem openFile_reopens {s : DurableInner} (h : Durable.Reopens fromStr s.durable) :
    ∃ s', openFile fromStr cfg s.durable.file = .ok s' ∧ SameStore s'.state s := by
  unfold openFile
  rw [h.load]
  refine ⟨_, rfl, sameStore_of_docs (fun n key hn => ?_) fun n hn => ?_⟩
  · exact Engine.current_append_ne fun hc => hn hc.1
  · exact Engine.keys_append_ne hn

/-- After the open the trail is complete again. -/
theorem grew_openFile {file : Option String} {s : Locked DurableInner}
    (hopen : openFile fromStr cfg file = .ok s) (hend : Lines.AtBoundary (file.getD "")) :
    ∃ d rev, Durable.Reopens fromStr d ∧ Durable.Grew d [rev] s.state.durable ∧
      s.state.durable.file ≠ none := by
  cases hload : Durable.load fromStr file with
  | error message =>
      rw [openFile, hload] at hopen
      cases hopen
  | ok d =>
      rw [openFile, hload] at hopen
      cases hopen
      obtain ⟨rfl, -⟩ := Durable.load_eq_ok.mp hload
      exact ⟨d, _, ⟨hload, hend⟩, .append .., nofun⟩

/-- What a cut leaves of the written lines are the first of them. -/
theorem cut_lines {s s' : DurableInner} {revs : List PersistedRevision} {cut : String}
    (h : Durable.Grew s.durable revs s'.durable) (hafter : s.text.toList <+: cut.toList)
    (hcutText : cut.toList <+: s'.text.toList) (hcut : Lines.AtBoundary cut) :
    ∃ j ≤ revs.length,
      cut = s.durable.file.getD "" ++ Lines.render ((revs.take j).map PersistedRevision.line) := by
  obtain ⟨more, hmore⟩ := hafter
  have hsplit : cut = s.text ++ String.ofList more := by
    rw [← String.toList_inj, ← hmore, String.toList_append, String.toList_ofList]
  have htext : s'.text = s.text ++ Lines.render (revs.map PersistedRevision.line) := h.text
  rw [← hmore, htext, String.toList_append, List.prefix_append_right_inj] at hcutText
  obtain ⟨j, hj, hlines⟩ := @Lines.prefix_render (revs.map PersistedRevision.line)
    (fun line hline => by
      obtain ⟨rev, -, rfl⟩ := List.mem_map.mp hline
      exact rev.oneLine.1) (String.ofList more) (by rwa [String.toList_ofList]) (fun c hc => by
        rw [String.toList_ofList] at hc
        refine hcut c ?_
        rw [← hmore, List.getLast?_append, hc]
        rfl)
  rw [List.length_map] at hj
  exact ⟨j, hj, by rw [hsplit, hlines, List.map_take]; rfl⟩

/-- What has been written after a complete trail is reopened. -/
theorem openFile_grew {s s' : DurableInner} {revs : List PersistedRevision}
    (h : Durable.Reopens fromStr s.durable) (hgrew : Durable.Grew s.durable revs s'.durable)
    (hfile : s.durable.file ≠ none) (hreads : ∀ rev ∈ revs, fromStr rev.line = .ok rev) :
    ∃ s'', openFile fromStr cfg (some s'.text) = .ok s'' ∧ SameStore s''.state s' := by
  have hsome : s'.durable.file = some s'.text := by
    unfold DurableInner.text
    cases h : s'.durable.file with
    | none => exact absurd (hgrew.file h).1 hfile
    | some text => rfl
  rw [← hsome]
  exact openFile_reopens (h.grew hgrew hreads)

/-- A trail that was cut at a line end after the store had been opened is reopened. The store that
comes back is the one at some moment of the run; where the cut is after all that some operations
have written, it is the store these operations left. A method writes several lines, so the moment
may lie inside one. -/
theorem cut_reopens {file : Option String} {s : Locked DurableInner} {ops : List Op}
    {cut : String} (hopen : openFile fromStr cfg file = .ok s)
    (hend : Lines.AtBoundary (file.getD ""))
    (hreads : ∀ rev, (runFile cfg ops s).state.durable.engine.Holds rev →
      fromStr rev.line = .ok rev)
    (hafter : s.state.text.toList <+: cut.toList)
    (hcutText : cut.toList <+: (runFile cfg ops s).state.text.toList)
    (hcut : Lines.AtBoundary cut) :
    ∃ s', openFile fromStr cfg (some cut) = .ok s' ∧
      (∃ k ≤ ops.length, ∃ n, cut = (haltFile cfg ops k n s).text ∧
        SameStore s'.state (haltFile cfg ops k n s)) ∧
      ∀ k, cut = (runFile cfg (ops.take k) s).state.text →
        SameStore s'.state (runFile cfg (ops.take k) s).state := by
  obtain ⟨d, rev, hd, hopened, hfile⟩ := grew_openFile hopen hend
  obtain ⟨revs, hrun, hcuts⟩ := grew_run cfg ops s
  have hrev : fromStr rev.line = .ok rev :=
    hreads rev (hrun.holds (Or.inr (hopened.holds (Or.inl (List.mem_singleton_self rev)))))
  have hs : Durable.Reopens fromStr s.state.durable := hd.grew hopened fun r hr => by
    rwa [List.mem_singleton.mp hr]
  obtain ⟨j, hj, htext⟩ := cut_lines hrun hafter hcutText hcut
  obtain ⟨k, hk, n, hn⟩ := hcuts j hj
  have hhalt : cut = (haltFile cfg ops k n s).text := htext.trans hn.text.symm
  obtain ⟨s', hreopen, hsame⟩ := @openFile_grew fromStr cfg _ _ _ hs hn hfile fun r hr =>
    hreads r (hrun.holds (Or.inl (List.mem_of_mem_take hr)))
  rw [← hhalt] at hreopen
  refine ⟨s', hreopen, ⟨k, hk, n, hhalt, hsame⟩, fun k htake => ?_⟩
  -- what the first operations wrote is still there at the end of the run
  obtain ⟨first, hfirst, -⟩ := grew_run cfg (ops.take k) s
  obtain ⟨later, hlater, -⟩ := grew_run cfg (ops.drop k) (runFile cfg (ops.take k) s)
  rw [runFile, runFile, ← Machine.run_append, List.take_append_drop, ← runFile] at hlater
  obtain ⟨s'', hreopen', hsame'⟩ := @openFile_grew fromStr cfg _ _ _ hs hfirst hfile fun r hr =>
    hreads r (hlater.holds (Or.inr (hfirst.holds (Or.inl hr))))
  rw [← htake, hreopen] at hreopen'
  cases hreopen'
  exact hsame'

end

/-! ### A cut inside an operation -/

/-- An issue that is created under a given id. -/
def splitSpec : NewIssue :=
  { title := "t", project := some "p", id := some "p-1", availableAt := some 0 }

def splitOps : List Op := [.ensureProject "p" "/p" "p" 0, .create splitSpec [] 0]

/-- What is written: the store id, the project, the issue, and then its event. -/
def splitTrail : List PersistedRevision := [
  ⟨storeMetaKind, 1, ["store"], .obj [("value", .str "store")], false⟩,
  ⟨projectKind, 2, ["p"], .obj [("created_at", .num 0), ("prefix", .str "p"), ("root", .str "/p"),
    ("slug", .str "p")], false⟩,
  ⟨issueKind, 3, ["p-1"], issueToJson (newIssue splitSpec "p-1" "p" 0 [] 0), false⟩,
  ⟨marblesEventKind, 4, ["1"], eventToJson "p-1" 0 "system" "created" "t", false⟩,
  ⟨outboundEventKind, 5, ["1"], outboundToJson 1 "store" "p-1" "p" 0 "created", false⟩]

/-- The store on a new file. -/
def splitOpened : Locked DurableInner :=
  .new ⟨(Durable.durable.append storeMetaKind ["store"] (.obj [("value", .str "store")]) false).2,
    0⟩

/-- The store when the issue has just been appended. -/
def splitHalted : DurableInner := haltFile {} splitOps 1 3 splitOpened

theorem grew_splitHalted : Durable.Grew Durable.durable (splitTrail.take 3) splitHalted.durable :=
  ((Durable.Grew.append _ storeMetaKind ["store"] _ false).trans
    (Durable.Grew.append _ projectKind ["p"] _ false)).trans
    (Durable.Grew.append _ issueKind ["p-1"] _ false)

theorem grew_splitOpened : Durable.Grew splitOpened.state.durable ((splitTrail.take 3).drop 1)
    splitHalted.durable :=
  (Durable.Grew.append _ projectKind ["p"] _ false).trans
    (Durable.Grew.append _ issueKind ["p-1"] _ false)

theorem grew_splitRun : Durable.Grew splitHalted.durable (splitTrail.drop 3)
    (runFile {} splitOps splitOpened).state.durable :=
  (Durable.Grew.append _ marblesEventKind ["1"] _ false).trans
    (Durable.Grew.append _ outboundEventKind ["1"] _ false)

theorem reads_splitTrail : ∀ rev ∈ splitTrail,
    Durable.readerOf splitTrail rev.line = .ok rev := by decide +kernel

theorem holds_splitTrail (rev : PersistedRevision)
    (h : (runFile {} splitOps splitOpened).state.durable.engine.Holds rev) :
    Durable.readerOf splitTrail rev.line = .ok rev := by
  have hengine : (runFile {} splitOps splitOpened).state.durable.engine =
      splitTrail.foldl Engine.replay .new := rfl
  rw [hengine, Engine.holds_foldl_replay] at h
  exact reads_splitTrail rev (h.resolve_right List.not_mem_nil)

theorem splitHalted_boundary : Lines.AtBoundary splitHalted.text := by
  have htext : splitHalted.text = Durable.durable.file.getD "" ++
      Lines.render ((splitTrail.take 3).map PersistedRevision.line) := grew_splitHalted.text
  rw [htext]
  exact (Durable.Reopens.durable (Durable.readerOf splitTrail)).boundary.append_render _

/-- A trail whose last line is the new issue: the issue is there without its history. -/
theorem cut_inside_create : ∃ (fromStr : String → Except String PersistedRevision) (cfg : Config)
    (ops : List Op) (s s' : Locked DurableInner) (cut : String),
    openFile fromStr cfg none = .ok s ∧
    (∀ rev, (runFile cfg ops s).state.durable.engine.Holds rev → fromStr rev.line = .ok rev) ∧
    s.state.text.toList <+: cut.toList ∧
    cut.toList <+: (runFile cfg ops s).state.text.toList ∧
    Lines.AtBoundary cut ∧ openFile fromStr cfg (some cut) = .ok s' ∧
    ∀ k, ¬ SameStore s'.state (runFile cfg (ops.take k) s).state := by
  have hopened : Durable.Reopens (Durable.readerOf splitTrail) splitOpened.state.durable :=
    (Durable.Reopens.durable _).grew (Durable.Grew.append _ storeMetaKind ["store"] _ false)
      fun rev hrev => reads_splitTrail rev
        (List.mem_singleton.mp hrev ▸ List.mem_cons_self ..)
  obtain ⟨s', hopen, hsame⟩ := @openFile_grew _ {} _ _ _ hopened grew_splitOpened nofun
    fun rev hrev => reads_splitTrail rev (List.mem_of_mem_take (List.mem_of_mem_drop hrev))
  refine ⟨Durable.readerOf splitTrail, {}, splitOps, splitOpened, s', splitHalted.text, rfl,
    holds_splitTrail, grew_splitOpened.text_grows, grew_splitRun.text_grows,
    splitHalted_boundary, hopen, fun k hk => ?_⟩
  match k with
  | 0 =>
      -- the issue is not there yet
      have hissue := (hsame.get "p-1").symm.trans (hk.get "p-1")
      exact absurd hissue (by decide +kernel)
  | 1 =>
      have hissue := (hsame.get "p-1").symm.trans (hk.get "p-1")
      exact absurd hissue (by decide +kernel)
  | k + 2 =>
      -- and later it has its first event
      have htake : splitOps.take (k + 2) = splitOps := List.take_of_length_le (Nat.le_add_left 2 k)
      rw [htake] at hk
      have hhistory := (hsame.history "p-1").symm.trans (hk.history "p-1")
      exact absurd hhistory (by decide +kernel)

/-- The store that is found there. -/
theorem cut_reopens_splitHalted : ∃ s',
    openFile (Durable.readerOf splitTrail) {} (some splitHalted.text) = .ok s' ∧
      (∃ k ≤ splitOps.length, ∃ n,
        splitHalted.text = (haltFile {} splitOps k n splitOpened).text ∧
        SameStore s'.state (haltFile {} splitOps k n splitOpened)) ∧
      ∀ k, splitHalted.text = (runFile {} (splitOps.take k) splitOpened).state.text →
        SameStore s'.state (runFile {} (splitOps.take k) splitOpened).state :=
  @cut_reopens _ _ none splitOpened splitOps _ rfl nofun holds_splitTrail
    grew_splitOpened.text_grows grew_splitRun.text_grows splitHalted_boundary

end Marbles.Adapter
