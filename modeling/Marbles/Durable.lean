import Marbles.Lib.Lines
import Marbles.Records
import Marbles.Store

/-!
# The durable trail

A durable engine writes every revision through to a file, one JSON line each, and `load`
replays the file. The file is only ever appended to. The parser of `serde_json` is a
parameter here; what is assumed of it is that it reads back the lines that were written.

Reopening is compared with going on in memory by following the trail rather than the engine:
`replay_next` says that a line written is a line replayed, for one revision, and
`foldlM_replayLine` does the rest by induction on the lines. The parser only has to read back what
the engine itself has printed.
-/

namespace Marbles.Records

open Json (Value)

/-- A revision as it is written to the trail file. -/
structure PersistedRevision where
  type : String
  /-- An `i64` that counts up from zero; the numbers of a trail stay below `2 ^ 63`, so that no
  bound is kept here. -/
  seq : Nat
  key : Key
  data : Value
  deleted : Bool
  deriving DecidableEq

/-- The line of a revision, without its end. -/
def PersistedRevision.line (rev : PersistedRevision) : String :=
  (Value.obj [("type", .str rev.type), ("seq", .num rev.seq), ("key", .arr (rev.key.map .str)),
    ("data", rev.data), ("deleted", .bool rev.deleted)]).text

/-- A document of an object starts and ends with a brace. -/
theorem toList_text_obj (fields : Json.Object) : ∃ inside,
    (Value.obj fields).text.toList = '\x7b' :: (inside ++ ['\x7d']) := by
  refine ⟨(",".intercalate (Value.textFields fields)).toList, ?_⟩
  rw [Value.text, String.toList_append, String.toList_append]
  rfl

theorem PersistedRevision.oneLine (rev : PersistedRevision) : Lines.OneLine rev.line := by
  refine ⟨Value.unbroken_text _, ?_⟩
  obtain ⟨inside, h⟩ := toList_text_obj [("type", .str rev.type), ("seq", .num rev.seq),
    ("key", .arr (rev.key.map .str)), ("data", rev.data), ("deleted", .bool rev.deleted)]
  rw [line, h, ← List.cons_append, List.getLast?_append]
  exact fun hc => absurd (Option.some.inj hc) (by decide)

theorem PersistedRevision.line_filled (rev : PersistedRevision) : trim rev.line ≠ "" := by
  obtain ⟨inside, h⟩ := toList_text_obj [("type", .str rev.type), ("seq", .num rev.seq),
    ("key", .arr (rev.key.map .str)), ("data", rev.data), ("deleted", .bool rev.deleted)]
  have hbrace : isWhitespace '\x7b' = false := by decide
  have hclose : isWhitespace '\x7d' = false := by decide
  have hfirst : ('\x7b' :: (inside ++ ['\x7d'])).dropWhile isWhitespace =
      '\x7b' :: (inside ++ ['\x7d']) := by
    rw [List.dropWhile_cons, hbrace]
    rfl
  have hlast : ('\x7b' :: (inside ++ ['\x7d'])).reverse.dropWhile isWhitespace =
      ('\x7b' :: (inside ++ ['\x7d'])).reverse := by
    rw [← List.cons_append, List.reverse_append, List.reverse_singleton, List.singleton_append,
      List.dropWhile_cons, hclose]
    rfl
  rw [trim, line, h, hfirst, hlast, List.reverse_reverse]
  intro hnil
  have := congrArg String.toList hnil
  rw [String.toList_ofList] at this
  exact absurd this (List.cons_ne_nil _ _)

namespace Engine

/-- Push a revision that was read from the trail. -/
def replay (e : Engine) (rev : PersistedRevision) : Engine where
  history := Function.update e.history rev.type
    (⟨rev.seq, rev.key, rev.data, rev.deleted⟩ :: e.history rev.type)
  live := Function.update e.live rev.type (relive (e.live rev.type) rev.key rev.deleted)
  seq := max e.seq rev.seq
  nodup := nodup_push e.nodup rev.type ⟨rev.seq, rev.key, rev.data, rev.deleted⟩
  live_iff := live_iff_push e.live_iff rev.type ⟨rev.seq, rev.key, rev.data, rev.deleted⟩

/-- The revision the next append writes. -/
def next (e : Engine) (name : String) (key : Key) (data : Value) (deleted : Bool) :
    PersistedRevision := ⟨name, e.seq + 1, key, data, deleted⟩

/-- The trail of a key, oldest first. -/
def historyOf (e : Engine) (name : String) (key : Key) : List Revision :=
  (e.history name).reverse.filter fun r => r.key = key

/-- Appending a revision and replaying its line do the same. -/
@[simp]
theorem replay_next (e : Engine) (name : String) (key : Key) (data : Value) (deleted : Bool) :
    e.replay (e.next name key data deleted) = e.append name key data deleted := by
  unfold replay next append
  congr
  exact Nat.max_eq_right (Nat.le_succ e.seq)

/-- The engine holds this revision. -/
def Holds (e : Engine) (rev : PersistedRevision) : Prop :=
  ⟨rev.seq, rev.key, rev.data, rev.deleted⟩ ∈ e.history rev.type

@[simp] theorem holds_replay (e : Engine) (rev rev' : PersistedRevision) :
    (e.replay rev).Holds rev' ↔ rev' = rev ∨ e.Holds rev' := by
  unfold Holds replay
  dsimp only
  by_cases h : rev'.type = rev.type
  · rw [h, Function.update_self, List.mem_cons]
    refine or_congr_left ⟨fun heq => ?_, fun heq => by rw [heq]⟩
    obtain ⟨h₁, h₂, h₃, h₄⟩ := Revision.mk.inj heq
    cases rev
    cases rev'
    simp_all
  · rw [Function.update_of_ne h]
    exact ⟨Or.inr, fun hor => hor.resolve_left fun heq => h (by rw [heq])⟩

@[simp] theorem holds_foldl_replay (revs : List PersistedRevision) (e : Engine)
    (rev : PersistedRevision) :
    (revs.foldl replay e).Holds rev ↔ rev ∈ revs ∨ e.Holds rev := by
  induction revs generalizing e with
  | nil => simp
  | cons r revs ih =>
      rw [List.foldl_cons, ih, holds_replay, List.mem_cons, ← or_assoc, @or_comm (rev ∈ revs)]

end Engine

/-- A durable engine and the content of its trail file, if there is one. What is written to the file
is a function of the revision, so file and memory cannot disagree about one. -/
structure Durable where
  engine : Engine
  file : Option String

/-- What is asked of a durable engine to change it. -/
inductive Write where
  | append (name : String) (key : Key) (data : Value) (deleted : Bool)
  | compareAndSwap (name : String) (key : Key) (expected : Option Version) (data : Value)
      (deleted : Bool)

/-- What it answers. -/
inductive Answer where
  | seq (n : Nat)
  | cas (result : Except String CasResult)

namespace Durable

/-- A durable engine on a path without a file. -/
def durable : Durable := ⟨.new, none⟩

/-- Append a revision, and its line to the trail. -/
def append (d : Durable) (name : String) (key : Key) (data : Value) (deleted : Bool) :
    Nat × Durable :=
  (d.engine.seq + 1, ⟨d.engine.append name key data deleted,
    some (d.file.getD "" ++ (d.engine.next name key data deleted).line ++ "\n")⟩)

/-- A conditional write that goes through is an append. -/
def compareAndSwap (d : Durable) (name : String) (key : Key) (expected : Option Version)
    (data : Value) (deleted : Bool) : Except String CasResult × Durable :=
  match (d.engine.compareAndSwap name key expected data deleted).1 with
  | .ok result =>
      (.ok result, if result.applied then (d.append name key data deleted).2 else d)
  | .error e => (.error e, d)

/-- It answers as the engine does. -/
@[simp]
theorem compareAndSwap_fst (d : Durable) (name : String) (key : Key) (expected : Option Version)
    (data : Value) (deleted : Bool) : (d.compareAndSwap name key expected data deleted).1 =
      (d.engine.compareAndSwap name key expected data deleted).1 := by
  unfold compareAndSwap
  cases (d.engine.compareAndSwap name key expected data deleted).1 <;> rfl

@[simp] theorem compareAndSwap_engine (d : Durable) (name : String) (key : Key)
    (expected : Option Version) (data : Value) (deleted : Bool) :
    (d.compareAndSwap name key expected data deleted).2.engine =
      (d.engine.compareAndSwap name key expected data deleted).2 := by
  unfold compareAndSwap Engine.compareAndSwap
  cases expected with
  | none =>
      cases (d.engine.history name).latest key with
      | none => rfl
      | some r => cases hdeleted : r.deleted <;> simp [hdeleted, append]
  | some v =>
      cases (d.engine.history name).latest key with
      | none => rfl
      | some r => by_cases h : v = ⟨r.seq, "memory"⟩ <;> simp [h, append]

/-- A write on the engine, with the lines it leaves in the trail. -/
def exec : Write → Durable → Answer × Durable
  | .append name key data deleted, d =>
      let (seq, d') := d.append name key data deleted
      (.seq seq, d')
  | .compareAndSwap name key expected data deleted, d =>
      let (result, d') := d.compareAndSwap name key expected data deleted
      (.cas result, d')

/-- A run of writes, with the answers in order. -/
def run : List Write → Durable → List Answer × Durable
  | [], d => ([], d)
  | w :: ws, d =>
      let (a, d') := exec w d
      let (answers, d'') := run ws d'
      (a :: answers, d'')

section

variable (fromStr : String → Except String PersistedRevision)

/-- One line of the trail; blank ones are skipped. -/
def replayLine (e : Engine) (line : String) : Except String Engine :=
  if trim line = "" then .ok e
  else match fromStr line with
    | .ok rev => .ok (e.replay rev)
    | .error message => .error s!"parse trail line: {message}"

/-- Reopen a trail; a missing file is an empty store. -/
def load (file : Option String) : Except String Durable :=
  match file with
  | none => .ok durable
  | some text => do
      let engine ← (Lines.ofText text).foldlM (replayLine fromStr) .new
      pure ⟨engine, some text⟩

end

/-! ### What a trail holds -/

/-- `d'` is `d` after some revisions have been written, oldest first. -/
structure Grew (d : Durable) (revs : List PersistedRevision) (d' : Durable) :
    Prop where
  engine : d'.engine = revs.foldl Engine.replay d.engine
  text : d'.file.getD "" = d.file.getD "" ++ Lines.render (revs.map PersistedRevision.line)
  file : d'.file = none → d.file = none ∧ revs = []
  seq : d'.engine.seq = d.engine.seq + revs.length

namespace Grew

variable {d d' d'' : Durable} {revs revs' : List PersistedRevision}

theorem refl (d : Durable) : Grew d [] d := by
  refine ⟨rfl, ?_, fun h => ⟨h, rfl⟩, rfl⟩
  rw [List.map_nil, Lines.render_nil, String.append_empty]

theorem trans (h : Grew d revs d') (h' : Grew d' revs' d'') :
    Grew d (revs ++ revs') d'' := by
  refine ⟨?_, ?_, fun hnone => ?_, ?_⟩
  · rw [h'.engine, h.engine, List.foldl_append]
  · rw [h'.text, h.text, List.map_append, Lines.render_append, String.append_assoc]
  · obtain ⟨hnone', rfl⟩ := h'.file hnone
    obtain ⟨hnone'', rfl⟩ := h.file hnone'
    exact ⟨hnone'', rfl⟩
  · rw [h'.seq, h.seq, List.length_append, Nat.add_assoc]

theorem append (d : Durable) (name : String) (key : Key) (data : Value) (deleted : Bool) :
    Grew d [d.engine.next name key data deleted] (d.append name key data deleted).2 := by
  refine ⟨?_, ?_, nofun, rfl⟩
  · exact (Engine.replay_next ..).symm
  · rw [List.map_singleton, ← List.nil_append [PersistedRevision.line _], Lines.render_snoc]
    simp [Durable.append, String.append_assoc]

/-- A conditional write writes one revision, or none. -/
theorem compareAndSwap (d : Durable) (name : String) (key : Key) (expected : Option Version)
    (data : Value) (deleted : Bool) : ∃ revs, revs.length ≤ 1 ∧
    Grew d revs (d.compareAndSwap name key expected data deleted).2 := by
  unfold Durable.compareAndSwap
  split
  · dsimp only
    split
    · exact ⟨[_], Nat.le_refl 1, append ..⟩
    · exact ⟨[], Nat.zero_le 1, refl d⟩
  · exact ⟨[], Nat.zero_le 1, refl d⟩

theorem exec (w : Write) (d : Durable) : ∃ revs, Grew d revs (Durable.exec w d).2 := by
  cases w with
  | append name key data deleted => exact ⟨_, append ..⟩
  | compareAndSwap name key expected data deleted =>
      obtain ⟨revs, -, h⟩ := compareAndSwap d name key expected data deleted
      exact ⟨revs, h⟩

theorem run (ws : List Write) (d : Durable) :
    ∃ revs, Grew d revs (Durable.run ws d).2 := by
  induction ws generalizing d with
  | nil => exact ⟨[], refl d⟩
  | cons w ws ih =>
      obtain ⟨revs, h⟩ := @exec w d
      obtain ⟨revs', h'⟩ := ih (Durable.exec w d).2
      exact ⟨revs ++ revs', h.trans h'⟩

/-- The engine holds what was written. -/
theorem holds (h : Grew d revs d') {rev : PersistedRevision}
    (hrev : rev ∈ revs ∨ d.engine.Holds rev) : d'.engine.Holds rev := by
  rw [h.engine]
  exact (Engine.holds_foldl_replay ..).mpr hrev

/-- The trail is only appended to. -/
theorem text_grows (h : Grew d revs d') : (d.file.getD "").toList <+: (d'.file.getD "").toList := by
  rw [h.text, String.toList_append]
  exact List.prefix_append ..

end Grew

/-- Lines written by the engine are replayed. -/
theorem foldlM_replayLine {fromStr : String → Except String PersistedRevision}
    {revs : List PersistedRevision} (h : ∀ rev ∈ revs, fromStr rev.line = .ok rev) (e : Engine) :
    (revs.map PersistedRevision.line).foldlM (replayLine fromStr) e = .ok
    (revs.foldl Engine.replay e) := by
  induction revs generalizing e with
  | nil => rfl
  | cons rev revs ih =>
      have hrev := h rev (List.mem_cons_self ..)
      have hline : replayLine fromStr e rev.line = .ok (e.replay rev) := by
        rw [replayLine, if_neg rev.line_filled, hrev]
      rw [List.map_cons, List.foldlM_cons, hline]
      exact ih (fun r hr => h r (List.mem_cons_of_mem _ hr)) (e.replay rev)

/-- Loading is replaying the lines; a missing file has none. -/
theorem load_eq_ok {fromStr : String → Except String PersistedRevision} {file : Option String}
    {d : Durable} : load fromStr file = .ok d ↔
      d.file = file ∧ (Lines.ofText (file.getD "")).foldlM
      (replayLine fromStr) .new = .ok d.engine := by
  obtain ⟨engine, file'⟩ := d
  cases file with
  | none =>
      constructor
      · rintro ⟨⟩
        exact ⟨rfl, rfl⟩
      · rintro ⟨rfl, h⟩
        cases h
        rfl
  | some text =>
      rw [Option.getD_some, load]
      cases (Lines.ofText text).foldlM (replayLine fromStr) .new with
      | ok e =>
          constructor
          · rintro ⟨⟩
            exact ⟨rfl, rfl⟩
          · rintro ⟨rfl, h⟩
            cases h
            rfl
      | error message => exact ⟨nofun, fun h => nomatch h.2⟩

/-- A trail that is complete up to its last line, and reads back as its engine. -/
structure Reopens (fromStr : String → Except String PersistedRevision) (d : Durable) : Prop where
  load : load fromStr d.file = .ok d
  boundary : Lines.AtBoundary (d.file.getD "")

theorem Reopens.durable (fromStr : String → Except String PersistedRevision) :
    Reopens fromStr durable := ⟨rfl, nofun⟩

/-- What is written later is replayed as well. -/
theorem Reopens.grew {fromStr : String → Except String PersistedRevision} {d d' : Durable}
    {revs : List PersistedRevision} (h : Reopens fromStr d) (hgrew : Grew d revs d')
    (hreads : ∀ rev ∈ revs, fromStr rev.line = .ok rev) : Reopens fromStr d' := by
  have hlines : ∀ line ∈ revs.map PersistedRevision.line, Lines.OneLine line := by
    intro line hline
    obtain ⟨rev, -, rfl⟩ := List.mem_map.mp hline
    exact rev.oneLine
  constructor
  · refine load_eq_ok.mpr ⟨rfl, ?_⟩
    rw [hgrew.text, Lines.ofText_append h.boundary, Lines.ofText_render hlines, List.foldlM_append,
      (load_eq_ok.mp h.load).2, hgrew.engine]
    exact foldlM_replayLine hreads d.engine
  · rw [hgrew.text]
    exact h.boundary.append_render _

/-! ### Replay equals memory -/

/-- Two engines that hold the same records. -/
structure SameRecords (e e' : Engine) : Prop where
  history : ∀ name, e.history name = e'.history name
  historyOf : ∀ name key, e.historyOf name key = e'.historyOf name key
  keys : ∀ name, e.keys name = e'.keys name
  current : ∀ name key, e.current name key = e'.current name key
  version : ∀ name key, e.version name key = e'.version name key
  seq : e.seq = e'.seq

theorem SameRecords.refl (e : Engine) : SameRecords e e :=
  ⟨fun _ => rfl, fun _ _ => rfl, fun _ => rfl, fun _ _ => rfl, fun _ _ => rfl, rfl⟩

/-- After any writes the trail is read back as an engine that holds the same records, and whatever
is written to either afterwards is answered alike. Nothing but the trail is kept on disk, so the
engine has to be a function of it. -/
theorem replay_equals_memory (fromStr : String → Except String PersistedRevision)
    (writes : List Write)
    (hreads : ∀ rev, (run writes durable).2.engine.Holds rev → fromStr rev.line = .ok rev) :
    ∃ d, load fromStr (run writes durable).2.file = .ok d ∧
      SameRecords d.engine (run writes durable).2.engine ∧
      ∀ more, (run more d).1 = (run more (run writes durable).2).1 ∧
        SameRecords (run more d).2.engine (run more (run writes durable).2).2.engine := by
  obtain ⟨revs, hgrew⟩ := Grew.run writes durable
  have hreopens := (Reopens.durable fromStr).grew hgrew fun rev hrev =>
    hreads rev (hgrew.holds (Or.inl hrev))
  exact ⟨_, hreopens.load, .refl _, fun more => ⟨rfl, .refl _⟩⟩

/-- A reader of the lines of the listed revisions. -/
def readerOf (revs : List PersistedRevision) (line : String) : Except String PersistedRevision :=
  match revs.find? fun rev => rev.line = line with
  | some rev => .ok rev
  | none => .error "expected value"

/-- A revision, a conditional write that is refused, and a tombstone. -/
def threeWrites : List Write := [.append "issue" ["a"] (.num 1) false,
  .compareAndSwap "issue" ["a"] none .null false, .append "issue" ["a"] .null true]

/-- The revisions that are written. -/
def twoRevisions : List PersistedRevision :=
  [⟨"issue", 1, ["a"], .num 1, false⟩, ⟨"issue", 2, ["a"], .null, true⟩]

theorem reads_twoRevisions :
    ∀ rev ∈ twoRevisions, readerOf twoRevisions rev.line = .ok rev := by decide +kernel

theorem replay_three_writes :
    ∃ d, load (readerOf twoRevisions) (run threeWrites durable).2.file = .ok d ∧
      SameRecords d.engine (run threeWrites durable).2.engine ∧
      ∀ more, (run more d).1 = (run more (run threeWrites durable).2).1 ∧
        SameRecords (run more d).2.engine
          (run more (run threeWrites durable).2).2.engine := by
  refine replay_equals_memory (readerOf twoRevisions) threeWrites fun rev hrev => ?_
  have hengine : (run threeWrites durable).2.engine =
      twoRevisions.foldl Engine.replay .new := rfl
  rw [hengine] at hrev
  exact reads_twoRevisions rev
    (((Engine.holds_foldl_replay ..).mp hrev).resolve_right List.not_mem_nil)

end Durable

end Marbles.Records
