import Marbles.Lib.Json

/-!
# The domain vocabulary

The records of `types.rs`, under the names the wire uses. Timestamps are epoch seconds.
An integer column or field is an `i64` in the source; here it is an `Int`, and the
additions that can leave the range go through `wrapI64`, as a release build computes
them, or through `satI64` where the source saturates.

Statuses are an enumeration here and texts in the tables, with `parse` and `asStr` between them;
what is written has been parsed before. Numbers of the records are integers, with the range of the
column stated where a result depends on it.
-/

namespace Marbles

open Json (Value)

/-- The `i64` a wrapping addition stores. -/
def wrapI64 (n : Int) : Int := n.bmod (2 ^ 64)

theorem wrapI64_of_range {n : Int} (h : -2 ^ 63 ≤ n) (h' : n < 2 ^ 63) : wrapI64 n = n := by
  rw [wrapI64, Int.bmod_def]
  omega

/-- The `i64` a saturating addition or subtraction gives. -/
def satI64 (n : Int) : Int := max (-2 ^ 63) (min n (2 ^ 63 - 1))

/-- A value that fits an `i64`. -/
def IsI64 (n : Int) : Prop := -2 ^ 63 ≤ n ∧ n < 2 ^ 63

instance (n : Int) : Decidable (IsI64 n) := inferInstanceAs (Decidable (_ ∧ _))

theorem satI64_of_isI64 {n : Int} (h : IsI64 n) : satI64 n = n := by
  rw [IsI64] at h
  rw [satI64]
  omega

/-! ### Statuses -/

/-- The values the `status` column admits. -/
inductive Status where
  | «open»
  | inProgress
  | review
  | blocked
  | deferred
  | closed
  deriving DecidableEq, Repr

namespace Status

/-- The text stored for a status. -/
def asStr : Status → String
  | .«open» => "open"
  | .inProgress => "in_progress"
  | .review => "review"
  | .blocked => "blocked"
  | .deferred => "deferred"
  | .closed => "closed"

/-- In the order of the columns of the board. -/
def all : List Status := [.«open», .inProgress, .review, .blocked, .deferred, .closed]

/-- The status a text stands for. -/
def parse (s : String) : Option Status := all.find? fun st => st.asStr = s

@[simp] theorem parse_asStr (st : Status) : parse st.asStr = some st := by
  cases st <;> decide

theorem asStr_of_parse {s : String} {st : Status} (h : parse s = some st) : st.asStr = s := by
  simpa using List.find?_some h

@[simp] theorem asStr_inj {st st' : Status} : st.asStr = st'.asStr ↔ st = st' := by
  constructor
  · intro h
    have hp := parse_asStr st
    rw [h, parse_asStr] at hp
    exact (Option.some.inj hp).symm
  · exact congrArg asStr

/-- A text is the text of `st` exactly when it is that string. -/
@[simp] theorem asStr_eq_closed {st : Status} : st.asStr = "closed" ↔ st = .closed :=
  @asStr_inj st .closed

@[simp] theorem asStr_eq_open {st : Status} : st.asStr = "open" ↔ st = .«open» :=
  @asStr_inj st .«open»

end Status

/-- The texts a patch may ask for. -/
def allStatuses : List String := Status.all.map Status.asStr

theorem mem_allStatuses {s : String} : s ∈ allStatuses ↔ ∃ st, Status.parse s = some st := by
  constructor
  · intro h
    obtain ⟨st, -, rfl⟩ := List.mem_map.mp h
    exact ⟨st, Status.parse_asStr st⟩
  · rintro ⟨st, h⟩
    rw [← Status.asStr_of_parse h]
    exact List.mem_map.mpr ⟨st, by cases st <;> decide, rfl⟩

/-- Closed is the only one. -/
def isTerminal (status : String) : Bool := status = "closed"

/-! ### Records -/

/-- A delivered artifact proving an issue's outcome; `kind` is "pr", "commit" or "ack". -/
structure Evidence where
  kind : String
  value : String
  deriving DecidableEq, Repr

/-- Nothing was to be delivered, for this reason. -/
def Evidence.ack (reason : String) : Evidence := ⟨"ack", reason⟩

/-- A pull request. -/
def Evidence.pr (url : String) : Evidence := ⟨"pr", url⟩

/-- Who holds a claim; it selects the lease and what happens when it lapses. -/
inductive ActorKind where
  | agent
  | human
  deriving DecidableEq, Repr

namespace ActorKind

def parse : String → Option ActorKind
  | "agent" => some .agent
  | "human" => some .human
  | _ => none

def asStr : ActorKind → String
  | .agent => "agent"
  | .human => "human"

@[simp] theorem parse_asStr (k : ActorKind) : parse k.asStr = some k := by cases k <;> rfl

end ActorKind

/-- A dependency edge as an issue reports it. -/
structure Dependency where
  dependsOnId : Option String
  deriving DecidableEq, Repr

/-- A dependency on an issue of another store, with the last verified assertion. -/
structure RemoteDependency where
  canonicalRef : String
  storeId : String
  remoteIssueId : String
  state : String
  assertedAt : Int
  observedAt : Int
  signature : String
  keyId : String
  freshness : Option String
  deriving DecidableEq, Repr

/-- An issue as the stores report it. -/
structure Issue where
  id : String
  title : String
  description : String
  status : String
  priority : Int
  issueType : String
  labels : List String
  metadata : Value
  externalRef : Option String
  dependencyCount : Int
  dependentCount : Int
  dependencies : List Dependency
  evidence : List Evidence
  parent : Option String
  assignee : Option String
  actorKind : Option String
  expiresAt : Option Int
  availableAt : Option Int
  closedAt : Option Int
  createdAt : Int
  updatedAt : Int
  project : String
  deriving DecidableEq

/-- What an issue is created from. -/
structure NewIssue where
  title : String := ""
  description : String := ""
  issueType : String := ""
  priority : Int := 0
  labels : List String := []
  parent : Option String := none
  id : Option String := none
  project : Option String := none
  /-- `none` applies the default grace. -/
  availableAt : Option Int := none
  createdBy : Option String := none
  metadata : Option Value := none
  externalRef : Option String := none

/-- The fields that are to be changed; `none` leaves one as it is. -/
structure IssuePatch where
  title : Option String := none
  description : Option String := none
  status : Option String := none
  priority : Option Int := none
  appendNotes : Option String := none
  availableAt : Option Int := none
  evidence : Option (List Evidence) := none
  /-- Shallow-merged into the stored metadata; a `null` removes its key. -/
  metadata : Option Value := none

/-- A request to close an issue. -/
structure CloseRequest where
  id : String
  reason : Option String := none
  evidence : List Evidence := []

/-- A request for a claim. -/
structure ClaimRequest where
  id : String
  assignee : String
  actorKind : ActorKind
  /-- Overrides the kind's default lease, clamped by policy. -/
  ttlSeconds : Option Int := none
  deriving DecidableEq

/-- What the holder of a claim gets. -/
structure ClaimReceipt where
  id : String
  assignee : String
  actorKind : ActorKind
  expiresAt : Int
  deriving DecidableEq

/-- An entry of the history of an issue. -/
structure HistoryEvent where
  issueId : String
  ts : Int
  actor : String
  event : String
  detail : String
  deriving DecidableEq, Repr

/-- Claim policy knobs. -/
structure Policy where
  agentTtlSeconds : Int := 30 * 60
  humanTtlBusinessHours : Int := 48
  creationGraceSeconds : Int := 10 * 60
  editDeferralSeconds : Int := 2 * 60
  maxTtlSeconds : Int := 7 * 24 * 3600

/-- A folder of projects. -/
structure Folder where
  slug : String
  name : String
  parent : Option String := none
  createdAt : Int := 0
  deriving DecidableEq, Repr

/-- A project is filed in a folder. -/
structure ProjectFolder where
  project : String
  folder : String
  deriving DecidableEq, Repr

/-- The folders, and the projects filed in them. -/
structure FolderView where
  folders : List Folder
  projects : List ProjectFolder
  deriving DecidableEq, Repr

end Marbles
