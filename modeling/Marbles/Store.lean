import Mathlib.Data.String.Basic
import Mathlib.Data.List.Dedup
import Marbles.Lib.Outcome
import Marbles.Lib.Sort
import Marbles.Time

/-!
# The store contract

The errors and reports every backend shares, and the computations that the backends
repeat word for word: what a patch makes of an issue, how evidence accumulates, how
long a claim lasts, in which order issues are listed.

What the stores have in common is defined once, whichever store it was taken from: the merge of a
patch, labels, evidence, leases, the order of a listing, the texts of the errors. A store calls
these on its own rows or documents. That they leave alone what they do not name is stated here,
next to them.
-/

namespace Marbles

open Json (Value Object)
open Sorting (sortOn)

/-! ### Errors -/

/-- The errors of the store. Those of the libraries below it are kept as texts. -/
inductive Error where
  | sqlite (message : String)
  | postgres (message : String)
  | json (message : String)
  | notFound (id : String)
  | noProject (slug : String)
  | badStatus (status : String)
  | alreadyClaimed (id holder : String)
  | cycle (child parent : String)
  | bad (message : String)
  | noEvidence (id : String)
  deriving DecidableEq, Repr

/-- The text an error is displayed with. -/
def Error.display : Error → String
  | .sqlite e => s!"sqlite: {e}"
  | .postgres e => s!"postgres: {e}"
  | .json e => s!"json: {e}"
  | .notFound id => s!"no issue {id}"
  | .noProject slug => s!"no project {slug}"
  | .badStatus s =>
      s!"invalid status {s} (expected one of: open, in_progress, review, blocked, " ++
        "deferred, closed)"
  | .alreadyClaimed id holder => s!"issue {id} is already claimed by {holder}"
  | .cycle child parent => s!"adding {child} -> {parent} would create a dependency cycle"
  | .bad message => message
  | .noEvidence id =>
      s!"refusing to close {id}: done means delivered. Attach --pr/--commit evidence, or " ++
        "--ack \"no delivery expected: <reason>\" for non-code outcomes"

/-- What a store call comes back with. -/
abbrev Result := Outcome Error

/-! ### Reports -/

/-- What a sweep has taken from agents, and what from humans. -/
structure SweepReport where
  requeued : List String
  escalated : List String
  deriving DecidableEq, Repr

/-- How many issues went with the project. -/
structure ProjectRemoval where
  issues : Int
  deriving DecidableEq, Repr

/-- An event that waits in the outbox. -/
structure OutboundEvent where
  seq : Int
  storeId : String
  issueId : String
  project : String
  occurredAt : Int
  event : String
  attempts : Int
  deriving DecidableEq, Repr

/-! ### Text -/

/-- `char::is_whitespace`: the Unicode property `White_Space`. -/
def isWhitespace (c : Char) : Bool :=
  let n := c.toNat
  (9 ≤ n && n ≤ 13) || n = 0x20 || n = 0x85 || n = 0xA0 || n = 0x1680 ||
    (0x2000 ≤ n && n ≤ 0x200A) || n = 0x2028 || n = 0x2029 || n = 0x202F || n = 0x205F ||
    n = 0x3000

/-- `str::trim`. -/
def trim (s : String) : String :=
  String.ofList ((s.toList.dropWhile isWhitespace).reverse.dropWhile isWhitespace).reverse

/-- An optional text, trimmed, absent when nothing is left. -/
def trimmed (s : Option String) : Option String := (s.map trim).filter (· ≠ "")

/-- The integer a text spells: an optional sign, then decimal digits. -/
def parseInt (s : String) : Option Int :=
  let digits : List Char → Option Int := fun cs =>
    if cs.isEmpty || !cs.all Char.isDigit then none else some (Nat.ofDigitChars 10 cs 0)
  match s.toList with
  | '-' :: cs => (digits cs).map fun n => -n
  | '+' :: cs => digits cs
  | cs => digits cs

/-- `str::parse::<i64>`. -/
def parseI64 (s : String) : Option Int := (parseInt s).filter fun n => -2 ^ 63 ≤ n ∧ n < 2 ^ 63

/-- A number that was printed is read back. -/
@[simp] theorem parseInt_repr (n : Nat) : parseInt n.repr = some (n : Int) := by
  have hdigits : (Nat.toDigits 10 n).all Char.isDigit = true :=
    List.all_eq_true.mpr fun c hc => Nat.isDigit_of_mem_toDigits (by decide) (by decide) hc
  unfold parseInt
  rw [Nat.toList_repr]
  cases hcs : Nat.toDigits 10 n with
  | nil => exact absurd hcs Nat.toDigits_ne_nil
  | cons c cs =>
      rw [hcs] at hdigits
      have hc : c.isDigit = true := List.all_eq_true.mp hdigits c (List.mem_cons_self ..)
      have hsign : c ≠ '-' ∧ c ≠ '+' := by
        constructor <;>
          · rintro rfl
            exact absurd hc (by decide)
      have hvalue : Nat.ofDigitChars 10 (c :: cs) 0 = n := by
        rw [← hcs]
        exact Nat.ofDigitChars_ten_toDigits
      split
      · rename_i heq
        exact absurd (List.cons.inj heq).1 hsign.1
      · rename_i heq
        exact absurd (List.cons.inj heq).1 hsign.2
      · simp [hdigits, hvalue]

theorem repr_inj {n m : Nat} (h : n.repr = m.repr) : n = m := by
  have hparse := congrArg parseInt h
  rw [parseInt_repr, parseInt_repr] at hparse
  exact Int.ofNat.inj (Option.some.inj hparse)

/-! ### Creating -/

/-- A priority of zero stands for the default. -/
def NewIssue.storedPriority (spec : NewIssue) : Int :=
  if spec.priority = 0 then 2 else spec.priority

/-- The metadata object a new issue starts with. -/
def NewIssue.storedMetadata (spec : NewIssue) : Result Object :=
  match spec.metadata.getD (.obj []) with
  | .obj map => match spec.externalRef with
      | some reference => pure (Object.insert "external_ref" (.str reference) map)
      | none => pure map
  | _ => Outcome.fail (.bad "create metadata must be a JSON object")

/-! ### Editing -/

/-- Merge the metadata of a patch; the external reference follows it. -/
def Issue.mergeMetadata (issue : Issue) : Value → Result Issue
  | .obj incoming =>
      let map := Object.merge (issue.metadata.asObject.getD []) incoming
      pure { issue with
        metadata := .obj map
        externalRef := (Object.get "external_ref" map).bind Value.asStr }
  | _ => Outcome.fail (.bad "metadata patch must be a JSON object")

/-- The description after appending notes on a line of their own. -/
def withNotes (description notes : String) : String :=
  if description = "" then notes else description ++ "\n" ++ notes

/-- When a patched issue becomes available: an edit defers it. -/
def IssuePatch.available (patch : IssuePatch) (policy : Policy) (now : Int) (issue : Issue) :
    Int :=
  patch.availableAt.getD
    (max (wrapI64 (now + policy.editDeferralSeconds)) (issue.availableAt.getD 0))

/-- What a patch makes of the fields other than the metadata and the status. -/
def IssuePatch.edit (patch : IssuePatch) (issue : Issue) : Issue :=
  let description := patch.description.getD issue.description
  { issue with
    title := patch.title.getD issue.title
    description := match patch.appendNotes with
      | some notes => withNotes description notes
      | none => description
    priority := patch.priority.getD issue.priority
    evidence := patch.evidence.getD issue.evidence }

/-- The status a patch asks for, and the closing time that goes with it. -/
def IssuePatch.setStatus (patch : IssuePatch) (now : Int) (issue : Issue) : Issue :=
  match patch.status with
  | some status =>
      { issue with
        status := status
        closedAt := if status = "closed" then some now else none }
  | none => issue

/-- Does a patch change the status? -/
def IssuePatch.statusChanged (patch : IssuePatch) (issue : Issue) : Bool :=
  patch.status.any (· ≠ issue.status)

/-- Merge the metadata of a patch, if it has any. -/
def IssuePatch.merge (patch : IssuePatch) (issue : Issue) : Result Issue :=
  match patch.metadata with
  | some metadata => issue.mergeMetadata metadata
  | none => pure issue

/-- The issue an update stores. -/
def IssuePatch.apply (patch : IssuePatch) (policy : Policy) (now : Int) (issue : Issue) :
    Result Issue := do
  let current ← patch.merge (patch.edit issue)
  let current := patch.setStatus now current
  pure { current with
    availableAt := some (patch.available policy now issue)
    updatedAt := now }

/-- Merging a patch changes the metadata, and the reference with it. -/
theorem IssuePatch.merge_ok {patch : IssuePatch} {issue merged : Issue}
    (h : patch.merge issue = .ok merged) :
    ∃ metadata reference, merged = { issue with metadata := metadata, externalRef := reference } ∧
      (metadata = issue.metadata ∧ reference = issue.externalRef ∨
        ∃ map, metadata = .obj map ∧ reference = (Object.get "external_ref" map).bind
            Value.asStr) := by
  unfold IssuePatch.merge at h
  cases hmetadata : patch.metadata with
  | none =>
      rw [hmetadata] at h
      cases h
      exact ⟨_, _, rfl, Or.inl ⟨rfl, rfl⟩⟩
  | some incoming =>
      rw [hmetadata] at h
      cases incoming with
      | obj incoming =>
          cases h
          exact ⟨_, _, rfl, Or.inr ⟨_, rfl, rfl⟩⟩
      | _ => exact absurd h Outcome.fail_ne_ok

/-- What a patch that applies makes of an issue. -/
theorem IssuePatch.apply_ok {patch : IssuePatch} {policy : Policy} {now : Int} {issue next : Issue}
    (h : patch.apply policy now issue = .ok next) :
    ∃ metadata reference, next = { patch.setStatus now
        { patch.edit issue with metadata := metadata, externalRef := reference } with
          availableAt := some (patch.available policy now issue)
          updatedAt := now } ∧
      (metadata = issue.metadata ∧ reference = issue.externalRef ∨
        ∃ map, metadata = .obj map ∧ reference = (Object.get "external_ref" map).bind
            Value.asStr) := by
  obtain ⟨merged, hmerged, h⟩ := Outcome.bind_eq_ok.mp h
  obtain ⟨metadata, reference, rfl, hmetadata⟩ := IssuePatch.merge_ok hmerged
  cases h
  exact ⟨metadata, reference, rfl, hmetadata⟩

/-- A patch without a status leaves the status. -/
theorem patch_apply_status {patch : IssuePatch} {policy : Policy} {now : Int} {issue next : Issue}
    (h : patch.apply policy now issue = .ok next) :
    next.status = patch.status.getD issue.status := by
  obtain ⟨metadata, reference, rfl, -⟩ := patch.apply_ok h
  unfold IssuePatch.setStatus
  cases patch.status <;> rfl

/-- Refuse a patch whose status is not one of the known texts. -/
def IssuePatch.checkStatus (patch : IssuePatch) : Result Unit :=
  match patch.status with
  | some status => if status ∈ allStatuses then pure () else Outcome.fail (.badStatus status)
  | none => pure ()

/-! ### Labels -/

/-- The labels after adding one, `none` when it was there. -/
def addedLabel (labels : List String) (label : String) : Option (List String) :=
  if label ∈ labels then none else some (sortOn id (labels ++ [label]))

/-- The labels without one; removing what is not there changes nothing. -/
def removedLabel (labels : List String) (label : String) : List String :=
  labels.filter (· ≠ label)

/-! ### Closing -/

/-- Evidence accumulates: what is not there yet is appended. -/
def mergeEvidence (existing evidence : List Evidence) : List Evidence :=
  evidence.foldl (fun merged item => if item ∈ merged then merged else merged ++ [item]) existing

theorem mem_mergeEvidence {e : Evidence} {evidence existing : List Evidence}
    (h : e ∈ existing) : e ∈ mergeEvidence existing evidence := by
  induction evidence generalizing existing with
  | nil => exact h
  | cons item evidence ih =>
      rw [mergeEvidence, List.foldl_cons]
      split
      · exact ih h
      · exact ih (List.mem_append_left _ h)

theorem mergeEvidence_ne_nil {existing evidence : List Evidence} (h : evidence ≠ []) :
    mergeEvidence existing evidence ≠ [] := by
  obtain ⟨item, rest, rfl⟩ := List.exists_cons_of_ne_nil h
  have hmem : item ∈ mergeEvidence existing (item :: rest) := by
    rw [mergeEvidence, List.foldl_cons]
    split
    · rename_i hitem
      exact mem_mergeEvidence hitem
    · exact mem_mergeEvidence (List.mem_append_right _ (List.mem_singleton.mpr rfl))
  exact List.ne_nil_of_mem hmem

/-- The detail of a `closed` event. -/
def closedDetail (reason : Option String) (evidence : List Evidence) : String :=
  reason.getD "" ++ " | " ++ " ".intercalate (evidence.map fun e => s!"{e.kind}:{e.value}")

/-- The error of closing past a blocker. -/
def waitsOn (id blocker : String) : Error :=
  .bad s!"{id} still waits on {blocker}; close it first or remove the dependency"

/-! ### Leases -/

/-- The lease of a human claim or heartbeat, `none` when the calendar walk panics. -/
def humanTtl (week : WorkWeek) (policy : Policy) (now : Int) : Option Int := do
  let expiry ← week.humanExpiry now policy
  some (wrapI64 (expiry - now))

/-- The lease of a claim. The default of a human claim is computed even when it is
overridden, and an override is walked through the calendar before it is clamped. -/
def ClaimRequest.ttl (req : ClaimRequest) (week : WorkWeek) (policy : Policy) (now : Int) :
    Option Int :=
  match req.actorKind with
  | .agent => some (min (req.ttlSeconds.getD policy.agentTtlSeconds) policy.maxTtlSeconds)
  | .human => do
      let business ← match req.ttlSeconds with
        | some secs => do
            let expired ← week.deadline now (max (secs / 60) 1)
            pure (some (wrapI64 (expired - now)))
        | none => pure none
      let default ← humanTtl week policy now
      some (min (business.getD default) policy.maxTtlSeconds)

/-- The lease a heartbeat of a claim of this kind is given. -/
def touchTtl (kind : Option ActorKind) (week : WorkWeek) (policy : Policy) (now : Int) :
    Option Int :=
  match kind with
  | some .human => humanTtl week policy now
  | _ => some policy.agentTtlSeconds

/-- A claim that is there and has not lapsed. -/
def heldAt (assignee : Option String) (expiresAt : Option Int) (now : Int) : Bool :=
  assignee.isSome && expiresAt.any (· > now)

/-! ### Listing -/

/-- The columns issues are listed by; the last one tells any two apart. -/
abbrev ListKey := Int ×ₗ Int ×ₗ String

/-- The key of an issue. -/
def listKey (priority createdAt : Int) (id : String) : ListKey :=
  toLex (priority, toLex (createdAt, id))

/-- The entries of a list, each once, in order. -/
def distinct (l : List String) : List String := sortOn (fun s => s) l.dedup

/-- The statistics of issues given by their projects and statuses. -/
def statsValue (issues : List (String × String)) : Value :=
  .obj ((distinct (issues.map Prod.fst)).map fun project =>
    let statuses := (issues.filter fun i => i.1 = project).map Prod.snd
    (project, .obj [
      ("by_status", .obj ((distinct statuses).map fun s => (s, .num (statuses.count s)))),
      ("total", .num statuses.length)]))

theorem distinct_perm {l l' : List String} (h : l.Perm l') : distinct l = distinct l' :=
  Sorting.sortOn_perm Function.injective_id h.dedup

/-- Only how many issues there are of each kind matters to the statistics. -/
theorem statsValue_perm {l l' : List (String × String)} (h : l.Perm l') :
    statsValue l = statsValue l' := by
  unfold statsValue
  rw [distinct_perm (h.map Prod.fst)]
  refine congrArg Value.obj (List.map_congr_left fun project _ => ?_)
  have hstatuses := (h.filter fun i => i.1 = project).map Prod.snd
  simp only [distinct_perm hstatuses, hstatuses.length_eq, hstatuses.count_eq]

@[simp] theorem listKey_inj {p c p' c' : Int} {id id' : String} :
    listKey p c id = listKey p' c' id' ↔ p = p' ∧ c = c' ∧ id = id' := by
  simp only [listKey, toLex_inj, Prod.mk.injEq]

/-! ### The calls of the contract -/

/-- A call of the `Store` trait, or of `drop_project`. Besides its arguments it carries what
the backend does not decide: the clock reading of `ensure_project`, the suffixes the id
generator draws, and the order in which a query without `ORDER BY` visits the issues. -/
inductive Op where
  | ensureProject (slug root idPrefix : String) (ts : Int)
  | dropProject (slug : String)
  | projects
  | ensureFolder (folder : Folder) (now : Int)
  | setProjectFolder (project : String) (folder : Option String) (now : Int)
  | folderView
  | pendingEvents (now : Int) (limit : Nat)
  | markEventDelivered (seq now : Int)
  | markEventFailed (seq nextAttemptAt : Int) (error : String)
  | create (spec : NewIssue) (draws : List String) (now : Int)
  | get (id : String)
  | list (project : Option String) (all : Bool) (onlyId : Option String)
  | ready (project : Option String) (now : Int)
  | update (id : String) (patch : IssuePatch) (actor : String) (now : Int)
  | addLabel (id label actor : String) (now : Int)
  | removeLabel (id label actor : String) (now : Int)
  | addDep (child parent actor : String) (now : Int)
  | removeDep (child parent actor : String) (now : Int)
  | claim (req : ClaimRequest) (now : Int)
  | touch (id assignee : String) (now : Int)
  | release (id actor : String) (now : Int)
  | sweep (now : Int) (order : List String)
  | close (id : String) (reason : Option String) (evidence : List Evidence) (actor : String)
      (now : Int)
  | supersede (id replacement actor : String) (now : Int)
  | history (id : String)
  | stats
  | prometheusMetrics (now : Int)

/-- What a call returns. -/
inductive Reply where
  | unit
  | removal (report : ProjectRemoval)
  | projects (rows : List (String × String × String))
  | folders (view : FolderView)
  | events (events : List OutboundEvent)
  | id (id : String)
  | issue (issue : Issue)
  | issues (issues : List Issue)
  | receipt (receipt : ClaimReceipt)
  | expiry (expiresAt : Int)
  | swept (report : SweepReport)
  | history (events : List HistoryEvent)
  | stats (value : Value)
  | text (text : String)
  deriving DecidableEq

end Marbles
