import Marbles.Federation.Crypto
import Marbles.Lib.Marker
import Marbles.Store
import Mathlib.Data.List.DropRight

/-!
# The managed block

`setup.rs` keeps a block between two markers in the instruction files of agents. `apply` looks for
the first begin marker and the first end marker, each on its own; when it has both it replaces what
is between them, and otherwise it appends the block. `apply_managed_iff` says for which contents and
versions that leaves one block and all other text.

A text is a list of characters here, and its offsets count characters where the source counts bytes.

Texts are cut at markers, and a cut in the middle of a marker would spoil every count. The lemmas
about boundaries say that none is cut there: what stands between two parts never completes a
marker that starts in the first one. With them, both markers can be counted part by part, and all
of the rest is about texts with at most one region. Content with a stray marker is where `apply`
takes more than it was given, and the condition is that there is none.
-/

namespace Marbles.Setup

open Marker (count find NoStraddle)

/-- Texts are lists of characters here, as they are cut at positions. -/
abbrev Text := List Char

/-- How a begin marker starts; the rest of its line is not looked at. -/
def beginPrefix : Text := "<!-- BEGIN MARBLES".toList

/-- The whole end marker. -/
def endMarker : Text := "<!-- END MARBLES INTEGRATION -->".toList

/-- Which rules the block carries. -/
inductive Profile where
  | conservative
  | maintainer
  deriving DecidableEq

/-- The name that is written into the begin marker. -/
def Profile.asStr : Profile → String
  | .conservative => "conservative"
  | .maintainer => "maintainer"

/-- The lines that all profiles share. -/
def common : List String :=
  ["## Marbles issue tracker\n",
    "\n",
    "This project tracks work with `marbles` (`mb`). Issues, dependencies, and claims live in\n",
    "the central Marbles server — never in markdown task lists, and never in a per-checkout\n",
    "database that has to be synced.\n",
    "\n",
    "### Quick reference\n",
    "\n",
    "```bash\n",
    "mb ready --json            # eligible work, already\n",
    "mb claim <id> --as <who>   # take work (claims race safely; losing is normal)\n",
    "mb touch <id>              # heartbeat a lease mid-work\n",
    "mb review <id> --pr URL    # PR opened: work is under review, NOT done\n",
    "mb close <id> --pr URL --commit SHA   # done means merged\n",
    "mb close <id> --ack \"no delivery expected: <reason>\"  # research/coordination\n",
    "```\n",
    "\n",
    "The state machine is deliberately strict: `review` is what you set when a PR exists;\n",
    "`closed` requires merge evidence (PR or commit) or an explicit acknowledgement that\n",
    "none is expected. An agent that finished writing code has produced a review, not a\n",
    "delivery.\n",
    "\n",
    "Claims carry TTLs. Agent claims are minutes long and renewed by heartbeats; an expired\n",
    "agent claim re-queues automatically. Human holds are business-hours long and, when they\n",
    "lapse, escalate to the owner rather than silently re-queuing.\n"]

/-- The lines about git, which tell the profiles apart. -/
def hygiene : Profile → List String
  | .conservative =>
      ["### Git policy\n",
        "\n",
        "Do not create commits or push unless the repository instructions or the user\n",
        "explicitly allow it. Report changed files and the commands you would run.\n"]
  | .maintainer =>
      ["### Git hygiene (this fleet runs hot — non-negotiable)\n",
        "\n",
        "- **Commit early, commit often.** Verified work lands as a local commit per intent,\n",
        "referencing the marble id in the message (`mb show` it, mention it). Uncommitted\n",
        "work is work that does not exist when your session dies.\n",
        "- **No stale checkouts.** Rebase onto the base branch at claim time and before any\n",
        "diff-dependent operation. A checkout older than four hours must rebase or be\n",
        "discarded; never build on code you have not refreshed.\n",
        "- **No dirty exits.** A session that ends with uncommitted changes either commits\n",
        "them (preferred) or releases the claim with the state recorded via `mb touch` +\n",
        "notes. A dirty tree with no live claim is a finding, not a to-do.\n",
        "- **Claims serialize, pushes are separate authority.** Taking work is free and\n",
        "atomic; opening PRs and pushing belongs to the delivery loop with the\n",
        "host-held credential. An agent process never receives a push credential.\n",
        "- **Release rather than hoard.** If you are done reading and not starting, `mb\n",
        "release` beats holding. Expired-by-accident claims double the next agent's work.\n"]

/-- What stands between the markers. -/
def body (profile : Profile) : String := String.join (common ++ ["\n"] ++ hygiene profile)

/-- The first three bytes of the digest of the body. -/
def bodyHash (c : Crypto) (profile : Profile) : String :=
  Signing.hex ((c.sha256 (body profile)).take 3)

/-- The block: the body between its markers. -/
def render (c : Crypto) (profile : Profile) (version : Text) : Text :=
  beginPrefix ++ " integration v".toList ++ version ++ " profile:".toList ++
    profile.asStr.toList ++ " hash:".toList ++ (bodyHash c profile).toList ++ " -->\n\n".toList ++
      (body profile).toList ++ "\n".toList ++ endMarker ++ "\n".toList

/-- `str::trim_end`. -/
def trimEnd (s : Text) : Text := s.rdropWhile isWhitespace

/-- Replace everything from the first begin marker to the first end marker, or append the block. The
two are looked for independently of each other. -/
def apply (c : Crypto) (existing : Text) (profile : Profile) (version : Text) : Text :=
  let block := render c profile version
  match find beginPrefix existing, find endMarker existing with
  | some start, some endRel =>
      let stop := endRel + endMarker.length
      let stop := if (existing.drop stop).head? = some '\n' then stop + 1 else stop
      existing.take start ++ block ++ existing.drop stop
  | _, _ =>
      let out := trimEnd existing
      (if out ≠ [] then out ++ "\n\n".toList else out) ++ block

/-- Take the block out; `none` if a marker is missing. -/
def strip (existing : Text) : Option Text := do
  let start ← find beginPrefix existing
  let stop := (← find endMarker existing) + endMarker.length
  some (trimEnd (existing.take start ++ existing.drop stop) ++ "\n".toList)

/-! ### What is to hold -/

/-- A text without markers. -/
structure Plain (s : Text) : Prop where
  noBegin : count beginPrefix s = 0
  noEnd : count endMarker s = 0

/-- A begin marker and an end marker, and no marker in between. -/
def WellFormed (region : Text) : Prop :=
  ∃ inside, Plain inside ∧ region = beginPrefix ++ inside ++ endMarker

/-- There is no pair of markers that belong together. -/
def NoRegion (s : Text) : Prop := ∀ region, WellFormed region → ¬ region <:+: s

/-- A line break right after a region belongs to it. -/
def skipNewline : Text → Text
  | '\n' :: s => s
  | s => s

/-- The parts of a text outside its well-formed regions, in order. -/
inductive Outside : Text → List Text → Prop where
  | whole {s : Text} : NoRegion s → Outside s [s]
  | around {before region after : Text} {parts : List Text} : NoRegion before →
      WellFormed region → Outside (skipNewline after) parts →
        Outside (before ++ region ++ after) (before :: parts)

/-- The parts are found in the texts, one behind the other, up to whitespace at their ends. -/
inductive Survive : List Text → List Text → Prop where
  | nil {texts : List Text} : Survive [] texts
  | here {part before after : Text} {parts texts : List Text} :
      Survive parts (after :: texts) →
        Survive (part :: parts) ((before ++ trimEnd part ++ after) :: texts)
  | later {parts : List Text} {text : Text} {texts : List Text} :
      Survive parts texts → Survive parts (text :: texts)

/-- The result has one managed block, which is that of the last call; what was outside of the
regions is found around it; and the same call again changes nothing. One block means, as in the
tests of `apply`, one begin marker and one end marker in the whole text; that they enclose the
rendered block is what `block` says. -/
structure Managed (c : Crypto) (original result : Text) (last : Profile × Text) : Prop where
  block : ∃ before after, result = before ++ render c last.1 last.2 ++ after ∧
    ∀ parts, Outside original parts → Survive parts [before, after]
  oneBegin : count beginPrefix result = 1
  oneEnd : count endMarker result = 1
  again : apply c result last.1 last.2 = result

/-- A text with no markers but those of one well-formed region, if any. -/
def Clean (s : Text) : Prop :=
  Plain s ∨ ∃ before region after, s = before ++ region ++ after ∧ Plain before ∧
    WellFormed region ∧ Plain after

/-- Several calls, one after another. -/
def applyAll (c : Crypto) (calls : List (Profile × Text)) (s : Text) : Text :=
  calls.foldl (fun s call => apply c s call.1 call.2) s

/-! ### The markers -/

theorem beginPrefix_eq : beginPrefix =
    ['<', '!', '-', '-', ' ', 'B', 'E', 'G', 'I', 'N', ' ', 'M', 'A', 'R', 'B', 'L', 'E', 'S'] :=
  String.toList_ofList

theorem endMarker_eq : endMarker = ['<', '!', '-', '-', ' ', 'E', 'N', 'D', ' ', 'M', 'A', 'R', 'B',
    'L', 'E',
    'S', ' ', 'I', 'N', 'T', 'E', 'G', 'R', 'A', 'T', 'I', 'O', 'N', ' ', '-', '-', '>'] :=
  String.toList_ofList

/-- What the two markers have in common. -/
structure IsMarker (marker : Text) : Prop where
  cons : ∃ rest, marker = '<' :: rest
  once : '<' ∉ marker.tail
  bang : '!' ∈ marker
  lower : 'v' ∉ marker ∧ 'p' ∉ marker ∧ '\n' ∉ marker
  close : '>' ∉ marker.dropLast
  last : ∀ ch ∈ marker.getLast?, isWhitespace ch = false
  border : ∀ start ∈ beginPrefix.tails, start ≠ [] → start <+: marker → start = marker

theorem isMarker_begin : IsMarker beginPrefix := by
  rw [beginPrefix_eq]
  refine ⟨⟨_, rfl⟩, ?_, ?_, ?_, ?_, ?_, ?_⟩
  · decide
  · decide
  · decide
  · decide
  · intro ch hlast
    obtain rfl : 'S' = ch := Option.some.inj hlast
    decide
  · rw [beginPrefix_eq]
    decide

theorem isMarker_end : IsMarker endMarker := by
  rw [endMarker_eq]
  refine ⟨⟨_, rfl⟩, ?_, ?_, ?_, ?_, ?_, ?_⟩
  · decide
  · decide
  · decide
  · decide
  · intro ch hlast
    obtain rfl : '>' = ch := Option.some.inj hlast
    decide
  · rw [beginPrefix_eq]
    decide

namespace IsMarker

variable {marker a b : Text}

theorem ne_nil (h : IsMarker marker) : marker ≠ [] := by
  obtain ⟨rest, rfl⟩ := h.cons
  exact List.cons_ne_nil _ _

/-- A text that starts like a marker is a boundary. -/
theorem before_bracket (h : IsMarker marker) : NoStraddle marker a ('<' :: b) := .of_head h.once

theorem before_marker {other : Text} (h : IsMarker marker) (hother : IsMarker other) :
    NoStraddle marker a (other ++ b) := by
  obtain ⟨rest, rfl⟩ := hother.cons
  exact h.before_bracket

theorem after_begin (h : IsMarker marker) : NoStraddle marker beginPrefix b := .of_border h.border

theorem after_end (h : IsMarker marker) : NoStraddle marker endMarker b := by
  have hsplit : endMarker = endMarker.dropLast ++ ['>'] := by
    rw [endMarker_eq]
    rfl
  rw [hsplit]
  exact .of_last h.close

/-- Whitespace does not complete a marker. -/
theorem before_blank (h : IsMarker marker) (hblank : ∀ ch ∈ b, isWhitespace ch = true) :
    NoStraddle marker a b := by
  intro start rest hmarker _ hrest _ hstarts
  obtain ⟨init, ch, rfl⟩ := (List.eq_nil_or_concat rest).resolve_left hrest
  have hlast : ch ∈ marker.getLast? := by
    rw [hmarker]
    simp
  have hwhite := hblank ch (hstarts.subset (by simp))
  rw [h.last ch hlast] at hwhite
  cases hwhite

theorem count_of_bang (h : IsMarker marker) (hbang : '!' ∉ b) : count marker b = 0 :=
  Marker.count_eq_zero_of_not_mem h.bang hbang

end IsMarker

theorem count_begin_self : count beginPrefix beginPrefix = 1 ∧ count endMarker beginPrefix = 0 := by
  rw [beginPrefix_eq, endMarker_eq]
  decide

theorem count_end_self : count beginPrefix endMarker = 0 ∧ count endMarker endMarker = 1 := by
  rw [beginPrefix_eq, endMarker_eq]
  decide

/-! ### The block -/

theorem not_mem_ofList {ch : Char} {s : List Char} (h : ch ∉ s) :
    ch ∉ (String.ofList s).toList := by
  rw [String.toList_ofList]
  exact h

theorem common_bang : ∀ line ∈ common, '!' ∉ line.toList := by
  simp only [common, List.forall_mem_cons]
  and_intros
  all_goals first | exact not_mem_ofList (by decide +kernel) | exact nofun

theorem hygiene_bang (profile : Profile) : ∀ line ∈ hygiene profile, '!' ∉ line.toList := by
  cases profile <;> simp only [hygiene, List.forall_mem_cons] <;> and_intros
  all_goals first | exact not_mem_ofList (by decide +kernel) | exact nofun

theorem body_bang (profile : Profile) : '!' ∉ (body profile).toList := by
  rw [body, String.toList_join, List.mem_flatMap]
  rintro ⟨line, hline, hbang⟩
  rcases List.mem_append.mp hline with hline | hline
  · rcases List.mem_append.mp hline with hline | hline
    · exact common_bang line hline hbang
    · rw [List.mem_singleton.mp hline] at hbang
      exact not_mem_ofList (by decide) hbang
  · exact hygiene_bang profile line hline hbang

theorem bodyHash_bang (c : Crypto) (profile : Profile) : '!' ∉ (bodyHash c profile).toList := by
  rw [bodyHash, Signing.hex, String.toList_ofList, List.mem_flatMap]
  rintro ⟨byte, -, hbang⟩
  have hdigit : ∀ n < 16, Nat.digitChar n ≠ '!' := by decide
  simp only [Signing.hexDigits, List.mem_cons, List.not_mem_nil, or_false] at hbang
  have hbyte := byte.toNat_lt
  rcases hbang with hbang | hbang
  · exact hdigit (byte.toNat / 16) (by omega) hbang.symm
  · exact hdigit (byte.toNat % 16) (by omega) hbang.symm

/-- What follows the version, up to the end marker. -/
def rest (c : Crypto) (profile : Profile) : Text :=
  " profile:".toList ++ (profile.asStr.toList ++ (" hash:".toList ++ ((bodyHash c profile).toList ++
    (" -->\n\n".toList ++ ((body profile).toList ++ "\n".toList)))))

/-- From the begin marker of a block to its end marker. -/
def lead (c : Crypto) (profile : Profile) (version : Text) : Text :=
  " integration v".toList ++ (version ++ rest c profile)

theorem render_append (c : Crypto) (profile : Profile) (version q : Text) :
    render c profile version ++ q =
      beginPrefix ++ (lead c profile version ++ (endMarker ++ '\n' :: q)) := by
  have hnewline : "\n".toList = ['\n'] := String.toList_ofList
  have hq : '\n' :: q = "\n".toList ++ q := by
    rw [hnewline]
    rfl
  rw [hq]
  -- the equations of the definitions would evaluate the literals
  delta render lead rest
  simp only [List.append_assoc]

theorem asStr_bang (profile : Profile) : '!' ∉ profile.asStr.toList := by
  cases profile
  · exact not_mem_ofList (by decide +kernel)
  · exact not_mem_ofList (by decide +kernel)

theorem rest_bang (c : Crypto) (profile : Profile) : '!' ∉ rest c profile := by
  have hprofile : '!' ∉ " profile:".toList := not_mem_ofList (by decide +kernel)
  have hhash : '!' ∉ " hash:".toList := not_mem_ofList (by decide +kernel)
  have hclose : '!' ∉ " -->\n\n".toList := not_mem_ofList (by decide +kernel)
  have hnewline : '!' ∉ "\n".toList := not_mem_ofList (by decide +kernel)
  intro hbang
  rcases List.mem_append.mp hbang with hbang | hbang
  · exact hprofile hbang
  rcases List.mem_append.mp hbang with hbang | hbang
  · exact asStr_bang profile hbang
  rcases List.mem_append.mp hbang with hbang | hbang
  · exact hhash hbang
  rcases List.mem_append.mp hbang with hbang | hbang
  · exact bodyHash_bang c profile hbang
  rcases List.mem_append.mp hbang with hbang | hbang
  · exact hclose hbang
  rcases List.mem_append.mp hbang with hbang | hbang
  · exact body_bang profile hbang
  · exact hnewline hbang

/-- The block has no markers besides its own but those of the version. -/
theorem count_lead {marker : Text} (h : IsMarker marker) (c : Crypto) (profile : Profile)
    (version : Text) : count marker (lead c profile version) = count marker version := by
  have hlabel : " integration v".toList = " integration ".toList ++ ['v'] := by
    rw [← String.toList_ofList (l := ['v']), ← String.toList_append]
    rfl
  have hfirst : '!' ∉ " integration v".toList := not_mem_ofList (by decide +kernel)
  have hstart : NoStraddle marker " integration v".toList (version ++ rest c profile) := by
    rw [hlabel]
    exact .of_last fun hmem => h.lower.1 (List.mem_of_mem_dropLast hmem)
  have hend : NoStraddle marker version (rest c profile) := by
    have hprofile : " profile:".toList = ' ' :: 'p' :: ['r', 'o', 'f', 'i', 'l', 'e', ':'] :=
      String.toList_ofList
    delta rest
    rw [hprofile]
    refine .of_second (fun hlast => ?_) h.lower.2.1
    exact absurd (h.last ' ' hlast) (by decide)
  delta lead
  rw [Marker.count_append h.ne_nil hstart, h.count_of_bang hfirst, Nat.zero_add,
    Marker.count_append h.ne_nil hend, h.count_of_bang (rest_bang c profile), Nat.add_zero]

/-! ### Texts without markers -/

section Counts

variable {marker p q inside t : Text} {c : Crypto} {profile : Profile} {version : Text}

/-- Both markers are counted part by part at the boundaries of a region. -/
theorem count_region (h : IsMarker marker) : count marker (p ++ (beginPrefix ++ t)) =
    count marker p + count marker beginPrefix + count marker t := by
  rw [Marker.count_append h.ne_nil (h.before_marker isMarker_begin),
    Marker.count_append h.ne_nil h.after_begin, Nat.add_assoc]

theorem count_closed (h : IsMarker marker) : count marker (inside ++ (endMarker ++ q)) =
    count marker inside + count marker endMarker + count marker q := by
  rw [Marker.count_append h.ne_nil (h.before_marker isMarker_end),
    Marker.count_append h.ne_nil h.after_end, Nat.add_assoc]

theorem count_newline (h : IsMarker marker) : count marker ('\n' :: q) = count marker q := by
  have hnot : ¬ marker <+: '\n' :: q := by
    obtain ⟨rest, rfl⟩ := h.cons
    intro hstarts
    exact absurd (List.cons_prefix_cons.mp hstarts).1 (by decide)
  rw [Marker.count, if_neg hnot, Nat.zero_add]

theorem count_skipNewline (h : IsMarker marker) :
    count marker (skipNewline q) = count marker q := by
  unfold skipNewline
  split
  · rw [count_newline h]
  · rfl

theorem count_blank (h : IsMarker marker) (hblank : ∀ ch ∈ q, isWhitespace ch = true) :
    count marker (p ++ q) = count marker p := by
  have hbang : '!' ∉ q := fun hmem => absurd (hblank '!' hmem) (by decide)
  rw [Marker.count_append h.ne_nil (h.before_blank hblank), h.count_of_bang hbang, Nat.add_zero]

theorem trimEnd_append (s : Text) : trimEnd s ++ s.rtakeWhile isWhitespace = s :=
  List.rdropWhile_append_rtakeWhile

theorem count_trimEnd (h : IsMarker marker) (s : Text) :
    count marker (trimEnd s) = count marker s := by
  have hblank := count_blank h (p := trimEnd s) fun ch => List.mem_rtakeWhile_imp
    (p := isWhitespace) (l := s) (x := ch)
  rw [trimEnd_append] at hblank
  exact hblank.symm

/-- What a call appends the block to. -/
def glue (s : Text) : Text := if trimEnd s ≠ [] then trimEnd s ++ ['\n', '\n'] else trimEnd s

theorem count_glue (h : IsMarker marker) (s : Text) : count marker (glue s) = count marker s := by
  unfold glue
  split
  · have hlines : ∀ ch ∈ ['\n', '\n'], isWhitespace ch = true :=
      List.forall_mem_cons.mpr ⟨by decide, List.forall_mem_singleton.mpr (by decide)⟩
    rw [count_blank h hlines, count_trimEnd h]
  next hempty =>
      rw [← count_trimEnd h s, not_not.mp hempty]

/-- A block adds one of each marker, and those of its version. -/
theorem count_render (h : IsMarker marker) :
    count marker (p ++ (render c profile version ++ q)) =
      count marker p + (count marker beginPrefix + count marker endMarker) +
        count marker version + count marker q := by
  rw [render_append, count_region h, count_closed h, count_lead h, count_newline h]
  omega

end Counts

/-! ### One call -/

section Calls

variable {c : Crypto} {p inside q s t : Text} {profile : Profile} {version : Text}

theorem drop_newline (s : Text) (stop : Nat) :
    s.drop (if (s.drop stop).head? = some '\n' then stop + 1 else stop) =
      skipNewline (s.drop stop) := by
  split
  next hhead =>
      obtain ⟨t, ht⟩ := List.head?_eq_some_iff.mp hhead
      rw [← List.drop_drop, ht]
      rfl
  next hhead =>
      unfold skipNewline
      split
      next t ht =>
          rw [ht] at hhead
          exact absurd rfl hhead
      · rfl

theorem find_begin (hp : Plain p) :
    find beginPrefix (p ++ (beginPrefix ++ t)) = some p.length := by
  rw [Marker.find_append isMarker_begin.ne_nil (isMarker_begin.before_marker isMarker_begin)
    hp.noBegin, Marker.find_self isMarker_begin.ne_nil, Option.map_some, Nat.zero_add]

theorem find_end (hp : Plain p) (hinside : count endMarker inside = 0) :
    find endMarker (p ++ (beginPrefix ++ (inside ++ (endMarker ++ q)))) =
      some (p ++ beginPrefix ++ inside).length := by
  rw [Marker.find_append isMarker_end.ne_nil (isMarker_end.before_marker isMarker_begin) hp.noEnd,
    Marker.find_append isMarker_end.ne_nil isMarker_end.after_begin count_begin_self.2,
    Marker.find_append isMarker_end.ne_nil (isMarker_end.before_marker isMarker_end) hinside,
    Marker.find_self isMarker_end.ne_nil]
  simp only [Option.map_some, List.length_append]
  congr 1
  omega

theorem drop_region (p inside q : Text) : (p ++ (beginPrefix ++ (inside ++ (endMarker ++ q)))).drop
    ((p ++ beginPrefix ++ inside).length + endMarker.length) = q := by
  have hsplit : p ++ (beginPrefix ++ (inside ++ (endMarker ++ q))) =
      (p ++ beginPrefix ++ inside ++ endMarker) ++ q := by
    simp only [List.append_assoc]
  rw [hsplit, ← List.length_append]
  exact List.drop_left

/-- A region is replaced, with the line break after it; what is around it stays. -/
theorem apply_region (hp : Plain p) (hinside : count endMarker inside = 0) :
    apply c (p ++ (beginPrefix ++ (inside ++ (endMarker ++ q)))) profile version =
      p ++ (render c profile version ++ skipNewline q) := by
  delta apply
  simp only [find_begin hp, find_end hp hinside]
  rw [drop_newline, List.take_left, drop_region]
  exact List.append_assoc ..

/-- A region is taken out, without the line break after it. -/
theorem strip_region (hp : Plain p) (hinside : count endMarker inside = 0) :
    strip (p ++ (beginPrefix ++ (inside ++ (endMarker ++ q)))) =
      some (trimEnd (p ++ q) ++ "\n".toList) := by
  delta strip
  simp only [find_begin hp, find_end hp hinside]
  rw [Option.bind_eq_bind, Option.bind_some, Option.bind_some, List.take_left, drop_region]

theorem apply_append (h : count beginPrefix s = 0 ∨ count endMarker s = 0) :
    apply c s profile version = glue s ++ (render c profile version ++ []) := by
  have hlines : "\n\n".toList = ['\n', '\n'] := String.toList_ofList
  rw [List.append_nil, glue, ← hlines]
  delta apply
  rcases h with h | h
  · simp only [Marker.find_eq_none.mpr h]
  · simp only [Marker.find_eq_none.mpr h]
    cases find beginPrefix s with
    | none => rfl
    | some start => rfl

/-- After the begin marker of a region each call leaves the end markers, besides those it brings. -/
theorem apply_open (hp : Plain p) (ht : 0 < count endMarker t) :
    ∃ t', apply c (p ++ (beginPrefix ++ t)) profile version = p ++ (beginPrefix ++ t') ∧
      count endMarker t' = count endMarker t + count endMarker version := by
  obtain ⟨inside, q, rfl, hinside⟩ := Marker.exists_first ht
  rw [List.append_assoc]
  refine ⟨lead c profile version ++ (endMarker ++ '\n' :: skipNewline q), ?_, ?_⟩
  · rw [apply_region hp hinside, render_append]
  · rw [count_closed isMarker_end, count_closed isMarker_end, count_lead isMarker_end,
      count_newline isMarker_end, count_skipNewline isMarker_end]
    omega

end Calls

/-! ### Many calls -/

section Runs

variable {c : Crypto} {original p inside q s t : Text} {calls : List (Profile × Text)}
  {last : Profile × Text}

/-- However often it is called, no end marker goes. -/
theorem applyAll_open (hp : Plain p) (ht : 0 < count endMarker t) :
    count endMarker (applyAll c calls (p ++ (beginPrefix ++ t))) =
      count endMarker t + (calls.map fun call => count endMarker call.2).sum := by
  induction calls generalizing t with
  | nil =>
      rw [applyAll, List.foldl_nil, count_region isMarker_end, hp.noEnd, count_begin_self.2]
      simp
  | cons call calls ih =>
      obtain ⟨t', happly, hcount⟩ := apply_open hp ht
      have hrest := ih (t := t') (by omega)
      rw [applyAll, List.foldl_cons, happly]
      rw [applyAll] at hrest
      rw [hrest, hcount, List.map_cons, List.sum_cons, Nat.add_assoc]

/-- A region with no end marker in its versions stays the one region. -/
theorem applyAll_region (hp : Plain p) (hinside : count endMarker inside = 0)
    (hcalls : ∀ call ∈ calls, count endMarker call.2 = 0) :
    applyAll c (calls ++ [last]) (p ++ (beginPrefix ++ (inside ++ (endMarker ++ q)))) =
      p ++ (render c last.1 last.2 ++ skipNewline q) := by
  induction calls generalizing inside q with
  | nil => exact apply_region hp hinside
  | cons call calls ih =>
      obtain ⟨hcall, hcalls⟩ := List.forall_mem_cons.mp hcalls
      have hlead : count endMarker (lead c call.1 call.2) = 0 := by
        rw [count_lead isMarker_end, hcall]
      have hnext := ih (q := '\n' :: skipNewline q) hlead hcalls
      rw [← render_append] at hnext
      rw [List.cons_append, applyAll, List.foldl_cons, apply_region hp hinside]
      exact hnext

end Runs

/-! ### The parts outside -/

section Parts

variable {c : Crypto} {p inside q s t region : Text} {parts texts : List Text}

theorem Plain.of_infix (h : Plain t) (hwithin : s <:+: t) : Plain s :=
  ⟨Nat.eq_zero_of_le_zero (h.noBegin ▸ Marker.count_le_of_infix hwithin),
    Nat.eq_zero_of_le_zero (h.noEnd ▸ Marker.count_le_of_infix hwithin)⟩

@[simp] theorem Plain.trimEnd_iff : Plain (trimEnd s) ↔ Plain s := by
  constructor
  · intro h
    exact ⟨count_trimEnd isMarker_begin s ▸ h.noBegin, count_trimEnd isMarker_end s ▸ h.noEnd⟩
  · intro h
    exact ⟨(count_trimEnd isMarker_begin s).trans h.noBegin,
      (count_trimEnd isMarker_end s).trans h.noEnd⟩

@[simp] theorem Plain.skipNewline_iff : Plain (skipNewline s) ↔ Plain s := by
  constructor
  · intro h
    exact ⟨count_skipNewline isMarker_begin (q := s) ▸ h.noBegin,
      count_skipNewline isMarker_end (q := s) ▸ h.noEnd⟩
  · intro h
    exact ⟨(count_skipNewline isMarker_begin).trans h.noBegin,
      (count_skipNewline isMarker_end).trans h.noEnd⟩

theorem WellFormed.end_pos (h : WellFormed region) : 0 < count endMarker region := by
  obtain ⟨inside, -, rfl⟩ := h
  have hwithin : endMarker <:+: beginPrefix ++ inside ++ endMarker :=
    (List.suffix_append ..).isInfix
  have hle : count endMarker endMarker ≤ count endMarker (beginPrefix ++ inside ++ endMarker) :=
    Marker.count_le_of_infix hwithin
  rw [count_end_self.2] at hle
  exact hle

theorem noRegion_of_noEnd (h : count endMarker s = 0) : NoRegion s := by
  intro region hregion hwithin
  have hle : count endMarker region ≤ count endMarker s := Marker.count_le_of_infix hwithin
  have hpos := hregion.end_pos
  omega

theorem WellFormed.length_pos (h : WellFormed region) : 0 < region.length := by
  refine List.length_pos_of_ne_nil ?_
  rintro rfl
  exact absurd h.end_pos (Nat.lt_irrefl 0)

theorem length_skipNewline_le (s : Text) : (skipNewline s).length ≤ s.length := by
  unfold skipNewline
  split
  · exact Nat.le_succ _
  · exact Nat.le_refl _

/-- Each text has parts. The first region is the one with the least in front of it. -/
theorem exists_outside (s : Text) : ∃ parts, Outside s parts := by
  classical
  induction hn : s.length using Nat.strong_induction_on generalizing s with
  | _ n ih =>
      by_cases hnone : NoRegion s
      · exact ⟨[s], .whole hnone⟩
      · have hsome : ∃ k before region after, before.length = k ∧ WellFormed region ∧
            s = before ++ region ++ after := by
          unfold NoRegion at hnone
          push Not at hnone
          obtain ⟨region, hregion, before, after, hs⟩ := hnone
          exact ⟨_, before, region, after, rfl, hregion, hs.symm⟩
        obtain ⟨before, region, after, hlength, hregion, hs⟩ := Nat.find_spec hsome
        have hbefore : NoRegion before := by
          rintro region' hregion' ⟨x, y, hx⟩
          refine Nat.find_min hsome (m := x.length) ?_
            ⟨x, region', y ++ region ++ after, rfl, hregion', ?_⟩
          · rw [← hlength, ← hx, List.length_append, List.length_append]
            have hpos := hregion'.length_pos
            omega
          · rw [hs, ← hx]
            simp only [List.append_assoc]
        have hshort : (skipNewline after).length < n := by
          have hle := length_skipNewline_le after
          have hpos := hregion.length_pos
          rw [← hn, hs, List.length_append, List.length_append]
          omega
        obtain ⟨parts, hparts⟩ := ih _ hshort (skipNewline after) rfl
        rw [hs]
        exact ⟨before :: parts, .around hbefore hregion hparts⟩

theorem Outside.of_noEnd (hs : count endMarker s = 0) (h : Outside s parts) : parts = [s] := by
  cases h with
  | whole => rfl
  | around _ hregion _ =>
      have hwithin := noRegion_of_noEnd hs _ hregion
      exact absurd ⟨_, _, rfl⟩ hwithin

/-- Around a region that is the only one there are two parts. -/
theorem Outside.of_region (hp : Plain p) (hinside : Plain inside) (hq : Plain q)
    (h : Outside (p ++ (beginPrefix ++ (inside ++ (endMarker ++ q)))) parts) :
    parts = [p, skipNewline q] := by
  generalize hs : p ++ (beginPrefix ++ (inside ++ (endMarker ++ q))) = s at h
  cases h with
  | whole hnone =>
      refine absurd ?_ (hnone (beginPrefix ++ inside ++ endMarker) ⟨inside, hinside, rfl⟩)
      exact ⟨p, q, by rw [← hs]; simp only [List.append_assoc]⟩
  | @around before _ after parts hbefore hregion hafter =>
      obtain ⟨inside', hinside', rfl⟩ := hregion
      have hsame : before ++ (beginPrefix ++ (inside' ++ (endMarker ++ after))) =
          p ++ (beginPrefix ++ (inside ++ (endMarker ++ q))) := by
        rw [hs]
        simp only [List.append_assoc]
      have hcount := congrArg (count beginPrefix) hsame
      rw [count_region isMarker_begin, count_region isMarker_begin, count_closed isMarker_begin,
        count_closed isMarker_begin, hp.noBegin, hinside.noBegin, hinside'.noBegin,
        hq.noBegin] at hcount
      obtain ⟨rfl, hopen⟩ := Marker.split_inj isMarker_begin.ne_nil
        (fun _ _ => isMarker_begin.before_marker isMarker_begin) (by omega) hp.noBegin hsame
      obtain ⟨-, rfl⟩ := Marker.split_inj isMarker_end.ne_nil
        (fun _ _ => isMarker_end.before_marker isMarker_end) hinside'.noEnd hinside.noEnd hopen
      rw [hafter.of_noEnd (Plain.skipNewline_iff.mpr hq).noEnd]

/-- What is found in texts without markers has none. -/
theorem Survive.plain (h : Survive parts texts) (htexts : ∀ text ∈ texts, Plain text) :
    ∀ part ∈ parts, Plain part := by
  induction h with
  | nil => exact nofun
  | @here part before after parts texts _ ih =>
      obtain ⟨htext, htexts⟩ := List.forall_mem_cons.mp htexts
      refine List.forall_mem_cons.mpr ⟨?_, ih (List.forall_mem_cons.mpr ⟨?_, htexts⟩)⟩
      · exact Plain.trimEnd_iff.mp (htext.of_infix ⟨before, after, rfl⟩)
      · exact htext.of_infix (List.suffix_append ..).isInfix
  | later _ ih => exact ih (List.forall_mem_cons.mp htexts).2

end Parts

/-! ### The managed block -/

section Managing

variable {c : Crypto} {original result p q s : Text} {calls : List (Profile × Text)}
  {last : Profile × Text} {parts : List Text}

theorem glue_eq (s : Text) : ∃ after, glue s = [] ++ trimEnd s ++ after := by
  unfold glue
  split
  · exact ⟨['\n', '\n'], rfl⟩
  · exact ⟨[], (List.append_nil _).symm⟩

theorem Plain.glue (h : Plain s) : Plain (glue s) :=
  ⟨(count_glue isMarker_begin s).trans h.noBegin, (count_glue isMarker_end s).trans h.noEnd⟩

theorem survive_whole (s : Text) : Survive [s] [Setup.glue s, []] := by
  obtain ⟨after, hglue⟩ := glue_eq s
  rw [hglue]
  exact .here .nil

theorem survive_around (p q : Text) : Survive [p, q] [p, q] := by
  have hpart : ∀ s : Text, s = [] ++ trimEnd s ++ s.rtakeWhile isWhitespace :=
    fun s => (trimEnd_append s).symm
  have hq : Survive [q] [p.rtakeWhile isWhitespace, q] := by
    refine .later ?_
    nth_rewrite 2 [hpart q]
    exact .here .nil
  nth_rewrite 2 [hpart p]
  exact .here hq

/-- A block between texts without markers is managed. -/
theorem managed_of (hp : Plain p) (hq : Plain q) (hlast : Plain last.2)
    (hresult : result = p ++ (render c last.1 last.2 ++ q))
    (hparts : ∀ parts, Outside original parts → Survive parts [p, q]) :
    Managed c original result last where
  block := ⟨p, q, hresult.trans (List.append_assoc ..).symm, hparts⟩
  oneBegin := by
    rw [hresult, count_render isMarker_begin, hp.noBegin, hq.noBegin, hlast.noBegin,
      count_begin_self.1, count_end_self.1]
  oneEnd := by
    rw [hresult, count_render isMarker_end, hp.noEnd, hq.noEnd, hlast.noEnd, count_begin_self.2,
      count_end_self.2]
  again := by
    have hlead : count endMarker (lead c last.1 last.2) = 0 :=
      (count_lead isMarker_end ..).trans hlast.noEnd
    have hagain : apply c (p ++ (beginPrefix ++ (lead c last.1 last.2 ++ (endMarker ++ '\n' :: q))))
        last.1 last.2 = p ++ (render c last.1 last.2 ++ q) := apply_region hp hlead
    rw [← render_append, ← hresult] at hagain
    rw [hagain, hresult]

/-- Managed content has no markers besides those of its block. -/
theorem Managed.plain (h : Managed c original result last) :
    Plain last.2 ∧ ∀ parts, Outside original parts → ∀ part ∈ parts, Plain part := by
  obtain ⟨before, after, hresult, hparts⟩ := h.block
  have hbegin := h.oneBegin
  have hend := h.oneEnd
  rw [hresult, List.append_assoc, count_render isMarker_begin, count_begin_self.1,
    count_end_self.1] at hbegin
  rw [hresult, List.append_assoc, count_render isMarker_end, count_begin_self.2,
    count_end_self.2] at hend
  have hbefore : Plain before := ⟨by omega, by omega⟩
  have hafter : Plain after := ⟨by omega, by omega⟩
  refine ⟨⟨by omega, by omega⟩, fun parts houtside => (hparts parts houtside).plain ?_⟩
  rw [List.forall_mem_cons, List.forall_mem_singleton]
  exact ⟨hbefore, hafter⟩

/-- From a text without markers the runs are those from its first block. -/
theorem applyAll_plain (hs : Plain s) (hcalls : ∀ call ∈ calls, count endMarker call.2 = 0) :
    applyAll c (calls ++ [last]) s = Setup.glue s ++ (render c last.1 last.2 ++ []) := by
  cases calls with
  | nil => exact apply_append (.inl hs.noBegin)
  | cons call calls =>
      obtain ⟨hcall, hcalls⟩ := List.forall_mem_cons.mp hcalls
      have hlead : count endMarker (lead c call.1 call.2) = 0 :=
        (count_lead isMarker_end ..).trans hcall
      have hrun : applyAll c (calls ++ [last]) (Setup.glue s ++ (beginPrefix ++
          (lead c call.1 call.2 ++ (endMarker ++ ['\n'])))) =
            Setup.glue s ++ (render c last.1 last.2 ++ []) := applyAll_region hs.glue hlead hcalls
      rw [List.cons_append, applyAll, List.foldl_cons, apply_append (.inl hs.noBegin),
        render_append]
      exact hrun

theorem count_applyAll (hs : Plain s) (hcalls : calls ≠ []) :
    count endMarker (applyAll c calls s) = 1 +
    (calls.map fun call => count endMarker call.2).sum := by
  obtain ⟨call, calls, rfl⟩ := List.exists_cons_of_ne_nil hcalls
  have hopen : count endMarker (lead c call.1 call.2 ++ (endMarker ++ ['\n'])) = count endMarker
      call.2 + 1 := by
    rw [count_closed isMarker_end, count_lead isMarker_end, count_newline isMarker_end,
      count_end_self.2]
    rfl
  have hrun : count endMarker (applyAll c calls (Setup.glue s ++ (beginPrefix ++
      (lead c call.1 call.2 ++ (endMarker ++ ['\n']))))) =
        count endMarker (lead c call.1 call.2 ++ (endMarker ++ ['\n'])) +
          (calls.map fun call => count endMarker call.2).sum := applyAll_open hs.glue (by omega)
  rw [applyAll, List.foldl_cons, apply_append (.inl hs.noBegin), render_append]
  rw [applyAll] at hrun
  rw [hrun, hopen, List.map_cons, List.sum_cons]
  omega

/-- A stray begin marker makes the second call take all text after it for the block. -/
theorem apply_unterminated {first : Profile × Text} (hp : Plain p) (hq : count endMarker q = 0)
    (hfirst : count endMarker first.2 = 0) :
    applyAll c [first, last] (p ++ (beginPrefix ++ q)) = p ++ render c last.1 last.2 := by
  generalize hs : p ++ (beginPrefix ++ q) = s
  have hnoEnd : count endMarker s = 0 := by
    rw [← hs, count_region isMarker_end, hp.noEnd, count_begin_self.2, hq]
  have hbegin : 0 < count beginPrefix (trimEnd s) := by
    rw [count_trimEnd isMarker_begin, ← hs, count_region isMarker_begin, count_begin_self.1]
    omega
  -- The open BEGIN is the first one, also after the second call's block has been glued behind it.
  obtain ⟨before, after, htrim, hbefore⟩ := Marker.exists_first hbegin
  have hwhole : before ++ (beginPrefix ++ (after ++ s.rtakeWhile isWhitespace)) =
      p ++ (beginPrefix ++ q) := by
    have hends := trimEnd_append s
    rw [htrim] at hends
    simp only [List.append_assoc] at hends
    exact hends.trans hs.symm
  obtain ⟨rfl, -⟩ := Marker.split_inj isMarker_begin.ne_nil
    (fun _ _ => isMarker_begin.before_marker isMarker_begin) hbefore hp.noBegin hwhole
  obtain ⟨lines, hglue⟩ := glue_eq s
  have hopen : Setup.glue s = before ++ (beginPrefix ++ (after ++ lines)) := by
    rw [hglue, htrim]
    simp only [List.nil_append, List.append_assoc]
  have hafter : count endMarker (after ++ lines) = 0 := by
    have hcount := count_glue isMarker_end s
    rw [hopen, count_region isMarker_end] at hcount
    omega
  have hinside :
      count endMarker (after ++ lines ++ (beginPrefix ++ lead c first.1 first.2)) = 0 := by
    rw [count_region isMarker_end, hafter, count_begin_self.2, count_lead isMarker_end, hfirst]
  have hsecond : apply c (before ++ (beginPrefix ++ (after ++ lines ++
      (beginPrefix ++ lead c first.1 first.2) ++ (endMarker ++ ['\n'])))) last.1 last.2 =
        before ++ (render c last.1 last.2 ++ []) := apply_region hp hinside
  simp only [List.append_assoc] at hsecond
  rw [applyAll, List.foldl_cons, apply_append (.inr hnoEnd), render_append, hopen]
  simp only [List.append_assoc]
  rw [List.foldl_cons, List.foldl_nil, hsecond]
  exact congrArg (before ++ ·) (List.append_nil _)

theorem not_managed_of_unterminated (hp : Plain p) (hq : count endMarker q = 0) :
    ¬ Managed c (p ++ (beginPrefix ++ q)) result last := by
  intro h
  have hnoEnd : count endMarker (p ++ (beginPrefix ++ q)) = 0 := by
    rw [count_region isMarker_end, hp.noEnd, count_begin_self.2, hq]
  have hplain := h.plain.2 [_] (.whole (noRegion_of_noEnd hnoEnd)) _ (List.mem_singleton_self _)
  have hbegin := hplain.noBegin
  rw [count_region isMarker_begin, count_begin_self.1] at hbegin
  omega

end Managing

/-- All text but that of the last block survives, once, exactly when the content has no markers
besides those of one region, no version has the end marker, and the last not the begin marker. The
markers are looked for independently of each other, so a stray one is taken for an end of the block.
-/
theorem applyAll_managed_iff (c : Crypto) (original : Text) (calls : List (Profile × Text))
    (last : Profile × Text) :
    Managed c original (applyAll c (calls ++ [last]) original) last ↔
      Clean original ∧ (∀ call ∈ calls ++ [last], count endMarker call.2 = 0) ∧
        count beginPrefix last.2 = 0 := by
  constructor
  -- The hand-written parts survive every call, so what they hold of markers is still there after
  -- the last one, next to the one block it wrote.
  · intro h
    obtain ⟨hlast, hparts⟩ := h.plain
    have hend := h.oneEnd
    have hsum (hzero : ((calls ++ [last]).map fun call => count endMarker call.2).sum = 0) :
        ∀ call ∈ calls ++ [last], count endMarker call.2 = 0 := fun call hcall =>
      List.sum_eq_zero_iff_forall_eq_nat.mp hzero _ (List.mem_map_of_mem hcall)
    obtain ⟨parts, houtside⟩ := exists_outside original
    have hplain := hparts parts houtside
    cases houtside with
    | whole _ =>
        have hs := hplain original (List.mem_singleton_self _)
        rw [count_applyAll hs (by simp)] at hend
        exact ⟨.inl hs, hsum (by omega), hlast.noBegin⟩
    | @around before region after parts hbefore hregion hafter =>
        obtain ⟨hp, hrest⟩ := List.forall_mem_cons.mp hplain
        obtain ⟨inside, hinside, rfl⟩ := id hregion
        have hs : before ++ (beginPrefix ++ inside ++ endMarker) ++ after =
            before ++ (beginPrefix ++ (inside ++ (endMarker ++ after))) := by
          simp only [List.append_assoc]
        have hclosed : count endMarker (inside ++ (endMarker ++ after)) =
            count endMarker inside + count endMarker endMarker + count endMarker after :=
              count_closed isMarker_end
        rw [hinside.noEnd, count_end_self.2] at hclosed
        rw [hs, applyAll_open hp (by omega)] at hend
        have hone : count endMarker (skipNewline after) = 0 := by
          rw [count_skipNewline isMarker_end]
          omega
        rw [hafter.of_noEnd hone, List.forall_mem_singleton, Plain.skipNewline_iff] at hrest
        exact ⟨.inr ⟨before, _, after, rfl, hp, hregion, hrest⟩, hsum (by omega), hlast.noBegin⟩
  -- Conversely a clean text has no block or one whole one, and each call replaces what the call
  -- before it wrote.
  · rintro ⟨hclean, hcalls, hbegin⟩
    have hlast : Plain last.2 := ⟨hbegin, hcalls last (by simp)⟩
    have hcalls : ∀ call ∈ calls, count endMarker call.2 = 0 :=
      fun call hcall => hcalls call (List.mem_append_left _ hcall)
    rcases hclean with hs | ⟨p, region, q, rfl, hp, ⟨inside, hinside, rfl⟩, hq⟩
    · refine managed_of hs.glue ⟨rfl, rfl⟩ hlast (applyAll_plain hs hcalls) ?_
      intro parts houtside
      rw [houtside.of_noEnd hs.noEnd]
      exact survive_whole original
    · have hs : p ++ (beginPrefix ++ inside ++ endMarker) ++ q =
          p ++ (beginPrefix ++ (inside ++ (endMarker ++ q))) := by
        simp only [List.append_assoc]
      rw [hs]
      refine managed_of hp (Plain.skipNewline_iff.mpr hq) hlast
        (applyAll_region hp hinside.noEnd hcalls) ?_
      intro parts houtside
      rw [houtside.of_region hp hinside hq]
      exact survive_around p (skipNewline q)

/-- Notes behind a begin marker without an end marker are gone after two calls. -/
theorem notes_eaten :
    applyAll .plain ([(.conservative, "1".toList)] ++ [(.conservative, "1".toList)])
        ("# Repo\n".toList ++ (beginPrefix ++ "\nkeep me\n".toList)) =
      "# Repo\n".toList ++ render .plain .conservative "1".toList ∧
    ¬ Managed .plain ("# Repo\n".toList ++ (beginPrefix ++ "\nkeep me\n".toList))
      (applyAll .plain ([(.conservative, "1".toList)] ++ [(.conservative, "1".toList)])
        ("# Repo\n".toList ++ (beginPrefix ++ "\nkeep me\n".toList)))
      (.conservative, "1".toList) := by
  have hversion : '!' ∉ "1".toList := not_mem_ofList (by decide +kernel)
  have hnotes : '!' ∉ "\nkeep me\n".toList := not_mem_ofList (by decide +kernel)
  have hrepo : '!' ∉ "# Repo\n".toList := not_mem_ofList (by decide +kernel)
  have hplain : Plain "# Repo\n".toList :=
    ⟨isMarker_begin.count_of_bang hrepo, isMarker_end.count_of_bang hrepo⟩
  exact ⟨apply_unterminated hplain (isMarker_end.count_of_bang hnotes)
    (isMarker_end.count_of_bang hversion),
      not_managed_of_unterminated hplain (isMarker_end.count_of_bang hnotes)⟩

end Marbles.Setup
