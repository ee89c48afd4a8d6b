import Marbles.Lib.Lines
import Marbles.Lib.Numeral
import Mathlib.Data.List.Nodup
import Mathlib.Data.List.Pairwise

/-!
# The text format of measurements

A measurement is published as a line of its name, its labels and its value. The values of the
labels are any texts, so a backslash, a quote and a newline are escaped in them. A line that starts
with `#` is a comment.

`Reading` reads a line character by character. `scrape_text` reads back what was written, and
`scrape_eq_none` is what an unescaped newline does.

The reader is written for the general format, and knows nothing of the writer. A quote ends a
value unless it is escaped, and a newline ends the line; that the writer escapes both is used at
one place.
-/

namespace Exposition

/-- One measurement. -/
structure Sample where
  name : String
  labels : List (String × String)
  value : Int
  deriving DecidableEq, Repr

/-- What names a series: its values are told apart by the time only. -/
def Sample.series (s : Sample) : String × List (String × String) := (s.name, s.labels)

/-! ### Writing -/

def escapeChar : Char → List Char
  | '\\' => ['\\', '\\']
  | '\n' => ['\\', 'n']
  | '"' => ['\\', '"']
  | c => [c]

/-- The value of a label between its quotes. -/
def escape (value : List Char) : List Char := value.flatMap escapeChar

def labelChars (l : String × String) : List Char :=
  l.1.toList ++ '=' :: '"' :: (escape l.2.toList ++ ['"'])

def labelsChars (labels : List (String × String)) : List Char :=
  List.intercalate [','] (labels.map labelChars)

/-- The line of a sample, without its end. -/
def line (s : Sample) : String :=
  String.ofList (s.name.toList ++ '\x7b' :: (labelsChars s.labels ++
    '\x7d' :: ' ' :: (toString s.value).toList))

/-- The samples of one measurement, under its names. -/
structure Family where
  names : List String
  samples : List Sample
  named : ∀ s ∈ samples, s.name ∈ names

/-! ### Reading -/

/-- A character of a name. -/
def isNameChar (c : Char) : Bool := c.isAlphanum || c = '_' || c = ':'

/-- How far a line has been read: the name, the labels so far, and the one in hand. A reader of one
character at a time, so that what it accepts can be proved along the text. -/
inductive Reading where
  | name (name : List Char)
  | label (name : List Char) (labels : List (String × String)) (label : List Char)
  | quote (name : List Char) (labels : List (String × String)) (label : List Char)
  | quoted (name : List Char) (labels : List (String × String)) (label value : List Char)
  | escaped (name : List Char) (labels : List (String × String)) (label value : List Char)
  | next (name : List Char) (labels : List (String × String))
  | blank (name : List Char) (labels : List (String × String))
  | value (name : List Char) (labels : List (String × String)) (value : List Char)
  deriving DecidableEq, Repr

namespace Reading

def step : Reading → Char → Option Reading
  | name n, c =>
      if c = '\x7b' then some (label n [] []) else if isNameChar c then some (name (n ++ [c]))
        else none
  | label n ls l, c =>
      if c = '=' then some (quote n ls l) else if isNameChar c then some (label n ls (l ++ [c]))
      else none
  | quote n ls l, c => if c = '"' then some (quoted n ls l []) else none
  | quoted n ls l v, c =>
      if c = '"' then some (next n (ls ++ [(String.ofList l, String.ofList v)]))
      else if c = '\\' then some (escaped n ls l v) else some (quoted n ls l (v ++ [c]))
  | escaped n ls l v, c =>
      if c = 'n' then some (quoted n ls l (v ++ ['\n']))
      else if c = '\\' ∨ c = '"' then some (quoted n ls l (v ++ [c])) else none
  | next n ls, c =>
      if c = ',' then some (label n ls []) else if c = '\x7d' then some (blank n ls) else none
  | blank n ls, c => if c = ' ' then some (value n ls []) else none
  | value n ls v, c => if Numeral.isNumeral c then some (value n ls (v ++ [c])) else none

/-- The rest of a line. -/
def run (r : Reading) (cs : List Char) : Option Reading := cs.foldlM step r

/-- A line ends in a value. -/
def finish : Reading → Option Sample
  | value n ls v => some ⟨String.ofList n, ls, Numeral.value v⟩
  | _ => none

end Reading

/-- The sample a line shows. -/
def readLine (line : String) : Option Sample :=
  (Reading.run (.name []) line.toList).bind Reading.finish

/-- Is there nothing to read in a line? -/
def isComment (line : String) : Bool := line.toList.head?.all (· = '#')

/-- The samples of a text, or none if a line is not one. -/
def scrape (text : String) : Option (List Sample) :=
  ((Lines.ofText text).filter fun line => !isComment line).mapM readLine

/-! ### What is written is read -/

/-- The names are names. -/
structure Sample.Named (s : Sample) : Prop where
  nonempty : s.name.toList ≠ []
  name : ∀ c ∈ s.name.toList, isNameChar c = true
  some : s.labels ≠ []
  labels : ∀ l ∈ s.labels, ∀ c ∈ l.1.toList, isNameChar c = true

namespace Reading

variable {n l v cs : List Char} {ls : List (String × String)} {r : Reading}

theorem run_append (r : Reading) (cs more : List Char) :
    r.run (cs ++ more) = (r.run cs).bind fun r => r.run more := List.foldlM_append ..

theorem run_cons (r : Reading) (c : Char) (cs : List Char) :
    r.run (c :: cs) = (r.step c).bind fun r => r.run cs := List.foldlM_cons ..

theorem run_name (h : ∀ c ∈ cs, isNameChar c = true) :
    (name n).run cs = some (name (n ++ cs)) := by
  induction cs generalizing n with
  | nil => rw [List.append_nil]; rfl
  | cons c cs ih =>
      obtain ⟨hc, hcs⟩ := List.forall_mem_cons.mp h
      have hopen : c ≠ '\x7b' := by
        rintro rfl
        exact absurd hc (by decide)
      rw [run_cons, step, if_neg hopen, if_pos hc]
      exact (ih hcs).trans (by rw [List.append_assoc]; rfl)

theorem run_label (h : ∀ c ∈ cs, isNameChar c = true) :
    (label n ls l).run cs = some (label n ls (l ++ cs)) := by
  induction cs generalizing l with
  | nil => rw [List.append_nil]; rfl
  | cons c cs ih =>
      obtain ⟨hc, hcs⟩ := List.forall_mem_cons.mp h
      have hequals : c ≠ '=' := by
        rintro rfl
        exact absurd hc (by decide)
      rw [run_cons, step, if_neg hequals, if_pos hc]
      exact (ih hcs).trans (by rw [List.append_assoc]; rfl)

/-- A character is read back from its escape. -/
theorem run_escapeChar (c : Char) :
    (quoted n ls l v).run (escapeChar c) = some (quoted n ls l (v ++ [c])) := by
  unfold escapeChar
  split
  · rfl
  · rfl
  · rfl
  · rename_i hback hnewline hquote
    change ((quoted n ls l v).step c).bind _ = _
    rw [step, if_neg fun h => hquote h, if_neg fun h => hback h]
    rfl

theorem run_escape : (quoted n ls l v).run (escape cs) = some (quoted n ls l (v ++ cs)) := by
  induction cs generalizing v with
  | nil => rw [List.append_nil]; rfl
  | cons c cs ih =>
      rw [escape, List.flatMap_cons, run_append, run_escapeChar]
      exact ih.trans (by rw [List.append_assoc]; rfl)

theorem run_labelChars {p : String × String} (h : ∀ c ∈ p.1.toList, isNameChar c = true) :
    (label n ls []).run (labelChars p) = some (next n (ls ++ [p])) := by
  rw [labelChars, run_append, run_label h]
  change ((quoted n ls p.1.toList []).run (escape p.2.toList ++ ['"'])) = _
  rw [run_append, run_escape]
  change some (next n (ls ++ [(String.ofList p.1.toList, String.ofList p.2.toList)])) = _
  rw [String.ofList_toList, String.ofList_toList]

theorem run_labelsChars {labels : List (String × String)} (hsome : labels ≠ [])
    (h : ∀ p ∈ labels, ∀ c ∈ p.1.toList, isNameChar c = true) :
    (label n ls []).run (labelsChars labels) = some (next n (ls ++ labels)) := by
  induction labels generalizing ls with
  | nil => exact absurd rfl hsome
  | cons p labels ih =>
      obtain ⟨hp, hlabels⟩ := List.forall_mem_cons.mp h
      cases labels with
      | nil =>
          rw [labelsChars, List.map_singleton, List.intercalate_singleton]
          exact run_labelChars hp
      | cons q labels =>
          have hcons : labelsChars (p :: q :: labels) =
              labelChars p ++ ',' :: labelsChars (q :: labels) := by
            simp [labelsChars, List.intercalate]
          rw [hcons, run_append, run_labelChars hp]
          change (label n (ls ++ [p]) []).run _ = _
          rw [ih (List.cons_ne_nil _ _) hlabels, List.append_assoc]
          rfl

theorem run_value (h : ∀ c ∈ cs, Numeral.isNumeral c = true) :
    (value n ls v).run cs = some (value n ls (v ++ cs)) := by
  induction cs generalizing v with
  | nil => rw [List.append_nil]; rfl
  | cons c cs ih =>
      obtain ⟨hc, hcs⟩ := List.forall_mem_cons.mp h
      rw [run_cons, step, if_pos hc]
      exact (ih hcs).trans (by rw [List.append_assoc]; rfl)

end Reading

/-- The line of a sample shows the sample. -/
theorem readLine_line {s : Sample} (h : s.Named) : readLine (line s) = some s := by
  rw [readLine, line, String.toList_ofList, Reading.run_append, Reading.run_name h.name]
  change ((Reading.label s.name.toList [] []).run _).bind _ = _
  rw [Reading.run_append, Reading.run_labelsChars h.some h.labels]
  change ((Reading.value s.name.toList s.labels []).run _).bind _ = _
  rw [Reading.run_value fun c hc => Numeral.isNumeral_of_mem hc]
  change some (⟨String.ofList s.name.toList, s.labels, Numeral.value (toString s.value).toList⟩ :
    Sample) = some s
  rw [String.ofList_toList, Numeral.value_toString]

/-! ### A text of lines -/

theorem isComment_line {s : Sample} (h : s.Named) : isComment (line s) = false := by
  obtain ⟨c, cs, hname⟩ := List.exists_cons_of_ne_nil h.nonempty
  have hc := h.name c (by rw [hname]; exact List.mem_cons_self ..)
  have hhash : c ≠ '#' := by
    rintro rfl
    exact absurd hc (by decide)
  rw [isComment, line, String.toList_ofList, hname, List.cons_append, List.head?_cons,
    Option.all_some, decide_eq_false hhash]

theorem newline_escape (cs : List Char) : '\n' ∉ escape cs := by
  intro h
  obtain ⟨c, -, hc⟩ := List.mem_flatMap.mp h
  unfold escapeChar at hc
  split at hc
  · exact absurd hc (by decide)
  · exact absurd hc (by decide)
  · exact absurd hc (by decide)
  · rename_i hnewline _
    exact hnewline (List.mem_singleton.mp hc).symm

theorem newline_labelsChars {labels : List (String × String)}
    (h : ∀ p ∈ labels, ∀ c ∈ p.1.toList, isNameChar c = true) : '\n' ∉ labelsChars labels := by
  have hone : ∀ p ∈ labels, '\n' ∉ labelChars p := by
    intro p hp hmem
    rcases List.mem_append.mp hmem with hname | hvalue
    · exact absurd (h p hp _ hname) (by decide)
    · have hescape : '\n' ∈ escape p.2.toList := by simpa using hvalue
      exact newline_escape _ hescape
  intro hmem
  induction labels with
  | nil => cases hmem
  | cons p labels ih =>
      obtain ⟨hp, hlabels⟩ := List.forall_mem_cons.mp h
      obtain ⟨hpone, hlabelsone⟩ := List.forall_mem_cons.mp hone
      cases labels with
      | nil =>
          rw [labelsChars, List.map_singleton, List.intercalate_singleton] at hmem
          exact hpone hmem
      | cons q labels =>
          have hcons : labelsChars (p :: q :: labels) =
              labelChars p ++ ',' :: labelsChars (q :: labels) := by
            simp [labelsChars, List.intercalate]
          rw [hcons, List.mem_append, List.mem_cons] at hmem
          rcases hmem with hfirst | hcomma | hrest
          · exact hpone hfirst
          · exact absurd hcomma (by decide)
          · exact ih hlabels hlabelsone hrest

theorem oneLine_line {s : Sample} (h : s.Named) : Lines.OneLine (line s) := by
  -- A numeral is printed without line breaks, and it ends the line; the labels escape theirs.
  have hvalue : ∀ c ∈ (toString s.value).toList, c ≠ '\n' ∧ c ≠ '\r' := by
    intro c hc
    have hnumeral := Numeral.isNumeral_of_mem hc
    constructor
    · rintro rfl
      exact absurd hnumeral (by decide)
    · rintro rfl
      exact absurd hnumeral (by decide)
  refine ⟨?_, ?_⟩
  · rw [line, String.toList_ofList]
    intro hmem
    rcases List.mem_append.mp hmem with hname | hrest
    · exact absurd (h.name _ hname) (by decide)
    · have hmem : '\n' ∈ labelsChars s.labels ∨ '\n' ∈ (toString s.value).toList := by
        simpa using hrest
      rcases hmem with hlabels | hnumber
      · exact newline_labelsChars h.labels hlabels
      · exact (hvalue _ hnumber).1 rfl
  · rw [line, String.toList_ofList]
    intro hlast
    obtain ⟨init, last, hsplit⟩ := (List.eq_nil_or_concat (toString s.value).toList).resolve_left
      (Numeral.toString_ne_nil s.value)
    have hend : s.name.toList ++ '\x7b' :: (labelsChars s.labels ++ '\x7d' :: ' ' ::
        (toString s.value).toList) =
        (s.name.toList ++ '\x7b' :: (labelsChars s.labels ++ '\x7d' :: ' ' :: init)) ++ [last] := by
      rw [hsplit, List.concat_eq_append]
      simp only [List.append_assoc, List.cons_append]
    rw [hend, List.getLast?_concat] at hlast
    have heq : last = '\r' := Option.some.inj hlast
    exact (hvalue last (by rw [hsplit]; simp)).2 heq

/-- A text of comments and samples is read back as the samples. -/
theorem scrape_text {comments : List String} {samples : List Sample}
    (hcomments : ∀ c ∈ comments, Lines.OneLine c ∧ isComment c = true)
    (hsamples : ∀ s ∈ samples, s.Named) :
    scrape (Lines.render (comments ++ samples.map line)) = some samples := by
  have hlines : ∀ l ∈ comments ++ samples.map line, Lines.OneLine l := by
    intro l hl
    rcases List.mem_append.mp hl with hl | hl
    · exact (hcomments l hl).1
    · obtain ⟨s, hs, rfl⟩ := List.mem_map.mp hl
      exact oneLine_line (hsamples s hs)
  have hnone : comments.filter (fun l => !isComment l) = [] := by
    rw [List.filter_eq_nil_iff]
    intro c hc
    rw [(hcomments c hc).2]
    decide
  have hall : (samples.map line).filter (fun l => !isComment l) = samples.map line := by
    rw [List.filter_eq_self]
    intro l hl
    obtain ⟨s, hs, rfl⟩ := List.mem_map.mp hl
    rw [isComment_line (hsamples s hs)]
    rfl
  rw [scrape, Lines.ofText_render hlines, List.filter_append, hnone, hall, List.nil_append]
  clear hlines hall
  induction samples with
  | nil => rfl
  | cons s samples ih =>
      obtain ⟨hs, hrest⟩ := List.forall_mem_cons.mp hsamples
      rw [List.map_cons, List.mapM_cons, readLine_line hs, ih hrest]
      rfl

/-- What the samples of a name add up to. -/
def total (name : String) (samples : List Sample) : Int :=
  ((samples.filter fun s => s.name = name).map Sample.value).sum

/-! ### Families -/

section

variable {families : List Family}

/-- A sample is looked for in the family of its name only. -/
theorem mem_samples (hdisjoint : (families.map Family.names).Pairwise List.Disjoint) {f : Family}
    (hf : f ∈ families) {s : Sample} (hs : s.name ∈ f.names) :
    s ∈ families.flatMap Family.samples ↔ s ∈ f.samples := by
  constructor
  · intro h
    obtain ⟨f', hf', hmem⟩ := List.mem_flatMap.mp h
    by_cases hsame : f' = f
    · exact hsame ▸ hmem
    · have hsymm : Std.Symm fun f f' : Family => f.names.Disjoint f'.names :=
        ⟨fun _ _ h _ h₁ h₂ => h h₂ h₁⟩
      have hapart := (List.pairwise_map.mp hdisjoint).forall hf' hf hsame
      exact absurd hs (hapart (f'.named s hmem))
  · intro h
    exact List.mem_flatMap.mpr ⟨f, hf, h⟩

theorem Family.filter_nil {f : Family} {name : String} (h : name ∉ f.names) :
    f.samples.filter (fun s => s.name = name) = [] := by
  rw [List.filter_eq_nil_iff]
  intro s hs hname
  exact h (of_decide_eq_true hname ▸ f.named s hs)

theorem Family.filter_self {f : Family} {name : String} (h : f.names = [name]) :
    f.samples.filter (fun s => s.name = name) = f.samples := by
  rw [List.filter_eq_self]
  intro s hs
  have hname := f.named s hs
  rw [h] at hname
  exact decide_eq_true (List.mem_singleton.mp hname)

/-- No series is published twice. -/
theorem nodup_series (hdisjoint : (families.map Family.names).Pairwise List.Disjoint)
    (honce : ∀ f ∈ families, (f.samples.map Sample.series).Nodup) :
    ((families.flatMap Family.samples).map Sample.series).Nodup := by
  rw [List.map_flatMap, List.nodup_flatMap]
  refine ⟨honce, (List.pairwise_map.mp hdisjoint).imp fun hapart => ?_⟩
  intro series hleft hright
  obtain ⟨s, hs, hseries⟩ := List.mem_map.mp hleft
  obtain ⟨s', hs', rfl⟩ := List.mem_map.mp hright
  have hname : s.name = s'.name := congrArg Prod.fst hseries
  exact hapart (Family.named _ s hs) (hname ▸ Family.named _ s' hs')

end

end Exposition
