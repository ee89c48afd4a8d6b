import Mathlib.Data.List.Infix
import Mathlib.Data.String.Basic

/-!
# Texts as lines

A log of lines, each ended by a newline, and the reader that splits a text again. The
reader also drops a carriage return before the newline. A prefix of a log that ends where a
line ends is a shorter log.

The end of a log is where a crash can be seen: a line without its newline. Prefixes that end
elsewhere are not logs, and are not spoken about.
-/

namespace Lines

/-- The line read so far, newest character first, without a carriage return. -/
def dropReturn : List Char → List Char
  | '\r' :: cs => cs
  | cs => cs

/-- Split the rest of a text; `line` is what was read of the current line, reversed. -/
def collect : List Char → List Char → List String
  | [], [] => []
  | [], line => [String.ofList line.reverse]
  | c :: cs, line =>
      if c = '\n' then String.ofList (dropReturn line).reverse :: collect cs []
      else collect cs (c :: line)

/-- The lines of a text. -/
def ofText (text : String) : List String := collect text.toList []

/-- The text of a log. -/
def render (lines : List String) : String :=
  String.ofList (lines.flatMap fun line => line.toList ++ ['\n'])

/-- A text that is read back as one line. -/
structure OneLine (line : String) : Prop where
  newline : '\n' ∉ line.toList
  carriage : line.toList.getLast? ≠ some '\r'

/-- The text ends where a line ends. -/
def AtBoundary (text : String) : Prop := ∀ c, text.toList.getLast? = some c → c = '\n'

@[simp] theorem toList_render (lines : List String) :
    (render lines).toList = lines.flatMap fun line => line.toList ++ ['\n'] :=
  String.toList_ofList

@[simp] theorem render_nil : render [] = "" := rfl

@[simp] theorem render_append (lines more : List String) :
    render (lines ++ more) = render lines ++ render more := by
  rw [← String.toList_inj]
  simp

theorem render_snoc (lines : List String) (line : String) :
    render (lines ++ [line]) = render lines ++ line ++ "\n" := by
  rw [← String.toList_inj]
  simp [String.append_assoc]

/-- A line with its end. -/
def ended (line : String) : String := line ++ "\n"

@[simp] theorem render_cons (line : String) (lines : List String) :
    render (line :: lines) = ended line ++ render lines := by
  rw [← String.toList_inj]
  simp [ended]

theorem atBoundary_render (lines : List String) : AtBoundary (render lines) := by
  intro c hc
  rcases List.eq_nil_or_concat lines with rfl | ⟨init, last, rfl⟩
  · cases hc
  · rw [List.concat_eq_append, toList_render, List.flatMap_append] at hc
    simpa using hc.symm

/-! ### Reading a log back -/

theorem collect_chars {cs rest line : List Char} (h : '\n' ∉ cs) :
    collect (cs ++ rest) line = collect rest (cs.reverse ++ line) := by
  induction cs generalizing line with
  | nil => rfl
  | cons c cs ih =>
      rw [List.mem_cons, not_or] at h
      rw [List.cons_append, collect, if_neg (Ne.symm h.1), ih h.2, List.reverse_cons,
        List.append_assoc]
      rfl

theorem dropReturn_reverse {cs : List Char} (h : cs.getLast? ≠ some '\r') :
    dropReturn cs.reverse = cs.reverse := by
  rcases List.eq_nil_or_concat cs with rfl | ⟨init, last, rfl⟩
  · rfl
  · rw [List.concat_eq_append] at h ⊢
    have hlast : last ≠ '\r' := by simpa using h
    rw [List.reverse_append, List.reverse_singleton, List.singleton_append]
    unfold dropReturn
    split
    · rename_i heq
      exact absurd (List.cons.inj heq).1 hlast
    · rfl

/-- A log is read back line by line. -/
theorem ofText_render {lines : List String} (h : ∀ line ∈ lines, OneLine line) :
    ofText (render lines) = lines := by
  rw [ofText, toList_render]
  induction lines with
  | nil => rfl
  | cons line lines ih =>
      have hline := h line (List.mem_cons_self ..)
      rw [List.flatMap_cons, List.append_assoc, collect_chars hline.newline, List.append_nil,
        List.singleton_append, collect, if_pos rfl, dropReturn_reverse hline.carriage,
        List.reverse_reverse, String.ofList_toList, ih fun l hl => h l (List.mem_cons_of_mem _ hl)]

theorem collect_append {cs : List Char} (rest line : List Char)
    (hend : ∀ c, cs.getLast? = some c → c = '\n') (hline : cs = [] → line = []) :
    collect (cs ++ rest) line = collect cs line ++ collect rest [] := by
  induction cs generalizing line with
  | nil =>
      obtain rfl := hline rfl
      rfl
  | cons c cs ih =>
      have hrest : ∀ c, cs.getLast? = some c → c = '\n' := by
        intro d hd
        refine hend d ?_
        rw [List.getLast?_cons, hd]
        rfl
      rw [List.cons_append, collect, collect]
      by_cases hc : c = '\n'
      · rw [if_pos hc, if_pos hc, ih [] hrest fun _ => rfl, List.cons_append]
      · rw [if_neg hc, if_neg hc]
        refine ih (c :: line) hrest fun hnil => ?_
        subst hnil
        exact absurd (hend c rfl) hc

/-- What follows the end of a line is read on its own. -/
theorem ofText_append {text : String} (hend : AtBoundary text) (rest : String) :
    ofText (text ++ rest) = ofText text ++ ofText rest := by
  rw [ofText, String.toList_append]
  exact collect_append _ _ hend fun _ => rfl

theorem AtBoundary.append_render {text : String} (hend : AtBoundary text) (lines : List String) :
    AtBoundary (text ++ render lines) := by
  intro c hc
  rw [String.toList_append, List.getLast?_append, Option.or_eq_some_iff] at hc
  rcases hc with hc | ⟨-, hc⟩
  · exact atBoundary_render lines c hc
  · exact hend c hc

/-! ### Cutting a log -/

/-- A prefix that ends where a line ends is made of the first lines. -/
theorem prefix_render {lines : List String} (hlines : ∀ line ∈ lines, '\n' ∉ line.toList)
    {text : String} (h : text.toList <+: (render lines).toList) (hend : AtBoundary text) :
    ∃ n, n ≤ lines.length ∧ text = render (lines.take n) := by
  suffices hchars : ∀ cs : List Char, cs <+: (lines.flatMap fun line => line.toList ++ ['\n']) →
      (∀ c, cs.getLast? = some c → c = '\n') →
      ∃ n, n ≤ lines.length ∧
        cs = (lines.take n).flatMap fun line => line.toList ++ ['\n'] by
    obtain ⟨n, hn, hcs⟩ := hchars text.toList (by rwa [toList_render] at h) hend
    exact ⟨n, hn, String.toList_inj.mp (by rw [hcs, toList_render])⟩
  clear h hend
  induction lines with
  | nil =>
      intro cs h _
      exact ⟨0, Nat.le_refl 0, List.prefix_nil.mp h⟩
  | cons line lines ih =>
      intro cs h hend
      rw [List.flatMap_cons] at h
      rcases List.prefix_or_prefix_of_prefix h (List.prefix_append ..) with hshort | hlong
      · -- the prefix ends in the first line: where it starts or where it ends
        rcases List.prefix_concat_iff.mp hshort with rfl | hinside
        · exact ⟨1, by simp, by simp⟩
        · rcases List.eq_nil_or_concat cs with rfl | ⟨init, last, rfl⟩
          · exact ⟨0, Nat.zero_le _, rfl⟩
          · rw [List.concat_eq_append] at hinside hend
            have hlast : last = '\n' := hend last (by simp)
            refine absurd (hinside.subset ?_) (hlines line (List.mem_cons_self ..))
            simp [hlast]
      · obtain ⟨rest, rfl⟩ := hlong
        rw [List.prefix_append_right_inj] at h
        have hrest : ∀ c, rest.getLast? = some c → c = '\n' := by
          intro c hc
          refine hend c ?_
          rw [List.getLast?_append, hc]
          rfl
        obtain ⟨n, hn, hcs⟩ := ih (fun l hl => hlines l (List.mem_cons_of_mem _ hl)) rest h hrest
        refine ⟨n + 1, Nat.succ_le_succ hn, ?_⟩
        rw [List.take_succ_cons, List.flatMap_cons, ← hcs]

end Lines
