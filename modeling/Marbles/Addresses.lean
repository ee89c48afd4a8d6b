import Marbles.Refs

/-!
# The grammar of canonical references

A reference parses exactly when it is the scheme and four segments between single slashes, and the
parser gives back the four segments. So the display form is the only form: a reference that parses
is displayed as the text it came from.

`parseIndexed` is the parser with its indexing written out. An index that is out of bounds is
`none`; no input has one.

Both directions go through `FourValid`: a list of four parts that pass the checks.
`parts_of_parse` takes a successful parse apart into the scheme and such a list, `parse_of_parts`
puts it together again, and the rest is what splitting and joining at slashes do to each other.
The order of the checks only matters for the error of a text that fails several of them.
-/

namespace Marbles

/-! ### Segments -/

/-- The characters of a segment, all of them ASCII. -/
def SegmentChar (c : Char) : Prop :=
  ('a' ≤ c ∧ c ≤ 'z') ∨ ('A' ≤ c ∧ c ≤ 'Z') ∨ ('0' ≤ c ∧ c ≤ '9') ∨ c = '_' ∨ c = '-' ∨ c = '.'

/-- One segment of a reference. -/
structure IsSegment (s : String) : Prop where
  ne_empty : s ≠ ""
  ne_dot : s ≠ "."
  ne_dots : s ≠ ".."
  chars : ∀ c ∈ s.toList, SegmentChar c

/-- The four segments follow the grammar. -/
structure CanonicalRef.WellFormed (r : CanonicalRef) : Prop where
  storeId : IsSegment r.storeId
  company : IsSegment r.company
  project : IsSegment r.project
  issueId : IsSegment r.issueId

theorem segmentChar_iff (c : Char) :
    SegmentChar c ↔ (c.isAlphanum || c = '_' || c = '-' || c = '.') = true := by
  have hupper : c.isUpper = true ↔ 'A' ≤ c ∧ c ≤ 'Z' := decide_eq_true_iff
  have hlower : c.isLower = true ↔ 'a' ≤ c ∧ c ≤ 'z' :=
    Bool.and_eq_true_iff.trans (and_congr decide_eq_true_iff decide_eq_true_iff)
  have hdigit : c.isDigit = true ↔ '0' ≤ c ∧ c ≤ '9' :=
    Bool.and_eq_true_iff.trans (and_congr decide_eq_true_iff decide_eq_true_iff)
  have halpha : c.isAlphanum = (c.isUpper || c.isLower || c.isDigit) := rfl
  rw [SegmentChar, halpha]
  simp only [Bool.or_eq_true, decide_eq_true_eq, hupper, hlower, hdigit, or_assoc]
  exact or_left_comm

@[simp] theorem validSegment_iff (value : List Char) :
    validSegment value = true ↔ IsSegment (String.ofList value) := by
  have hempty : String.ofList value = "" ↔ value = [] := by
    rw [← String.ofList_nil, String.ofList_inj]
  have hdot : String.ofList value = "." ↔ value = ['.'] := @String.ofList_inj value ['.']
  have hdots : String.ofList value = ".." ↔ value = ['.', '.'] :=
    @String.ofList_inj value ['.', '.']
  have hchars : (value.all fun c => (c.isAlphanum || c = '_' || c = '-' || c = '.')) = true ↔
      ∀ c ∈ (String.ofList value).toList, SegmentChar c := by
    simp only [List.all_eq_true, String.toList_ofList, segmentChar_iff]
  simp only [validSegment, Bool.and_eq_true, Bool.not_eq_true', List.isEmpty_eq_false_iff,
    decide_eq_true_eq, hchars]
  constructor
  · rintro ⟨⟨⟨h, hd⟩, hdd⟩, hall⟩
    exact ⟨fun he => h (hempty.mp he), fun he => hd (hdot.mp he), fun he => hdd (hdots.mp he), hall⟩
  · intro h
    exact ⟨⟨⟨fun he => h.ne_empty (hempty.mpr he), fun he => h.ne_dot (hdot.mpr he)⟩,
      fun he => h.ne_dots (hdots.mpr he)⟩, h.chars⟩

/-- Neither whitespace nor a slash is a character of a segment. -/
theorem SegmentChar.plain {c : Char} (h : SegmentChar c) : isWhitespace c = false ∧ c ≠ '/' := by
  have hrange : ∀ lo hi : Char, lo ≤ c ∧ c ≤ hi → lo.toNat ≤ c.toNat ∧ c.toNat ≤ hi.toNat :=
    fun lo hi h => h
  have hnat : (48 ≤ c.toNat ∧ c.toNat ≤ 122) ∨ c.toNat = 45 ∨ c.toNat = 46 := by
    rcases h with h | h | h | rfl | rfl | rfl
    · have := hrange _ _ h
      simp at this
      omega
    · have := hrange _ _ h
      simp at this
      omega
    · have := hrange _ _ h
      simp at this
      omega
    · decide
    · decide
    · decide
  constructor
  · simp only [isWhitespace]
    simp
    omega
  · rintro rfl
    revert hnat
    decide

namespace CanonicalRef

/-! ### Indexing -/

/-- `parse` with its indexing; `none` where an index is out of bounds. The source indexes its parts
after it has checked their number; that no index is out of bounds is a result, not an assumption. -/
def parseIndexed (input : String) : Option (Except RefError CanonicalRef) :=
  let chars := input.toList
  if chars.any isWhitespace then some (.error .whitespace)
  else if "marbles://".toList.isPrefixOf chars then
    let rest := chars.drop "marbles://".toList.length
    if rest.isEmpty then some (.error .emptyStoreId)
    else if rest.getLast? = some '/' then some (.error .trailingSlash)
    else
      let parts := rest.splitOn '/'
      match parts.zipIdx.find? fun p => p.1.isEmpty with
      | some (_, index) => some (.error (.emptySegment (segmentNames[index]?.getD "path")))
      | none =>
          if parts.length < 4 then
            segmentNames[parts.length]?.map fun segment => .error (.missingSegment segment)
          else if parts.length > 4 then some (.error (.extraSegments parts.length))
          else match (segmentNames.zip parts).find? fun p => !validSegment p.2 with
            | some (segment, value) =>
                some (.error (.invalidSegment segment (String.ofList value)))
            | none => do
                let first ← parts[0]?
                if first.isEmpty then some (.error .emptyStoreId)
                else
                  let store ← parts[0]?
                  let company ← parts[1]?
                  let project ← parts[2]?
                  let issue ← parts[3]?
                  some (.ok ⟨.ofList store, .ofList company, .ofList project, .ofList issue⟩)
  else match splitOnce "://".toList chars with
    | some (scheme, _) => some (.error (.unknownScheme (.ofList scheme)))
    | none => some (.error .missingScheme)

theorem exists_four {α : Type} {parts : List α} (h : parts.length = 4) :
    ∃ a b c d, parts = [a, b, c, d] := by
  match parts, h with
  | [a, b, c, d], _ => exact ⟨a, b, c, d, rfl⟩

/-- The first part that fails a check, for four parts: by their names, and by their places. -/
theorem firstBad_four (ok : List Char → Bool) (a b c d : List Char) :
    firstBad ok [a, b, c, d] = (segmentNames.zip [a, b, c, d]).find? fun p => !ok p.2 := by
  simp only [firstBad, segmentNames, List.zipIdx_cons, List.zipIdx_nil, List.zip_cons_cons,
    List.zip_nil_right, List.find?_cons, List.find?_nil]
  cases ok a <;> cases ok b <;> cases ok c <;> cases ok d <;> rfl

theorem validSegment_ne_nil {value : List Char} (h : validSegment value = true) :
    value ≠ [] := by
  simp only [validSegment, Bool.and_eq_true, Bool.not_eq_true', List.isEmpty_eq_false_iff] at h
  exact h.1.1.1

/-- No input makes the parser index out of bounds. -/
@[simp] theorem parseIndexed_eq (input : String) : parseIndexed input = some (parse input) := by
  unfold parseIndexed parse
  simp only
  split
  · rfl
  split
  · split
    · rfl
    split
    · rfl
    · -- the parts between the slashes
      generalize (List.drop "marbles://".toList.length input.toList).splitOn '/' = parts
      have hempty : firstBad (fun p => !p.isEmpty) parts =
          (parts.zipIdx.find? fun p => p.1.isEmpty).map fun p =>
              (segmentNames.getD p.2 "path", p.1) := by
        simp only [firstBad, Bool.not_not]
      rw [hempty]
      cases parts.zipIdx.find? fun p => p.1.isEmpty with
      | some found => rfl
      | none =>
          simp only [Option.map_none]
          by_cases hfew : parts.length < 4
          · -- a name for every number below four
            rw [if_pos hfew, if_pos hfew]
            have hlen : segmentNames.length = 4 := rfl
            rw [List.getD_eq_getElem?_getD, List.getElem?_eq_getElem (hlen ▸ hfew)]
            rfl
          rw [if_neg hfew, if_neg hfew]
          by_cases hmany : parts.length > 4
          · rw [if_pos hmany, if_pos hmany]
          rw [if_neg hmany, if_neg hmany]
          obtain ⟨a, b, c, d, rfl⟩ := exists_four (show parts.length = 4 by omega)
          rw [firstBad_four]
          cases hbad : (segmentNames.zip [a, b, c, d]).find? fun p => !validSegment p.2 with
          | some found => rfl
          | none =>
              -- the last check has been made already
              have hstore : validSegment a = true := by
                have h := List.find?_eq_none.mp hbad ("store_id", a) (by simp [segmentNames])
                simpa using h
              simp [validSegment_ne_nil hstore]
  · cases splitOnce "://".toList input.toList <;> rfl

/-! ### The grammar -/

/-- The four parts between slashes. -/
def slashed (a b c d : List Char) : List Char := a ++ '/' :: (b ++ '/' :: (c ++ '/' :: d))

theorem intercalate_four (a b c d : List Char) :
    ['/'].intercalate [a, b, c, d] = slashed a b c d := by
  simp [slashed, List.intercalate]

theorem toList_display (r : CanonicalRef) :
    r.display.toList = "marbles://".toList ++
      slashed r.storeId.toList r.company.toList r.project.toList r.issueId.toList := by
  delta display
  simp only [slashed, toString, String.toList_append, List.append_assoc]
  simp

/-- A valid part has no slash in it and no whitespace. -/
theorem plain_of_validSegment {value : List Char} (h : validSegment value = true) :
    ∀ c ∈ value, isWhitespace c = false ∧ c ≠ '/' := by
  intro c hc
  apply ((validSegment_iff value).mp h).chars c _ |>.plain
  rwa [String.toList_ofList]

theorem firstBad_eq_none_iff {ok : List Char → Bool} {a b c d : List Char} :
    firstBad ok [a, b, c, d] = none ↔
      ok a = true ∧ ok b = true ∧ ok c = true ∧ ok d = true := by
  rw [firstBad_four, List.find?_eq_none]
  simp [segmentNames]

/-- The four parts are valid. -/
def FourValid (a b c d : List Char) : Prop :=
  validSegment a = true ∧ validSegment b = true ∧ validSegment c = true ∧ validSegment d = true

theorem FourValid.of_mem {a b c d value : List Char} (h : FourValid a b c d)
    (hmem : value ∈ [a, b, c, d]) : validSegment value = true := by
  obtain ⟨ha, hb, hc, hd⟩ := h
  simp only [List.mem_cons, List.not_mem_nil, or_false] at hmem
  rcases hmem with rfl | rfl | rfl | rfl <;> assumption

/-- No character of the parts or of the slashes between them is whitespace. -/
theorem FourValid.not_whitespace {a b c d : List Char} (h : FourValid a b c d) :
    ∀ ch ∈ slashed a b c d, isWhitespace ch = false := by
  intro ch hmem
  have hcases : ch = '/' ∨ ∃ value ∈ [a, b, c, d], ch ∈ value := by
    simp only [slashed, List.mem_append, List.mem_cons] at hmem
    simp only [List.mem_cons, List.not_mem_nil, or_false, exists_eq_or_imp, exists_eq_left]
    tauto
  rcases hcases with rfl | ⟨value, hvalue, hmem⟩
  · decide
  · exact (plain_of_validSegment (h.of_mem hvalue) ch hmem).1

theorem FourValid.getLast_ne {a b c d : List Char} (h : FourValid a b c d) :
    (slashed a b c d).getLast? ≠ some '/' := by
  have hd : validSegment d = true := h.2.2.2
  have hlast : (slashed a b c d).getLast? = d.getLast? := by
    rcases List.eq_nil_or_concat d with hnil | ⟨front, last, hsplit⟩
    · exact absurd hnil (validSegment_ne_nil hd)
    · simp [slashed, hsplit, List.getLast?_append, List.getLast?_cons]
  intro heq
  rw [hlast, List.getLast?_eq_some_iff] at heq
  obtain ⟨front, rfl⟩ := heq
  have hslash := plain_of_validSegment hd '/' (by simp)
  exact hslash.2 rfl

theorem FourValid.splitOn {a b c d : List Char} (h : FourValid a b c d) :
    (slashed a b c d).splitOn '/' = [a, b, c, d] := by
  rw [← intercalate_four]
  refine List.splitOn_intercalate '/' (fun value hvalue hmem => ?_) (by simp)
  exact (plain_of_validSegment (h.of_mem hvalue) '/' hmem).2 rfl

/-- What parses is the scheme and four valid parts. -/
theorem parts_of_parse {input : String} {r : CanonicalRef} (h : parse input = .ok r) :
    ∃ a b c d, input.toList = "marbles://".toList ++ slashed a b c d ∧ FourValid a b c d ∧
      r = ⟨.ofList a, .ofList b, .ofList c, .ofList d⟩ := by
  unfold parse at h
  simp only at h
  split at h
  · cases h
  split at h
  · rename_i hscheme
    split at h
    · cases h
    split at h
    · cases h
    -- the parts make up the rest again
    have hrest : ['/'].intercalate
        ((List.drop "marbles://".toList.length input.toList).splitOn '/') =
          List.drop "marbles://".toList.length input.toList := List.intercalate_splitOn '/'
    generalize (List.drop "marbles://".toList.length input.toList).splitOn '/' = parts at h hrest
    split at h
    · cases h
    split at h
    · cases h
    split at h
    · cases h
    rename_i hfew hmany
    obtain ⟨a, b, c, d, rfl⟩ := exists_four (show parts.length = 4 by omega)
    split at h
    · cases h
    · rename_i hbad
      cases h
      refine ⟨a, b, c, d, ?_, firstBad_eq_none_iff.mp hbad, rfl⟩
      rw [← intercalate_four, hrest]
      exact (List.prefix_iff_eq_append.mp (List.isPrefixOf_iff_prefix.mp hscheme)).symm
  · split at h <;> cases h

/-- The scheme and four valid parts parse, to the four parts. -/
theorem parse_of_parts {input : String} {a b c d : List Char}
    (hinput : input.toList = "marbles://".toList ++ slashed a b c d) (h : FourValid a b c d) :
    parse input = .ok ⟨.ofList a, .ofList b, .ofList c, .ofList d⟩ := by
  have hplain : ("marbles://".toList.any isWhitespace) = false := by decide
  have hspace : ¬ input.toList.any isWhitespace = true := by
    rw [hinput, List.any_append, hplain, Bool.false_or, Bool.not_eq_true, List.any_eq_false]
    exact fun ch hmem => Bool.not_eq_true _ ▸ h.not_whitespace ch hmem
  have hscheme : "marbles://".toList.isPrefixOf input.toList = true := by
    rw [hinput]
    exact List.isPrefixOf_iff_prefix.mpr (List.prefix_append _ _)
  have hdrop : List.drop "marbles://".toList.length input.toList = slashed a b c d := by
    rw [hinput, List.drop_left]
  have hnonempty : ¬ (slashed a b c d).isEmpty = true := by simp [slashed]
  have hfull : firstBad (fun p => !p.isEmpty) [a, b, c, d] = none := by
    rw [firstBad_eq_none_iff]
    simp [validSegment_ne_nil h.1, validSegment_ne_nil h.2.1, validSegment_ne_nil h.2.2.1,
      validSegment_ne_nil h.2.2.2]
  have hvalid := firstBad_eq_none_iff.mpr h
  unfold parse
  simp only [hspace, hscheme, hdrop, hnonempty, h.getLast_ne, h.splitOn, hfull, hvalid]
  rfl

@[simp] theorem fourValid_iff (r : CanonicalRef) :
    FourValid r.storeId.toList r.company.toList r.project.toList r.issueId.toList ↔
      r.WellFormed := by
  simp only [FourValid, validSegment_iff, String.ofList_toList]
  exact ⟨fun h => ⟨h.1, h.2.1, h.2.2.1, h.2.2.2⟩, fun h => ⟨h.1, h.2, h.3, h.4⟩⟩

/-- A text parses to a reference exactly when it displays a reference of the grammar. -/
theorem parse_eq_ok_iff {input : String} {r : CanonicalRef} :
    parse input = .ok r ↔ r.WellFormed ∧ r.display = input := by
  constructor
  · intro h
    obtain ⟨a, b, c, d, hinput, hvalid, rfl⟩ := parts_of_parse h
    constructor
    · rw [← fourValid_iff]
      simpa only [String.toList_ofList] using hvalid
    · rw [← String.toList_inj, toList_display, hinput]
      simp only [String.toList_ofList]
  · rintro ⟨hwell, rfl⟩
    have h := parse_of_parts (toList_display r) ((fourValid_iff r).mpr hwell)
    simpa only [String.ofList_toList] using h

/-- The grammar of canonical references: what parses, that the display form is the only form, and
that the parser stays in bounds on every text. -/
theorem parse_grammar :
    (∀ s : String, (∃ r, parse s = .ok r) ↔
      ∃ store company project issue, IsSegment store ∧ IsSegment company ∧ IsSegment project ∧
        IsSegment issue ∧
        s = "marbles://" ++ store ++ "/" ++ company ++ "/" ++ project ++ "/" ++ issue) ∧
    (∀ s r, parse s = .ok r → r.display = s) ∧
    (∀ r : CanonicalRef, r.WellFormed → parse r.display = .ok r) ∧
    (∀ s, parseIndexed s = some (parse s)) := by
  have hdisplay : ∀ r : CanonicalRef, r.display =
      "marbles://" ++ r.storeId ++ "/" ++ r.company ++ "/" ++ r.project ++ "/" ++ r.issueId := by
    intro r
    rw [← String.toList_inj, toList_display]
    simp [slashed]
  refine ⟨fun s => ⟨?_, ?_⟩, fun s r h => (parse_eq_ok_iff.mp h).2,
    fun r h => parse_eq_ok_iff.mpr ⟨h, rfl⟩, parseIndexed_eq⟩
  · rintro ⟨r, h⟩
    obtain ⟨hwell, rfl⟩ := parse_eq_ok_iff.mp h
    exact ⟨_, _, _, _, hwell.storeId, hwell.company, hwell.project, hwell.issueId, hdisplay r⟩
  · rintro ⟨store, company, project, issue, hstore, hcompany, hproject, hissue, rfl⟩
    exact ⟨⟨store, company, project, issue⟩,
      parse_eq_ok_iff.mpr ⟨⟨hstore, hcompany, hproject, hissue⟩, hdisplay _⟩⟩

end CanonicalRef

end Marbles
