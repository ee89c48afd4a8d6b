import Marbles.Lib.Canonical
import Marbles.Lib.Reader
import Marbles.Lib.Table

/-!
# What a canonical text stands for

A document as what can be looked up in it: an object is a map from keys to documents, whatever
the order of its fields. Documents that mean the same have the same canonical text, and reading
the text gives a document of the same meaning back, so that texts and meanings correspond.
-/

namespace Json

/-- A document whose objects are maps. -/
inductive Doc where
  | null
  | bool (b : Bool)
  | num (n : Int)
  | str (s : String)
  | arr (xs : List Doc)
  | obj (fields : String → Option Doc)

namespace Value

mutual

def doc : Value → Doc
  | .null => .null
  | .bool b => .bool b
  | .num n => .num n
  | .str s => .str s
  | .arr xs => .arr (docItems xs)
  | .obj fields => .obj fun key => (docFields fields).lookup key

def docItems : List Value → List Doc
  | [] => []
  | x :: xs => doc x :: docItems xs

def docFields : List (String × Value) → List (String × Doc)
  | [] => []
  | (k, v) :: fields => (k, doc v) :: docFields fields

end

mutual

/-- No object has a key twice. -/
def WellFormed : Value → Prop
  | .arr xs => ItemsWellFormed xs
  | .obj fields => (fields.map Prod.fst).Nodup ∧ FieldsWellFormed fields
  | _ => True

def ItemsWellFormed : List Value → Prop
  | [] => True
  | x :: xs => WellFormed x ∧ ItemsWellFormed xs

def FieldsWellFormed : List (String × Value) → Prop
  | [] => True
  | (_, v) :: fields => WellFormed v ∧ FieldsWellFormed fields

end

/-- What holds of a document when it holds of its parts. -/
theorem induction {P : Value → Prop} (hnull : P .null) (hbool : ∀ b, P (.bool b))
    (hnum : ∀ n, P (.num n)) (hstr : ∀ s, P (.str s))
    (harr : ∀ xs, (∀ x ∈ xs, P x) → P (.arr xs))
    (hobj : ∀ fields, (∀ f ∈ fields, P f.2) → P (.obj fields)) (v : Value) : P v :=
  @Value.rec P (fun xs => ∀ x ∈ xs, P x) (fun fields => ∀ f ∈ fields, P f.2) (fun f => P f.2)
    hnull hbool hnum hstr harr hobj (fun _ h => absurd h List.not_mem_nil)
    (fun _ _ hx hxs => List.forall_mem_cons.mpr ⟨hx, hxs⟩) (fun _ h => absurd h List.not_mem_nil)
    (fun _ _ hf hfields => List.forall_mem_cons.mpr ⟨hf, hfields⟩) (fun _ _ hv => hv) v

/-! ### Parts -/

theorem docItems_eq (xs : List Value) : docItems xs = xs.map doc := by
  induction xs with
  | nil => rfl
  | cons x xs ih => rw [docItems, ih, List.map_cons]

theorem docFields_eq (fields : Object) : docFields fields = fields.map fun f => (f.1, f.2.doc) := by
  induction fields with
  | nil => rfl
  | cons f fields ih => rw [docFields, ih, List.map_cons]

theorem canonicalItems_eq (xs : List Value) : canonicalItems xs = xs.map canonical := by
  induction xs with
  | nil => rfl
  | cons x xs ih => rw [canonicalItems, ih, List.map_cons]

/-- The text of a field. -/
def fieldText (f : String × Value) : String := quote f.1 ++ ":" ++ f.2.canonical

theorem canonicalFields_eq (fields : Object) :
    canonicalFields fields = fields.map fun f => (f.1, fieldText f) := by
  induction fields with
  | nil => rfl
  | cons f fields ih => rw [canonicalFields, ih, List.map_cons, fieldText]

/-- What an object maps a key to. -/
@[simp] theorem lookup_docFields (fields : Object) (key : String) :
    (docFields fields).lookup key = (Object.get key fields).map doc := by
  induction fields with
  | nil => rfl
  | cons f fields ih =>
      rw [docFields, Table.lookup_cons, Object.get_cons, ih]
      split <;> rfl

theorem doc_obj (fields : Object) :
    doc (.obj fields) = .obj fun key => (Object.get key fields).map doc := by
  rw [doc]
  exact congrArg Doc.obj (funext (lookup_docFields fields))

theorem itemsWellFormed_iff {xs : List Value} : ItemsWellFormed xs ↔ ∀ x ∈ xs, x.WellFormed := by
  induction xs with
  | nil => simp [ItemsWellFormed]
  | cons x xs ih => simp [ItemsWellFormed, ih]

theorem fieldsWellFormed_iff {fields : Object} :
    FieldsWellFormed fields ↔ ∀ f ∈ fields, f.2.WellFormed := by
  induction fields with
  | nil => simp [FieldsWellFormed]
  | cons f fields ih => simp [FieldsWellFormed, ih]

/-! ### The same meaning, the same text -/

/-- The entries of an object that are sorted and written. -/
theorem mem_entries {fields : Object} (h : (fields.map Prod.fst).Nodup) {key text : String} :
    (key, text) ∈ canonicalFields fields ↔
      (Object.get key fields).map (fun v => quote key ++ ":" ++ v.canonical) = some text := by
  rw [canonicalFields_eq, List.mem_map, Option.map_eq_some_iff]
  constructor
  · intro ⟨f, hf, heq⟩
    obtain ⟨rfl, rfl⟩ := Prod.mk.inj heq
    exact ⟨f.2, (Table.lookup_eq_some h).mpr hf, rfl⟩
  · intro ⟨v, hv, htext⟩
    exact ⟨(key, v), (Table.lookup_eq_some h).mp hv, Prod.ext rfl htext⟩

@[simp] theorem keys_canonicalFields (fields : Object) :
    (canonicalFields fields).map Prod.fst = fields.map Prod.fst := by
  rw [canonicalFields_eq, List.map_map]
  rfl

theorem nodup_entries {fields : Object} (h : (fields.map Prod.fst).Nodup) :
    (canonicalFields fields).Nodup := by
  rw [← keys_canonicalFields] at h
  exact h.of_map _

theorem map_canonical {xs ys : List Value}
    (h : ∀ x ∈ xs, ∀ y ∈ ys, x.doc = y.doc → x.canonical = y.canonical)
    (heq : xs.map doc = ys.map doc) : xs.map canonical = ys.map canonical := by
  induction xs generalizing ys with
  | nil =>
      cases ys with
      | nil => rfl
      | cons y ys => cases heq
  | cons x xs ih =>
      cases ys with
      | nil => cases heq
      | cons y ys =>
          obtain ⟨hhead, htail⟩ := List.cons.inj heq
          have hrest := ih (fun a ha b hb => h a (List.mem_cons_of_mem _ ha) b
            (List.mem_cons_of_mem _ hb)) htail
          rw [List.map_cons, List.map_cons, hrest,
            h x (List.mem_cons_self ..) y (List.mem_cons_self ..) hhead]

/-- Documents of one meaning have one canonical text. -/
theorem canonical_congr (v : Value) : ∀ w : Value, v.WellFormed → w.WellFormed → v.doc = w.doc →
    v.canonical = w.canonical := by
  -- On the structure of the first value: objects with equal documents have the same entries up to
  -- order, and sorting forgets the order.
  induction v using induction with
  | hnull =>
      intro w _ _ h
      cases w <;> first | rfl | cases h
  | hbool b =>
      intro w _ _ h
      cases w <;> first | (cases h; rfl) | cases h
  | hnum n =>
      intro w _ _ h
      cases w <;> first | (cases h; rfl) | cases h
  | hstr s =>
      intro w _ _ h
      cases w <;> first | (cases h; rfl) | cases h
  | harr xs ih =>
      intro w hv hw h
      cases w with
      | arr ys =>
          rw [doc, doc, docItems_eq, docItems_eq] at h
          rw [canonical, canonical, canonicalItems_eq, canonicalItems_eq,
            map_canonical (fun x hx y hy => ih x hx y (itemsWellFormed_iff.mp hv x hx)
              (itemsWellFormed_iff.mp hw y hy)) (Doc.arr.inj h)]
      | _ => cases h
  | hobj fields ih =>
      intro w hv hw h
      cases w with
      | obj others =>
          rw [doc_obj, doc_obj] at h
          have hkey := congrFun (Doc.obj.inj h)
          have hperm : (canonicalFields fields).Perm (canonicalFields others) := by
            refine (List.perm_ext_iff_of_nodup (nodup_entries hv.1) (nodup_entries hw.1)).mpr ?_
            intro ⟨key, text⟩
            rw [mem_entries hv.1, mem_entries hw.1]
            have hmap := hkey key
            cases hf : Object.get key fields with
            | none =>
                rw [hf, Option.map_none, eq_comm, Option.map_eq_none_iff] at hmap
                rw [hmap]
            | some x =>
                rw [hf, Option.map_some, eq_comm] at hmap
                obtain ⟨y, hy, hdoc⟩ := Option.map_eq_some_iff.mp hmap
                have hx := (Table.lookup_eq_some hv.1).mp hf
                have hxy := ih _ hx y (fieldsWellFormed_iff.mp hv.2 _ hx)
                  (fieldsWellFormed_iff.mp hw.2 _ ((Table.lookup_eq_some hw.1).mp hy)) hdoc.symm
                rw [hy, Option.map_some, Option.map_some]
                show some (quote key ++ ":" ++ x.canonical) = some text ↔ _
                rw [hxy]
          have hkeys : ((canonicalFields others).map Prod.fst).Nodup := by
            rw [keys_canonicalFields]
            exact hw.1
          rw [canonical, canonical, Sorting.sortOn_perm_of_nodup hperm hkeys]
      | _ => cases h

/-! ### The text is read back -/

/-- The characters of a canonical text. -/
def chars (v : Value) : List Char := v.canonical.toList

theorem chars_arr (xs : List Value) :
    chars (.arr xs) = '[' :: ([','].intercalate (xs.map chars) ++ [']']) := by
  rw [chars, canonical, canonicalItems_eq]
  simp only [String.toList_append, String.toList_intercalate, List.map_map]
  rfl

/-- The fields of an object as they are written. -/
def sorted (fields : Object) : Object := Sorting.sortOn Prod.fst fields

def fieldChars (f : String × Value) : List Char := (quote f.1).toList ++ ':' :: chars f.2

theorem chars_obj (fields : Object) : chars (.obj fields) =
    '\x7b' :: ([','].intercalate ((sorted fields).map fieldChars) ++ ['\x7d']) := by
  have hsort : (sorted fields).map (fun f => (f.1, fieldText f)) =
      Sorting.sortOn Prod.fst (fields.map fun f => (f.1, fieldText f)) :=
    @Sorting.map_sortOn _ _ _ _ _ _ Prod.fst Prod.fst (fun f => (f.1, fieldText f))
      (fun _ _ => Iff.rfl) fields
  have hfield : (String.toList ∘ Prod.snd) ∘ (fun f => (f.1, fieldText f)) = fieldChars := by
    funext f
    show (quote f.1 ++ ":" ++ f.2.canonical).toList = _
    rw [String.toList_append, String.toList_append, List.append_assoc]
    rfl
  rw [chars, canonical, canonicalFields_eq, ← hsort, String.toList_append, String.toList_append,
    String.toList_intercalate, List.map_map, List.map_map, hfield]
  rfl

theorem not_isBlank {c : Char} (h : Numeral.isNumeral c = true) : isBlank c = false := by
  cases hc : isBlank c with
  | false => rfl
  | true =>
      simp only [isBlank, Bool.or_eq_true, decide_eq_true_eq] at hc
      rcases hc with ((rfl | rfl) | rfl) | rfl
      all_goals exact absurd h (by decide)

/-- A document does not start with a blank or a closing bracket. -/
theorem exists_head (v : Value) : ∃ c cs, v.chars = c :: cs ∧ isBlank c = false ∧ c ≠ ']' := by
  cases v with
  | null => exact ⟨'n', _, rfl, rfl, by decide⟩
  | bool b => cases b with
      | true => exact ⟨'t', _, rfl, rfl, by decide⟩
      | false => exact ⟨'f', _, rfl, rfl, by decide⟩
  | num n =>
      cases h : (toString n).toList with
      | nil => exact absurd h (Numeral.toString_ne_nil n)
      | cons c cs =>
          have hc := Numeral.isNumeral_of_mem (h ▸ List.mem_cons_self .. : c ∈ (toString n).toList)
          refine ⟨c, cs, h, not_isBlank hc, fun heq => ?_⟩
          rw [heq] at hc
          exact absurd hc (by decide)
  | str s => exact ⟨'"', _, toList_quote s, rfl, by decide⟩
  | arr xs => exact ⟨'[', _, chars_arr xs, rfl, by decide⟩
  | obj fields => exact ⟨'\x7b', _, chars_obj fields, rfl, by decide⟩

theorem skip_cons {c : Char} (hc : isBlank c = false) (cs : List Char) :
    skip (c :: cs) = c :: cs := by
  rw [skip, List.dropWhile_cons, hc]
  rfl

theorem expect_cons {c : Char} (hc : isBlank c = false) (cs : List Char) :
    expect c (c :: cs) = some cs := by
  rw [expect, skip_cons hc]
  exact if_pos rfl

theorem expect_other {c d : Char} (hd : isBlank d = false) (h : d ≠ c) (cs : List Char) :
    expect c (d :: cs) = none := by
  rw [expect, skip_cons hd]
  exact if_neg h

/-- Whatever ends it, the text of the document is read as a document of the same meaning. -/
def ReadsBack (v : Value) : Prop :=
  ∀ fuel rest, v.chars.length ≤ fuel → Ends rest →
    ∃ u, readValue fuel (v.chars ++ rest) = some (u, rest) ∧ u.doc = v.doc

theorem ends_cons {c : Char} (h : c = ',' ∨ c = ']' ∨ c = '\x7d') (rest : List Char) :
    Ends (c :: rest) := by
  intro d hd
  obtain rfl := Option.some.inj hd
  exact h

theorem readItems_chars (x : Value) (xs : List Value) (h : ∀ y ∈ x :: xs, y.ReadsBack) (fuel : Nat)
    (rest : List Char) (hfuel : ([','].intercalate ((x :: xs).map chars)).length < fuel) :
    ∃ us, readItems fuel ([','].intercalate ((x :: xs).map chars) ++ ']' :: rest) =
      some (us, rest) ∧ us.map doc = (x :: xs).map doc := by
  -- On the items: each is read with less fuel than the text has characters, and a comma or the
  -- bracket ends it.
  induction xs generalizing x fuel with
  | nil =>
      cases fuel with
      | zero => exact absurd hfuel (Nat.not_lt_zero _)
      | succ fuel =>
          have hlength : x.chars.length ≤ fuel := by
            simp [List.intercalate] at hfuel
            omega
          obtain ⟨u, hread, hdoc⟩ := h x (List.mem_cons_self ..) fuel (']' :: rest) hlength
            (ends_cons (by decide) rest)
          have htext : [','].intercalate ([x].map chars) ++ ']' :: rest = x.chars ++
              ']' :: rest := by
            simp [List.intercalate]
          refine ⟨[u], ?_, congrArg (fun d => [d]) hdoc⟩
          rw [htext, readItems, hread]
          simp only [Option.bind_eq_bind, Option.bind_some, expect_cons (c := ']') rfl]
  | cons y ys ih =>
      cases fuel with
      | zero => exact absurd hfuel (Nat.not_lt_zero _)
      | succ fuel =>
          have htext : [','].intercalate ((x :: y :: ys).map chars) =
              x.chars ++ ',' :: [','].intercalate ((y :: ys).map chars) := by
            simp [List.intercalate]
          rw [htext, List.length_append, List.length_cons] at hfuel
          obtain ⟨u, hread, hdoc⟩ := h x (List.mem_cons_self ..) fuel
            (',' :: ([','].intercalate ((y :: ys).map chars) ++ ']' :: rest)) (by omega)
            (ends_cons (by decide) _)
          obtain ⟨us, hreads, hdocs⟩ := ih y (fun z hz => h z (List.mem_cons_of_mem _ hz)) fuel
            (by omega)
          refine ⟨u :: us, ?_, congrArg₂ List.cons hdoc hdocs⟩
          rw [htext, List.append_assoc, List.cons_append, readItems, hread]
          simp only [Option.bind_eq_bind, Option.bind_some, expect_cons (c := ',') rfl,
            expect_other (c := ']') (d := ',') rfl (by decide), hreads]

theorem readFields_chars (f : String × Value) (fields : Object)
    (h : ∀ g ∈ f :: fields, g.2.ReadsBack) (fuel : Nat) (rest : List Char)
    (hfuel : ([','].intercalate ((f :: fields).map fieldChars)).length < fuel) :
    ∃ us, readFields fuel ([','].intercalate ((f :: fields).map fieldChars) ++ '\x7d' :: rest) =
      some (us, rest) ∧ docFields us = docFields (f :: fields) := by
  have hquoted : ∀ (f : String × Value) (cs : List Char), fieldChars f ++ cs =
      '"' :: (f.1.toList.flatMap (fun c => (escape c).toList) ++ '"' :: ':' ::
          (chars f.2 ++ cs)) := by
    intro f cs
    rw [fieldChars, toList_quote]
    simp
  -- On the fields after the first one, each read with less fuel than the text has characters.
  induction fields generalizing f fuel with
  | nil =>
      cases fuel with
      | zero => exact absurd hfuel (Nat.not_lt_zero _)
      | succ fuel =>
          have htext : [','].intercalate ([f].map fieldChars) = fieldChars f := by
            simp [List.intercalate]
          have hlength : f.2.chars.length ≤ fuel := by
            rw [htext, fieldChars, List.length_append, List.length_cons] at hfuel
            omega
          obtain ⟨u, hread, hdoc⟩ := h f (List.mem_cons_self ..) fuel ('\x7d' :: rest) hlength
            (ends_cons (by decide) rest)
          refine ⟨[(f.1, u)], ?_, ?_⟩
          · rw [htext, hquoted, readFields]
            simp only [Option.bind_eq_bind, Option.bind_some, expect_cons (c := '"') rfl,
              readString_quoted, expect_cons (c := ':') rfl, hread, expect_cons (c := '\x7d') rfl]
          · rw [docFields_eq, docFields_eq, List.map_singleton, List.map_singleton, hdoc]
  | cons g fields ih =>
      cases fuel with
      | zero => exact absurd hfuel (Nat.not_lt_zero _)
      | succ fuel =>
          have htext : [','].intercalate ((f :: g :: fields).map fieldChars) =
              fieldChars f ++ ',' :: [','].intercalate ((g :: fields).map fieldChars) := by
            simp [List.intercalate]
          have hlength := hfuel
          rw [htext, List.length_append, List.length_cons] at hlength
          have hvalue : f.2.chars.length ≤ (fieldChars f).length := by
            rw [fieldChars, List.length_append, List.length_cons]
            omega
          obtain ⟨u, hread, hdoc⟩ := h f (List.mem_cons_self ..) fuel
            (',' :: ([','].intercalate ((g :: fields).map fieldChars) ++ '\x7d' :: rest)) (by omega)
            (ends_cons (by decide) _)
          obtain ⟨us, hreads, hdocs⟩ := ih g (fun z hz => h z (List.mem_cons_of_mem _ hz)) fuel
            (by omega)
          refine ⟨(f.1, u) :: us, ?_, ?_⟩
          · rw [htext, List.append_assoc, List.cons_append, hquoted, readFields]
            simp only [Option.bind_eq_bind, Option.bind_some, expect_cons (c := '"') rfl,
              readString_quoted, expect_cons (c := ':') rfl, hread, expect_cons (c := ',') rfl,
              expect_other (c := '\x7d') (d := ',') rfl (by decide), hreads]
          · rw [docFields, docFields, hdoc, hdocs]

/-- Inserting fields with different keys one after the other. -/
theorem get_foldl_insert (us : Object) (acc : Object) (h : (us.map Prod.fst).Nodup) (key : String) :
    Object.get key (us.foldl (fun acc f => Object.insert f.1 f.2 acc) acc) =
      (Object.get key us).or (Object.get key acc) := by
  induction us generalizing acc with
  | nil => rfl
  | cons f us ih =>
      rw [List.map_cons, List.nodup_cons] at h
      rw [List.foldl_cons, ih _ h.2, Object.get_insert, Object.get_cons]
      by_cases hkey : key = f.1
      · have hnone : Object.get key us = none := Table.lookup_eq_none.mpr (hkey ▸ h.1)
        rw [if_pos hkey, if_pos hkey, hnone]
        rfl
      · rw [if_neg hkey, if_neg hkey]

theorem get_sorted {fields : Object} (h : (fields.map Prod.fst).Nodup) (key : String) :
    Object.get key (sorted fields) = Object.get key fields := by
  have hperm : (sorted fields).Perm fields := Sorting.perm_sortOn _ _
  have hnodup := (hperm.map Prod.fst).nodup_iff.mpr h
  ext v
  rw [Object.get, Object.get, Table.lookup_eq_some hnodup, Table.lookup_eq_some h, hperm.mem_iff]

theorem exists_tail {α : Type} (f : α → List Char) (x : α) (xs : List α) :
    ∃ tail, [','].intercalate ((x :: xs).map f) = f x ++ tail := by
  cases xs with
  | nil => exact ⟨[], by simp [List.intercalate]⟩
  | cons y ys => exact ⟨',' :: [','].intercalate ((y :: ys).map f), by simp [List.intercalate]⟩

theorem readsBack_num (n : Int) : ReadsBack (.num n) := by
  intro fuel rest hfuel hrest
  have hread := readNumber_toString n hrest
  obtain ⟨c, cs, hchars, hblank, -⟩ := exists_head (.num n)
  have hnumeral := Numeral.isNumeral_of_mem
    (show c ∈ (toString n).toList from (show (toString n).toList = c :: cs from hchars) ▸
      List.mem_cons_self ..)
  have hne : ∀ d, ¬ Numeral.isNumeral d = true → c ≠ d := fun d hd heq => hd (heq ▸ hnumeral)
  change readNumber (chars (.num n) ++ rest) = _ at hread
  cases fuel with
  | zero =>
      rw [hchars] at hfuel
      exact absurd hfuel (Nat.not_succ_le_zero _)
  | succ fuel =>
      refine ⟨.num n, ?_, rfl⟩
      rw [hchars, List.cons_append] at hread ⊢
      rw [readValue, skip_cons hblank]
      simp only [if_neg (hne '"' (by decide)), if_neg (hne '[' (by decide)),
        if_neg (hne '\x7b' (by decide)), if_neg (hne 'n' (by decide)), if_neg (hne 't' (by decide)),
        if_neg (hne 'f' (by decide)), hread]

theorem readsBack_str (s : String) : ReadsBack (.str s) := by
  intro fuel rest hfuel _
  have hchars : chars (.str s) ++ rest =
      '"' :: (s.toList.flatMap (fun c => (escape c).toList) ++ '"' :: rest) := by
    rw [chars, canonical, toList_quote]
    simp
  cases fuel with
  | zero =>
      rw [chars, canonical, toList_quote] at hfuel
      exact absurd hfuel (Nat.not_succ_le_zero _)
  | succ fuel =>
      refine ⟨.str s, ?_, rfl⟩
      rw [hchars, readValue, skip_cons (c := '"') rfl]
      simp only [if_true, readString_quoted, Option.bind_eq_bind, Option.bind_some]

theorem readsBack_arr {xs : List Value} (h : ∀ x ∈ xs, x.ReadsBack) : ReadsBack (.arr xs) := by
  intro fuel rest hfuel _
  rw [chars_arr] at hfuel ⊢
  cases fuel with
  | zero => exact absurd hfuel (Nat.not_succ_le_zero _)
  | succ fuel =>
      cases xs with
      | nil => exact ⟨.arr [], rfl, rfl⟩
      | cons x xs =>
          rw [List.length_cons, List.length_append, List.length_singleton] at hfuel
          obtain ⟨us, hreads, hdocs⟩ := readItems_chars x xs h fuel rest (by omega)
          obtain ⟨tail, htail⟩ := exists_tail chars x xs
          obtain ⟨c, cs, hchars, hblank, hbracket⟩ := exists_head x
          have hopen : expect ']' ([','].intercalate ((x :: xs).map chars) ++ ']' :: rest) =
              none := by
            rw [htail, hchars, List.cons_append, List.cons_append]
            exact expect_other hblank hbracket _
          refine ⟨.arr us, ?_, ?_⟩
          · rw [List.cons_append, List.append_assoc, List.singleton_append, readValue,
              skip_cons (c := '[') rfl]
            simp only [if_neg (show '[' ≠ '"' by decide), if_true, hopen, hreads,
              Option.bind_eq_bind, Option.bind_some]
          · rw [doc, doc, docItems_eq, docItems_eq, hdocs]

@[simp] theorem keys_docFields (fields : Object) :
    (docFields fields).map Prod.fst = fields.map Prod.fst := by
  rw [docFields_eq, List.map_map]
  rfl

theorem readsBack_obj {fields : Object} (hkeys : (fields.map Prod.fst).Nodup)
    (h : ∀ f ∈ fields, f.2.ReadsBack) : ReadsBack (.obj fields) := by
  intro fuel rest hfuel _
  have hperm : (sorted fields).Perm fields := Sorting.perm_sortOn _ _
  have hsorted := get_sorted hkeys
  have hnodup := (hperm.map Prod.fst).nodup_iff.mpr hkeys
  rw [chars_obj] at hfuel ⊢
  rw [doc_obj]
  simp only [← hsorted]
  cases fuel with
  | zero => exact absurd hfuel (Nat.not_succ_le_zero _)
  | succ fuel =>
      -- What is printed are the sorted fields; what is read is a fold of inserts, and the keys are
      -- distinct, so the object has the same entries.
      cases hfields : sorted fields with
      | nil => exact ⟨.obj [], rfl, doc_obj []⟩
      | cons f others =>
          rw [hfields] at hfuel hnodup hperm
          rw [List.length_cons, List.length_append, List.length_singleton] at hfuel
          obtain ⟨us, hreads, hdocs⟩ := readFields_chars f others
            (fun g hg => h g (hperm.mem_iff.mp hg)) fuel rest (by omega)
          obtain ⟨tail, htail⟩ := exists_tail fieldChars f others
          have hopen : expect '\x7d'
              ([','].intercalate ((f :: others).map fieldChars) ++ '\x7d' :: rest) = none := by
            rw [htail, fieldChars, toList_quote]
            exact expect_other rfl (by decide) _
          refine ⟨.obj (us.foldl (fun acc f => Object.insert f.1 f.2 acc) []), ?_, ?_⟩
          · rw [List.cons_append, List.append_assoc, List.singleton_append, readValue,
              skip_cons (c := '\x7b') rfl]
            simp only [if_neg (show '\x7b' ≠ '"' by decide), if_neg (show '\x7b' ≠ '[' by decide),
              if_true, hopen, hreads, Option.bind_eq_bind, Option.bind_some]
          · have hus : (us.map Prod.fst).Nodup := by
              rw [← keys_docFields, hdocs, keys_docFields]
              exact hnodup
            rw [doc_obj]
            refine congrArg Doc.obj (funext fun key => ?_)
            rw [get_foldl_insert us [] hus key, Object.get_nil, Option.or_none, ← lookup_docFields,
              hdocs, lookup_docFields]

/-- Every canonical text is read back. -/
theorem readsBack (v : Value) (hv : v.WellFormed) : v.ReadsBack := by
  induction v using induction with
  | hnull =>
      intro fuel rest hfuel _
      cases fuel with
      | zero => exact absurd hfuel (by decide)
      | succ fuel => exact ⟨.null, rfl, rfl⟩
  | hbool b =>
      intro fuel rest hfuel _
      cases fuel with
      | zero => cases b <;> exact absurd hfuel (by decide)
      | succ fuel => cases b <;> exact ⟨_, rfl, rfl⟩
  | hnum n => exact readsBack_num n
  | hstr s => exact readsBack_str s
  | harr xs ih => exact readsBack_arr fun x hx => ih x hx (itemsWellFormed_iff.mp hv x hx)
  | hobj fields ih =>
      exact readsBack_obj hv.1 fun f hf => ih f hf (fieldsWellFormed_iff.mp hv.2 f hf)

/-- Reading a canonical text gives back what it means. -/
theorem parse_canonical {v : Value} (hv : v.WellFormed) :
    ∃ u, parse v.canonical = some u ∧ u.doc = v.doc := by
  have hends : Ends [] := fun c hc => by cases hc
  obtain ⟨u, hread, hdoc⟩ := readsBack v hv (v.canonical.toList.length + 1) [] (Nat.le_succ _) hends
  rw [List.append_nil, chars] at hread
  refine ⟨u, ?_, hdoc⟩
  rw [parse, hread]
  rfl

/-- Canonical texts tell apart what documents mean, and nothing else. -/
theorem canonical_eq_iff {v w : Value} (hv : v.WellFormed) (hw : w.WellFormed) :
    v.canonical = w.canonical ↔ v.doc = w.doc := by
  constructor
  · intro h
    obtain ⟨u, hu, hdoc⟩ := parse_canonical hv
    obtain ⟨u', hu', hdoc'⟩ := parse_canonical hw
    rw [h, hu'] at hu
    obtain rfl := Option.some.inj hu
    exact hdoc.symm.trans hdoc'
  · exact canonical_congr v w hv hw

/-! ### Objects made from fields -/

theorem mem_insert {f : String × Value} {key : String} {v : Value} {fields : Object}
    (h : f ∈ Object.insert key v fields) : f = (key, v) ∨ f ∈ fields := by
  induction fields with
  | nil => exact Or.inl (List.mem_singleton.mp h)
  | cons g fields ih =>
      rw [Object.insert] at h
      split at h
      · exact List.mem_cons.mp h
      · split at h
        · exact (List.mem_cons.mp h).imp id (List.mem_cons_of_mem _)
        · rcases List.mem_cons.mp h with heq | h
          · exact Or.inr (heq ▸ List.mem_cons_self ..)
          · exact (ih h).imp id (List.mem_cons_of_mem _)

/-- An object keeps its keys in order. -/
theorem pairwise_insert {key : String} {v : Value} {fields : Object}
    (h : fields.Pairwise fun f g => f.1 < g.1) :
    (Object.insert key v fields).Pairwise fun f g => f.1 < g.1 := by
  induction fields with
  | nil => exact List.pairwise_singleton _ _
  | cons g fields ih =>
      have hg := List.pairwise_cons.mp h
      rw [Object.insert]
      split
      · rename_i hlt
        refine List.pairwise_cons.mpr ⟨fun f hf => ?_, h⟩
        rcases List.mem_cons.mp hf with rfl | hf
        · exact hlt
        · exact hlt.trans (hg.1 f hf)
      · rename_i hge
        split
        · rename_i heq
          exact List.pairwise_cons.mpr ⟨fun f hf => heq ▸ hg.1 f hf, hg.2⟩
        · rename_i hne
          refine List.pairwise_cons.mpr ⟨fun f hf => ?_, ih hg.2⟩
          rcases mem_insert hf with rfl | hf
          · exact lt_of_le_of_ne (not_lt.mp hge) (Ne.symm hne)
          · exact hg.1 f hf

theorem wellFormed_ofFields {fields : Object} (h : ∀ f ∈ fields, f.2.WellFormed) :
    (ofFields fields).WellFormed := by
  have hall : ∀ acc : Object, (acc.Pairwise fun f g => f.1 < g.1) → (∀ f ∈ acc, f.2.WellFormed) →
      ((fields.foldl (fun acc f => Object.insert f.1 f.2 acc) acc).Pairwise fun f g => f.1 < g.1) ∧
        ∀ f ∈ fields.foldl (fun acc f => Object.insert f.1 f.2 acc) acc, f.2.WellFormed := by
    induction fields with
    | nil => exact fun acc hsorted hacc => ⟨hsorted, hacc⟩
    | cons g fields ih =>
        intro acc hsorted hacc
        obtain ⟨hg, hfields⟩ := List.forall_mem_cons.mp h
        refine ih hfields _ (pairwise_insert hsorted) fun f hf => ?_
        rcases mem_insert hf with rfl | hf
        · exact hg
        · exact hacc f hf
  obtain ⟨hsorted, hwf⟩ := hall [] List.Pairwise.nil fun f hf => absurd hf List.not_mem_nil
  exact ⟨List.pairwise_map.mpr (hsorted.imp fun hlt => hlt.ne), fieldsWellFormed_iff.mpr hwf⟩

/-- Fields with different keys are what the object maps its keys to. -/
theorem doc_ofFields {fields : Object} (h : (fields.map Prod.fst).Nodup) :
    (ofFields fields).doc = .obj fun key => (Object.get key fields).map doc := by
  rw [ofFields, doc_obj]
  refine congrArg Doc.obj (funext fun key => ?_)
  rw [get_foldl_insert fields [] h key, Object.get_nil, Option.or_none]

theorem doc_ofStr? {a b : Option String} (h : (ofStr? a).doc = (ofStr? b).doc) : a = b := by
  cases a with
  | none => cases b with
      | none => rfl
      | some b => cases h
  | some a => cases b with
      | none => cases h
      | some b => exact congrArg some (Doc.str.inj h)

end Value

end Json
