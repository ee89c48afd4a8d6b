import Marbles.Lib.Json
import Marbles.Lib.Numeral

/-!
# Reading JSON texts

A reader for the texts of documents without fractional numbers. It skips blanks, decodes every
escape, and of a field that is there twice it keeps the last value. Nesting is as deep as the fuel,
and a document of some text never needs more than the length of the text.

The reader is total by its fuel, and `none` stands for any error of the text. Only reading back
what was written needs the fuel to be enough.
-/

namespace Json

/-! ### Characters -/

def isBlank (c : Char) : Bool := c = ' ' || c = '\n' || c = '\r' || c = '\t'

def skip (cs : List Char) : List Char := cs.dropWhile isBlank

/-- Skip blanks and one character that has to be next. -/
def expect (c : Char) (cs : List Char) : Option (List Char) :=
  match skip cs with
  | d :: rest => if d = c then some rest else none
  | [] => none

/-! ### Strings -/

def hexValue (c : Char) : Option Nat :=
  if '0' ≤ c ∧ c ≤ '9' then some (c.toNat - '0'.toNat)
  else if 'a' ≤ c ∧ c ≤ 'f' then some (c.toNat - 'a'.toNat + 10)
  else if 'A' ≤ c ∧ c ≤ 'F' then some (c.toNat - 'A'.toNat + 10)
  else none

/-- Four hexadecimal digits. -/
def readHex : List Char → Option (Nat × List Char)
  | a :: b :: c :: d :: rest => do
      let a ← hexValue a
      let b ← hexValue b
      let c ← hexValue c
      let d ← hexValue d
      some (((a * 16 + b) * 16 + c) * 16 + d, rest)
  | _ => none

/-- A code unit, or a surrogate pair, after `\u`. A surrogate that stands alone is no character and
is refused. -/
def readUnicode (cs : List Char) : Option (Char × List Char) := do
  let (unit, rest) ← readHex cs
  if unit < 0xD800 ∨ 0xE000 ≤ unit then some (Char.ofNat unit, rest)
  else if 0xDC00 ≤ unit then none
  else match rest with
    | '\\' :: 'u' :: rest => do
        let (low, rest) ← readHex rest
        if 0xDC00 ≤ low ∧ low < 0xE000 then
          some (Char.ofNat (0x10000 + (unit - 0xD800) * 0x400 + (low - 0xDC00)), rest)
        else none
    | _ => none

/-- The character an escape of one letter stands for. The letters are those that JSON names. -/
def unescape (c : Char) : Option Char :=
  if c = '"' then some '"'
  else if c = '\\' then some '\\'
  else if c = '/' then some '/'
  else if c = 'n' then some '\n'
  else if c = 'r' then some '\r'
  else if c = 't' then some '\t'
  else if c = 'b' then some (Char.ofNat 8)
  else if c = 'f' then some (Char.ofNat 12)
  else none

/-- What follows a backslash. -/
def readEscape : List Char → Option (Char × List Char)
  | [] => none
  | c :: rest =>
      if c = 'u' then readUnicode rest
      else (unescape c).map fun d => (d, rest)

/-- The characters up to the closing quote, and what is behind it. -/
def readChars : Nat → List Char → Option (List Char × List Char)
  | 0, _ => none
  | _ + 1, [] => none
  | fuel + 1, c :: rest =>
      if c = '"' then some ([], rest)
      else if c = '\\' then do
        let (d, rest) ← readEscape rest
        let (ds, rest) ← readChars fuel rest
        some (d :: ds, rest)
      else if c.toNat < 32 then none
      else do
        let (ds, rest) ← readChars fuel rest
        some (c :: ds, rest)

/-- A string whose opening quote was read. -/
def readString (cs : List Char) : Option (String × List Char) := do
  let (found, rest) ← readChars (cs.length + 1) cs
  some (String.ofList found, rest)

/-! ### Numbers and words -/

/-- Digits without a leading zero, that are not the start of a fraction or an exponent. -/
def readDigits (cs : List Char) : Option (Nat × List Char) :=
  let digits := cs.takeWhile Char.isDigit
  let rest := cs.dropWhile Char.isDigit
  if digits = [] ∨ (digits.head? = some '0' ∧ digits.length ≠ 1) then none
  else if rest.head?.any fun c => c = '.' || c = 'e' || c = 'E' then none
  else some (Nat.ofDigitChars 10 digits 0, rest)

def readNumber : List Char → Option (Value × List Char)
  | [] => none
  | c :: rest =>
      if c = '-' then do
        let (n, rest) ← readDigits rest
        some (.num (-(n : Int)), rest)
      else do
        let (n, rest) ← readDigits (c :: rest)
        some (.num (n : Int), rest)

/-- A word that stands for a value. -/
def readWord (word : List Char) (v : Value) (cs : List Char) : Option (Value × List Char) :=
  if word.isPrefixOf cs then some (v, cs.drop word.length) else none

/-! ### Documents -/

mutual

def readValue : Nat → List Char → Option (Value × List Char)
  | 0, _ => none
  | fuel + 1, cs =>
      match skip cs with
      | [] => none
      | c :: rest =>
          if c = '"' then do
            let (s, rest) ← readString rest
            some (.str s, rest)
          else if c = '[' then
            match expect ']' rest with
            | some rest => some (.arr [], rest)
            | none => do
                let (xs, rest) ← readItems fuel rest
                some (.arr xs, rest)
          else if c = '\x7b' then
            match expect '\x7d' rest with
            | some rest => some (.obj [], rest)
            | none => do
                let (fields, rest) ← readFields fuel rest
                some (.obj (fields.foldl (fun acc f => Object.insert f.1 f.2 acc) []), rest)
          else if c = 'n' then readWord ['n', 'u', 'l', 'l'] .null (c :: rest)
          else if c = 't' then readWord ['t', 'r', 'u', 'e'] (.bool true) (c :: rest)
          else if c = 'f' then readWord ['f', 'a', 'l', 's', 'e'] (.bool false) (c :: rest)
          else readNumber (c :: rest)

/-- Items up to the closing bracket. The fuel bounds the depth and the length at once; the text is
always enough of it. -/
def readItems : Nat → List Char → Option (List Value × List Char)
  | 0, _ => none
  | fuel + 1, cs => do
      let (x, rest) ← readValue fuel cs
      match expect ']' rest with
      | some rest => some ([x], rest)
      | none => do
          let rest ← expect ',' rest
          let (xs, rest) ← readItems fuel rest
          some (x :: xs, rest)

/-- Fields up to the closing brace. Fields that come twice are kept here; the object takes the last
one. -/
def readFields : Nat → List Char → Option (List (String × Value) × List Char)
  | 0, _ => none
  | fuel + 1, cs => do
      let rest ← expect '"' cs
      let (key, rest) ← readString rest
      let rest ← expect ':' rest
      let (x, rest) ← readValue fuel rest
      match expect '\x7d' rest with
      | some rest => some ([(key, x)], rest)
      | none => do
          let rest ← expect ',' rest
          let (fields, rest) ← readFields fuel rest
          some ((key, x) :: fields, rest)

end

/-- The document of a text. -/
def parse (s : String) : Option Value := do
  let (v, rest) ← readValue (s.toList.length + 1) s.toList
  if skip rest = [] then some v else none

/-! ### Strings read back -/

/-- How a character is written in a string. -/
def escape (c : Char) : String :=
  let hex := fun n : Nat => String.singleton (Nat.digitChar n)
  match c with
  | '"' => "\\\""
  | '\\' => "\\\\"
  | '\n' => "\\n"
  | '\r' => "\\r"
  | '\t' => "\\t"
  | c =>
      if c.toNat = 8 then "\\b"
      else if c.toNat = 12 then "\\f"
      else if c.toNat < 32 then "\\u00" ++ hex (c.toNat / 16) ++ hex (c.toNat % 16)
      else c.toString

theorem quote_eq (s : String) :
    Value.quote s = "\"" ++ String.join (s.toList.map escape) ++ "\"" := rfl

theorem toList_quote (s : String) :
    (Value.quote s).toList = '"' :: (s.toList.flatMap fun c => (escape c).toList) ++ ['"'] := by
  rw [quote_eq]
  simp [List.flatMap_map]

theorem hexValue_digitChar {n : Nat} (h : n < 16) : hexValue (Nat.digitChar n) = some n := by
  have hall : ∀ n : Fin 16, hexValue (Nat.digitChar n) = some n.val := by decide
  exact hall ⟨n, h⟩

/-- A control character is spelled by its code. -/
theorem readEscape_control {c : Char} (h : c.toNat < 32) (rest : List Char) :
    readEscape ('u' :: '0' :: '0' :: Nat.digitChar (c.toNat / 16) :: Nat.digitChar (c.toNat % 16) ::
      rest) = some (c, rest) := by
  have hhigh := hexValue_digitChar (n := c.toNat / 16) (by omega)
  have hlow := hexValue_digitChar (n := c.toNat % 16) (by omega)
  have hzero : hexValue '0' = some 0 := by decide
  have hcode : ((0 * 16 + 0) * 16 + c.toNat / 16) * 16 + c.toNat % 16 = c.toNat := by omega
  have hhex : readHex ('0' :: '0' :: Nat.digitChar (c.toNat / 16) ::
      Nat.digitChar (c.toNat % 16) :: rest) = some (c.toNat, rest) := by
    simp only [readHex, hhigh, hlow, hzero, Option.bind_eq_bind, Option.bind_some, hcode]
  rw [readEscape, if_pos rfl, readUnicode, hhex]
  simp only [Option.bind_eq_bind, Option.bind_some]
  rw [if_pos (Or.inl (by omega)), Char.ofNat_toNat]

/-- What is written for a character is read as the character. -/
theorem readChars_escape (fuel : Nat) (c : Char) (rest : List Char) :
    readChars (fuel + 1) ((escape c).toList ++ rest) =
      (readChars fuel rest).bind fun r => some (c :: r.1, r.2) := by
  unfold escape
  -- The five named escapes, then the two control characters with a letter of their own, the other
  -- control characters, and the rest, which stand for themselves.
  split
  · rfl
  · rfl
  · rfl
  · rfl
  · rfl
  · rename_i hquote hslash _ _ _
    split
    · rename_i h
      have hc : c = Char.ofNat 8 := by rw [← h, Char.ofNat_toNat]
      rw [hc]
      rfl
    · split
      · rename_i h
        have hc : c = Char.ofNat 12 := by rw [← h, Char.ofNat_toNat]
        rw [hc]
        rfl
      · split
        · rename_i h
          have htext : ("\\u00" ++ String.singleton (Nat.digitChar (c.toNat / 16)) ++
              String.singleton (Nat.digitChar (c.toNat % 16))).toList ++ rest =
              '\\' :: 'u' :: '0' :: '0' :: Nat.digitChar (c.toNat / 16) ::
                Nat.digitChar (c.toNat % 16) :: rest := by
            simp
          rw [htext, readChars, if_neg (by decide), if_pos rfl, readEscape_control h]
          rfl
        · rename_i h
          have htext : c.toString.toList ++ rest = c :: rest := by simp [Char.toString]
          rw [htext, readChars, if_neg hquote, if_neg hslash, if_neg h]
          rfl

theorem readChars_quoted {cs : List Char} {fuel : Nat} (h : cs.length < fuel) (rest : List Char) :
    readChars fuel (cs.flatMap (fun c => (escape c).toList) ++ '"' :: rest) = some (cs, rest) := by
  induction cs generalizing fuel with
  | nil =>
      cases fuel with
      | zero => exact absurd h (Nat.not_lt_zero _)
      | succ fuel => rfl
  | cons c cs ih =>
      cases fuel with
      | zero => exact absurd h (Nat.not_lt_zero _)
      | succ fuel =>
          rw [List.flatMap_cons, List.append_assoc, readChars_escape,
            ih (Nat.lt_of_succ_lt_succ h)]
          rfl

theorem escape_ne_nil (c : Char) : 0 < (escape c).toList.length := by
  unfold escape
  split
  · decide
  · decide
  · decide
  · decide
  · decide
  · split
    · decide
    · split
      · decide
      · split
        · simp
        · simp [Char.toString]

theorem length_le_quoted (cs : List Char) :
    cs.length ≤ (cs.flatMap fun c => (escape c).toList).length := by
  induction cs with
  | nil => exact Nat.le_refl 0
  | cons c cs ih =>
      have hc := escape_ne_nil c
      rw [List.flatMap_cons, List.length_append, List.length_cons]
      omega

/-- A quoted string is read back. -/
theorem readString_quoted (s : String) (rest : List Char) :
    readString (s.toList.flatMap (fun c => (escape c).toList) ++ '"' :: rest) = some (s, rest) := by
  have hfuel := length_le_quoted s.toList
  rw [readString, readChars_quoted (by rw [List.length_append]; omega)]
  simp

/-! ### Numbers read back -/

/-- A number does not go on. -/
def Ends (rest : List Char) : Prop := ∀ c ∈ rest.head?, c = ',' ∨ c = ']' ∨ c = '\x7d'

theorem Ends.head_not_digit {rest : List Char} (h : Ends rest) :
    rest.takeWhile Char.isDigit = [] ∧ rest.dropWhile Char.isDigit = rest := by
  cases rest with
  | nil => exact ⟨rfl, rfl⟩
  | cons c rest =>
      have hc : c.isDigit = false := by
        rcases h c rfl with rfl | rfl | rfl <;> decide
      simp [hc]

theorem head_toDigits (n : Nat) (hn : n ≠ 0) : (Nat.toDigits 10 n).head? ≠ some '0' := by
  induction n using Nat.strongRecOn with
  | ind n ih =>
      by_cases hlt : n < 10
      · have hall : ∀ n : Fin 10, n.val ≠ 0 → some (Nat.digitChar n) ≠ some '0' := by decide
        rw [Nat.toDigits_of_lt_base hlt]
        exact hall ⟨n, hlt⟩ hn
      · rw [Nat.toDigits_of_base_le (by decide) (by omega),
          List.head?_append_of_ne_nil _ Nat.toDigits_ne_nil]
        exact ih (n / 10) (by omega) (by omega)

theorem readDigits_repr (n : Nat) {rest : List Char} (h : Ends rest) :
    readDigits (n.repr.toList ++ rest) = some (n, rest) := by
  have hdigits : ∀ c ∈ n.repr.toList, c.isDigit = true := fun c hc => Numeral.isDigit_of_mem_repr hc
  obtain ⟨htake, hdrop⟩ := h.head_not_digit
  have hplain : ¬ (rest.head?.any fun c => c = '.' || c = 'e' || c = 'E') = true := by
    cases rest with
    | nil => exact Bool.false_ne_true
    | cons c rest => rcases h c rfl with rfl | rfl | rfl <;> simp
  have hlead : ¬ (n.repr.toList = [] ∨
      n.repr.toList.head? = some '0' ∧ n.repr.toList.length ≠ 1) := by
    rw [Nat.toList_repr, not_or, not_and, not_not]
    refine ⟨Nat.toDigits_ne_nil, fun hzero => ?_⟩
    obtain rfl : n = 0 := by_contra fun hn => head_toDigits n hn hzero
    rfl
  rw [readDigits, List.takeWhile_append_of_pos hdigits, List.dropWhile_append_of_pos hdigits, htake,
    hdrop, List.append_nil, if_neg hlead, if_neg hplain, Nat.toList_repr,
    Nat.ofDigitChars_ten_toDigits]

/-- A number is read back. -/
theorem readNumber_toString (n : Int) {rest : List Char} (h : Ends rest) :
    readNumber ((toString n).toList ++ rest) = some (.num n, rest) := by
  cases n with
  | ofNat n =>
      have hdigits := readDigits_repr n h
      rw [Numeral.toList_ofNat]
      cases htext : n.repr.toList with
      | nil => exact absurd htext (by rw [Nat.toList_repr]; exact Nat.toDigits_ne_nil)
      | cons c cs =>
          rw [htext, List.cons_append] at hdigits
          have hc : c ≠ '-' := by
            intro heq
            have hdigit := Numeral.isDigit_of_mem_repr (n := n) (htext ▸ List.mem_cons_self ..)
            rw [heq] at hdigit
            exact absurd hdigit (by decide)
          rw [List.cons_append, readNumber, if_neg hc, hdigits]
          rfl
  | negSucc n =>
      rw [Numeral.toList_negSucc, List.cons_append, readNumber, if_pos rfl, readDigits_repr _ h]
      rfl

end Json
