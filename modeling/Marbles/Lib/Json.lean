import Mathlib.Algebra.Order.Ring.Int
import Mathlib.Data.List.Basic
import Mathlib.Data.String.Basic

/-!
# JSON values

A JSON document as a program holds it after parsing. Numbers are integers: a document
with a fraction or an exponent is not one of these. An object is an association list
kept in key order, which is what a map type with ordered keys gives; `Object.insert` is
its insertion, `Object.get` its lookup.

The reading functions are total and shallow, as accessors of JSON libraries are: they
look at one constructor and return nothing on the others.
-/

namespace Json

/-- A JSON document whose numbers are integers. What a parser reads as a floating-point number,
one with a fraction or an exponent, is left out: printing such a number and reading it again
depends on the parser, so a result that needs it says so on its own. -/
inductive Value where
  | null
  | bool (b : Bool)
  | num (n : Int)
  | str (s : String)
  | arr (xs : List Value)
  | obj (fields : List (String × Value))
  deriving Inhabited

/-- The fields of an object, in key order. -/
abbrev Object := List (String × Value)

namespace Object

/-- Insert or replace, keeping the keys in order. -/
def insert (key : String) (value : Value) : Object → Object
  | [] => [(key, value)]
  | (k, v) :: fields =>
      if key < k then (key, value) :: (k, v) :: fields
      else if key = k then (key, value) :: fields
      else (k, v) :: insert key value fields

/-- Remove a key. -/
def remove (key : String) (fields : Object) : Object := fields.filter fun f => f.1 ≠ key

/-- The value under a key. -/
def get (key : String) (fields : Object) : Option Value := fields.lookup key

/-- A shallow merge in which a `null` removes its key. -/
def merge (fields incoming : Object) : Object :=
  incoming.foldl (fun acc f => match f.2 with
    | .null => acc.remove f.1
    | v => acc.insert f.1 v) fields

@[simp] theorem get_nil (key : String) : get key [] = none := rfl

theorem get_cons (key k : String) (v : Value) (fields : Object) :
    get key ((k, v) :: fields) = if key = k then some v else get key fields := by
  by_cases h : key = k
  · subst h
    simp [get]
  · have hb : (key == k) = false := by simpa using h
    simp [get, List.lookup_cons, hb, h]

/-- The key inserted is found, and every other key is found as before. -/
theorem get_insert (key key' : String) (value : Value) (fields : Object) :
    get key' (insert key value fields) = if key' = key then some value else get key' fields := by
  induction fields with
  | nil => exact get_cons ..
  | cons f fields ih =>
      obtain ⟨k, v⟩ := f
      rw [insert]
      split
      · exact get_cons ..
      · split
        · rename_i hk
          subst hk
          rw [get_cons, get_cons]
          split <;> rfl
        · rename_i hk
          rw [get_cons, get_cons, ih]
          by_cases h : key' = k
          · simp only [if_pos h, if_neg (fun hkey : key' = key => hk (hkey.symm.trans h))]
          · simp only [if_neg h]

end Object

namespace Value

/-- The field of an object, `null` when there is none: indexing by a string. -/
def field (key : String) : Value → Value
  | .obj fields => (Object.get key fields).getD .null
  | _ => .null

/-- The field of an object, if it is there. -/
def get (key : String) : Value → Option Value
  | .obj fields => Object.get key fields
  | _ => none

theorem field_eq (key : String) (v : Value) : v.field key = (v.get key).getD .null := by
  cases v <;> rfl

/-- Assign a field; a `null` becomes an object first. -/
def set (v : Value) (key : String) (value : Value) : Value :=
  match v with
  | .obj fields => .obj (Object.insert key value fields)
  | .null => .obj [(key, value)]
  | other => other

/-- The string, if it is one. -/
def asStr : Value → Option String
  | .str s => some s
  | _ => none

/-- The integer, if it is one. -/
def asInt : Value → Option Int
  | .num n => some n
  | _ => none

/-- The integer, if it is one that fits in 64 bits. -/
def asI64 (v : Value) : Option Int := v.asInt.filter fun n => -2 ^ 63 ≤ n ∧ n < 2 ^ 63

/-- The fields, if it is an object. -/
def asObject : Value → Option Object
  | .obj fields => some fields
  | _ => none

/-- The items, if it is an array. -/
def asArray : Value → Option (List Value)
  | .arr xs => some xs
  | _ => none

/-- A list of decoded items, if it is an array all of whose items decode. -/
def asList {α : Type} (decode : Value → Option α) : Value → Option (List α)
  | .arr xs => xs.mapM decode
  | _ => none

/-- A string or `null`. -/
def ofStr? : Option String → Value
  | some s => .str s
  | none => .null

/-- An integer or `null`. -/
def ofInt? : Option Int → Value
  | some n => .num n
  | none => .null

@[simp] theorem asStr_str (s : String) : (Value.str s).asStr = some s := rfl
@[simp] theorem asInt_num (n : Int) : (Value.num n).asInt = some n := rfl
@[simp] theorem asObject_obj (fields : Object) : (Value.obj fields).asObject = some fields := rfl

@[simp] theorem asStr_ofStr? (s : Option String) : (ofStr? s).asStr = s := by cases s <;> rfl
@[simp] theorem asInt_ofInt? (n : Option Int) : (ofInt? n).asInt = n := by cases n <;> rfl

/-- A list that was encoded item by item decodes to itself. -/
theorem asList_map {α : Type} {decode : Value → Option α} {encode : α → Value}
    (h : ∀ a, decode (encode a) = some a) (xs : List α) :
    (Value.arr (xs.map encode)).asList decode = some xs := by
  rw [asList]
  induction xs with
  | nil => rfl
  | cons x xs ih =>
      rw [List.map_cons, List.mapM_cons, h, ih]
      rfl

/-! ### Text -/

/-- A string as it is written in a document. Control characters are escaped, all others stand for
themselves. -/
def quote (s : String) : String :=
  let hex := fun n : Nat => String.singleton (Nat.digitChar n)
  "\"" ++ String.join (s.toList.map fun c => match c with
    | '"' => "\\\""
    | '\\' => "\\\\"
    | '\n' => "\\n"
    | '\r' => "\\r"
    | '\t' => "\\t"
    | c =>
        if c.toNat = 8 then "\\b"
        else if c.toNat = 12 then "\\f"
        else if c.toNat < 32 then "\\u00" ++ hex (c.toNat / 16) ++ hex (c.toNat % 16)
        else c.toString) ++ "\""

mutual

/-- The compact text of a document. -/
def text : Value → String
  | .null => "null"
  | .bool b => if b then "true" else "false"
  | .num n => toString n
  | .str s => quote s
  | .arr xs => "[" ++ ",".intercalate (textItems xs) ++ "]"
  | .obj fields => "\x7b" ++ ",".intercalate (textFields fields) ++ "\x7d"

def textItems : List Value → List String
  | [] => []
  | x :: xs => text x :: textItems xs

def textFields : List (String × Value) → List String
  | [] => []
  | (k, v) :: fields => (quote k ++ ":" ++ text v) :: textFields fields

end

/-! ### A text is one line -/

/-- A text without a newline. -/
def Unbroken (s : String) : Prop := '\n' ∉ s.toList

instance (s : String) : Decidable (Unbroken s) := inferInstanceAs (Decidable ('\n' ∉ s.toList))

theorem Unbroken.append {s s' : String} (h : Unbroken s) (h' : Unbroken s') :
    Unbroken (s ++ s') := by
  rw [Unbroken, String.toList_append, List.mem_append, not_or]
  exact ⟨h, h'⟩

theorem Unbroken.join {l : List String} (h : ∀ s ∈ l, Unbroken s) : Unbroken (String.join l) := by
  rw [Unbroken, String.toList_join, List.mem_flatMap]
  rintro ⟨s, hs, hc⟩
  exact h s hs hc

theorem Unbroken.intercalate {sep : String} (hsep : Unbroken sep) :
    ∀ {l : List String}, (∀ s ∈ l, Unbroken s) → Unbroken (sep.intercalate l)
  | [], _ => by
      rw [String.intercalate_nil]
      exact List.not_mem_nil
  | [s], h => by
      rw [String.intercalate_singleton]
      exact h s (List.mem_singleton_self s)
  | s :: s' :: l, h => by
      rw [String.intercalate_cons_cons]
      exact ((h s (List.mem_cons_self ..)).append hsep).append
        (Unbroken.intercalate hsep fun x hx => h x (List.mem_cons_of_mem _ hx))

theorem digitChar_ne_newline (n : Nat) : n.digitChar ≠ '\n' := by
  by_cases h : n < 16
  · have hall : ∀ m < 16, Nat.digitChar m ≠ '\n' := by decide
    exact hall n h
  · have hstar : n.digitChar = '*' := by
      unfold Nat.digitChar
      repeat rw [if_neg (by omega)]
    rw [hstar]
    decide

theorem unbroken_quote (s : String) : Unbroken (quote s) := by
  have hhex : ∀ n, Unbroken (String.singleton (Nat.digitChar n)) := by
    intro n
    rw [Unbroken, String.toList_singleton, List.mem_singleton]
    exact (digitChar_ne_newline n).symm
  have hquote : Unbroken "\"" := by decide
  refine (hquote.append (.join ?_)).append hquote
  intro piece hpiece
  obtain ⟨c, -, rfl⟩ := List.mem_map.mp hpiece
  split
  · decide
  · decide
  · decide
  · decide
  · decide
  · rename_i hnewline _ _
    split
    · decide
    · split
      · decide
      · split
        · have hu : Unbroken "\\u00" := by decide
          exact (hu.append (hhex _)).append (hhex _)
        · rw [Unbroken, Char.toString, String.toList_singleton, List.mem_singleton]
          exact fun h => hnewline h.symm

theorem unbroken_repr (n : Nat) : Unbroken n.repr := by
  rw [Unbroken, Nat.toList_repr]
  intro h
  exact absurd (Nat.isDigit_of_mem_toDigits (by decide) (by decide) h) (by decide)

theorem unbroken_int : ∀ n : Int, Unbroken (toString n)
  | .ofNat n => unbroken_repr n
  | .negSucc n => by
      have hsign : Unbroken "-" := by decide
      exact hsign.append (unbroken_repr (n + 1))

mutual

/-- The compact text of a document has no line break. -/
theorem unbroken_text : ∀ v : Value, Unbroken (text v)
  | .null => by decide
  | .bool true => by decide
  | .bool false => by decide
  | .num n => by
      rw [text]
      exact unbroken_int n
  | .str s => by
      rw [text]
      exact unbroken_quote s
  | .arr xs => by
      have hopen : Unbroken "[" := by decide
      have hclose : Unbroken "]" := by decide
      have hsep : Unbroken "," := by decide
      rw [text]
      exact (hopen.append (hsep.intercalate (unbroken_textItems xs))).append hclose
  | .obj fields => by
      have hopen : Unbroken "\x7b" := by decide
      have hclose : Unbroken "\x7d" := by decide
      have hsep : Unbroken "," := by decide
      rw [text]
      exact (hopen.append (hsep.intercalate (unbroken_textFields fields))).append hclose

theorem unbroken_textItems : ∀ xs : List Value, ∀ s ∈ textItems xs, Unbroken s
  | [], s, h => by
      rw [textItems] at h
      cases h
  | x :: xs, s, h => by
      rw [textItems] at h
      rcases List.mem_cons.mp h with rfl | h
      · exact unbroken_text x
      · exact unbroken_textItems xs s h

theorem unbroken_textFields : ∀ fields : List (String × Value), ∀ s ∈ textFields fields, Unbroken s
  | [], s, h => by
      rw [textFields] at h
      cases h
  | (k, v) :: fields, s, h => by
      rw [textFields] at h
      rcases List.mem_cons.mp h with rfl | h
      · have hsep : Unbroken ":" := by decide
        exact ((unbroken_quote k).append hsep).append (unbroken_text v)
      · exact unbroken_textFields fields s h

end

/-! ### Equality is decidable -/

mutual

def decEq : (v w : Value) → Decidable (v = w)
  | .null, .null => .isTrue rfl
  | .bool a, .bool b => if h : a = b then .isTrue (h ▸ rfl) else .isFalse (by simpa using h)
  | .num a, .num b => if h : a = b then .isTrue (h ▸ rfl) else .isFalse (by simpa using h)
  | .str a, .str b => if h : a = b then .isTrue (h ▸ rfl) else .isFalse (by simpa using h)
  | .arr xs, .arr ys => match decEqList xs ys with
      | .isTrue h => .isTrue (h ▸ rfl)
      | .isFalse h => .isFalse (by simpa using h)
  | .obj xs, .obj ys => match decEqFields xs ys with
      | .isTrue h => .isTrue (h ▸ rfl)
      | .isFalse h => .isFalse (by simpa using h)
  | .null, .bool _ | .null, .num _ | .null, .str _ | .null, .arr _ | .null, .obj _
  | .bool _, .null | .bool _, .num _ | .bool _, .str _ | .bool _, .arr _ | .bool _, .obj _
  | .num _, .null | .num _, .bool _ | .num _, .str _ | .num _, .arr _ | .num _, .obj _
  | .str _, .null | .str _, .bool _ | .str _, .num _ | .str _, .arr _ | .str _, .obj _
  | .arr _, .null | .arr _, .bool _ | .arr _, .num _ | .arr _, .str _ | .arr _, .obj _
  | .obj _, .null | .obj _, .bool _ | .obj _, .num _ | .obj _, .str _ | .obj _, .arr _ =>
      .isFalse nofun

def decEqList : (xs ys : List Value) → Decidable (xs = ys)
  | [], [] => .isTrue rfl
  | [], _ :: _ | _ :: _, [] => .isFalse nofun
  | x :: xs, y :: ys => match decEq x y, decEqList xs ys with
      | .isTrue h, .isTrue hs => .isTrue (h ▸ hs ▸ rfl)
      | .isFalse h, _ => .isFalse (fun he => h (List.cons.inj he).1)
      | _, .isFalse hs => .isFalse (fun he => hs (List.cons.inj he).2)

def decEqFields : (xs ys : List (String × Value)) → Decidable (xs = ys)
  | [], [] => .isTrue rfl
  | [], _ :: _ | _ :: _, [] => .isFalse nofun
  | (k, v) :: xs, (k', v') :: ys =>
      if hk : k = k' then match decEq v v', decEqFields xs ys with
        | .isTrue h, .isTrue hs => .isTrue (hk ▸ h ▸ hs ▸ rfl)
        | .isFalse h, _ => .isFalse (fun he => h (Prod.mk.inj (List.cons.inj he).1).2)
        | _, .isFalse hs => .isFalse (fun he => hs (List.cons.inj he).2)
      else .isFalse (fun he => hk (Prod.mk.inj (List.cons.inj he).1).1)

end

instance : DecidableEq Value := decEq

end Value

end Json
