import Mathlib.Data.List.Lex
import Mathlib.Data.String.Basic
import Marbles.Lib.Json
import Marbles.Lib.Sort

/-!
# Canonical texts of JSON documents

The text of a document that does not depend on the order in which the fields of its objects
are kept: keys are written in order and nothing is written between the parts.
-/

namespace Json

namespace Value

/-- An object with these fields, kept in the order of its keys. -/
def ofFields (fields : List (String × Value)) : Value :=
  .obj (fields.foldl (fun acc field => Object.insert field.1 field.2 acc) [])

mutual

/-- The text of a document with sorted keys. Two documents with the same entries have the same text,
whatever the order of the entries. -/
def canonical : Value → String
  | .null => "null"
  | .bool b => if b then "true" else "false"
  | .num n => toString n
  | .str s => quote s
  | .arr xs => "[" ++ ",".intercalate (canonicalItems xs) ++ "]"
  | .obj fields => "\x7b" ++
      ",".intercalate ((Sorting.sortOn Prod.fst (canonicalFields fields)).map Prod.snd) ++ "\x7d"

def canonicalItems : List Value → List String
  | [] => []
  | x :: xs => canonical x :: canonicalItems xs

/-- Each field with its key in front, to be sorted by it. -/
def canonicalFields : List (String × Value) → List (String × String)
  | [] => []
  | (k, v) :: fields => (k, quote k ++ ":" ++ canonical v) :: canonicalFields fields

end

end Value

end Json
