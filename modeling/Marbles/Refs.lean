import Marbles.Store

/-!
# Canonical references

`marbles://<store_id>/<company>/<project>/<issue_id>`: the address of an issue in
another store. Only the parser is needed here; a store refuses a remote dependency
whose reference does not parse or does not name the issue it claims to.
-/

namespace Marbles

/-- One character the way `{:?}` prints it inside a text: the quote, the backslash and the four
control characters with a letter of their own get a backslash, the other control characters their
number. Past those the tables of Unicode decide which characters are printable; all of them are
printed as they are here, so a message that quotes, say, a combining mark differs in it. -/
def debugChar (c : Char) : String :=
  match c with
  | '"' => "\\\""
  | '\\' => "\\\\"
  | '\n' => "\\n"
  | '\r' => "\\r"
  | '\t' => "\\t"
  | '\x00' => "\\0"
  | c =>
      if c.toNat < 0x20 ∨ (0x7f ≤ c.toNat ∧ c.toNat < 0xa0) then
        "\\u\x7b" ++ String.ofList (Nat.toDigits 16 c.toNat) ++ "\x7d"
      else c.toString

/-- A text the way `{:?}` prints it. -/
def debugStr (s : String) : String :=
  "\"" ++ String.join (s.toList.map debugChar) ++ "\""

/-- Why a text is no canonical reference. The kinds are distinct, so that a caller can tell a typing
error from another scheme. -/
inductive RefError where
  | missingScheme
  | unknownScheme (scheme : String)
  | whitespace
  | trailingSlash
  | emptySegment (segment : String)
  | missingSegment (segment : String)
  | extraSegments (found : Nat)
  | invalidSegment (segment value : String)
  | emptyStoreId
  deriving DecidableEq, Repr

/-- The text an error is displayed with. -/
def RefError.display : RefError → String
  | .missingScheme => "canonical ref is missing the marbles:// scheme"
  | .unknownScheme scheme =>
      s!"canonical ref uses unknown scheme {debugStr scheme}; expected marbles://"
  | .whitespace => "canonical ref contains whitespace"
  | .trailingSlash => "canonical ref has a trailing slash"
  | .emptySegment segment => s!"canonical ref has an empty {segment} segment"
  | .missingSegment segment => s!"canonical ref is missing the {segment} segment"
  | .extraSegments found => s!"canonical ref has {found} path segments; expected exactly 4"
  | .invalidSegment segment value =>
      s!"canonical ref has an invalid {segment} {debugStr value}"
  | .emptyStoreId => "canonical ref has an empty store_id"

/-- An issue of some store, by its four segments. -/
structure CanonicalRef where
  storeId : String
  company : String
  project : String
  issueId : String
  deriving DecidableEq, Repr

/-- `str::split_once`: the parts before and after the first occurrence of `sep`. -/
def splitOnce (sep : List Char) : List Char → Option (List Char × List Char)
  | [] => none
  | c :: cs =>
      if sep.isPrefixOf (c :: cs) then some ([], (c :: cs).drop sep.length)
      else (splitOnce sep cs).map fun p => (c :: p.1, p.2)

/-- `validate_segment`. -/
def validSegment (value : List Char) : Bool :=
  !value.isEmpty && value ≠ ['.'] && value ≠ ['.', '.'] &&
    value.all fun c => (c.isAlphanum || c = '_' || c = '-' || c = '.')

namespace CanonicalRef

/-- The names of the four segments, in order. -/
def segmentNames : List String := ["store_id", "company", "project", "issue_id"]

/-- The first segment that fails a check, with its name. -/
def firstBad (ok : List Char → Bool) (parts : List (List Char)) : Option (String × List Char) :=
  (parts.zipIdx.find? fun p => !ok p.1).map fun p => (segmentNames.getD p.2 "path", p.1)

/-- The checks are made in the order of the source, which decides the error of a text with several
faults. -/
def parse (input : String) : Except RefError CanonicalRef :=
  let chars := input.toList
  if chars.any isWhitespace then .error .whitespace
  else if "marbles://".toList.isPrefixOf chars then
    let rest := chars.drop "marbles://".toList.length
    if rest.isEmpty then .error .emptyStoreId
    else if rest.getLast? = some '/' then .error .trailingSlash
    else
      let parts := rest.splitOn '/'
      match firstBad (fun p => !p.isEmpty) parts with
      | some (segment, _) => .error (.emptySegment segment)
      | none =>
          if parts.length < 4 then .error (.missingSegment (segmentNames.getD parts.length ""))
          else if parts.length > 4 then .error (.extraSegments parts.length)
          else match firstBad validSegment parts with
            | some (segment, value) => .error (.invalidSegment segment (String.ofList value))
            | none => match parts with
                | [store, company, project, issue] =>
                    .ok ⟨.ofList store, .ofList company, .ofList project, .ofList issue⟩
                | _ => .error .emptyStoreId
  else match splitOnce "://".toList chars with
    | some (scheme, _) => .error (.unknownScheme (.ofList scheme))
    | none => .error .missingScheme

/-- Does the reference name this store and this issue? -/
def names (r : CanonicalRef) (storeId issueId : String) : Bool :=
  r.storeId = storeId && r.issueId = issueId

/-- The text of a reference. -/
def display (r : CanonicalRef) : String :=
  s!"marbles://{r.storeId}/{r.company}/{r.project}/{r.issueId}"

example : (parse "marbles://a/b/c/d-1").toOption = some ⟨"a", "b", "c", "d-1"⟩ := by decide

end CanonicalRef

end Marbles
