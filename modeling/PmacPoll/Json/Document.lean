import PmacPoll.Json.Token

/-!
# Settings documents

A document is a JSON object or array; what matters are its own members or elements, and of a nested
object or array only that it is well-formed. A machine with a stack reads the tokens one by one, so
that nesting may be as deep as it likes.

`fields` lays the members of an object, or the elements of an array, out in the order of given
names.
-/

namespace PmacPoll.Json

/-- A value as far as settings care. -/
inductive Value where
  | natural (n : Nat)
  | truth (value : Bool)
  | string (items : List Item)
  /-- Null, another number, an object or an array. -/
  | other
  deriving DecidableEq, Repr

/-- The value of a token that is a value by itself. -/
def Token.value? : Token → Option Value
  | .null => some .other
  | .truth value => some (.truth value)
  | .number (some n) => some (.natural n)
  | .number none => some .other
  | .string items => some (.string items)
  | _ => none

/-- The two kinds of nesting. -/
inductive Nesting where
  | object
  | array
  deriving DecidableEq, Repr

/-- What may come next. -/
inductive Expected where
  | value
  | valueOrClose
  | key
  | keyOrClose
  | colon
  | commaOrClose
  | nothing
  deriving DecidableEq, Repr

/-- A document: an object or an array, and its members or elements with their values. -/
structure Document where
  nesting : Nesting
  entries : List (List Item × Value)
  deriving Repr

namespace Document

/-- How far a document has been read: what is open, from the inside out, what may come next, the
    last key, and the entries so far in reverse. -/
structure Reading where
  nesting : Nesting
  stack : List Nesting
  expected : Expected
  key : List Item := []
  entries : List (List Item × Value) := []

namespace Reading

/-- Notes the value of an entry, if it is one of the document itself. -/
def note (r : Reading) (value : Value) : Reading :=
  match r.stack with
  | [_] => { r with entries := (r.key, value) :: r.entries }
  | _ => r

/-- Opens an object or an array. -/
def enter (r : Reading) (nesting : Nesting) : Reading :=
  { r.note .other with
    stack := nesting :: r.stack
    expected := match nesting with
      | .object => .keyOrClose
      | .array => .valueOrClose }

/-- Closes what is open inmost, if it is of the given kind. -/
def leave (r : Reading) (nesting : Nesting) : Option Reading :=
  match r.stack with
  | inner :: outer =>
    if inner = nesting then
      some { r with stack := outer, expected := if outer.isEmpty then .nothing else .commaOrClose }
    else none
  | [] => none

/-- Reads the first token of a value. -/
def beginValue (r : Reading) : Token → Option Reading
  | .openBrace => some (r.enter .object)
  | .openBracket => some (r.enter .array)
  | token => token.value?.map fun value => { r.note value with expected := .commaOrClose }

/-- Reads a key. -/
def readKey (r : Reading) : Token → Option Reading
  | .string items => some { r with key := items, expected := .colon }
  | _ => none

/-- Reads one token. -/
def step (r : Reading) (token : Token) : Option Reading :=
  match r.expected with
  | .value => r.beginValue token
  | .valueOrClose => if token = .closeBracket then r.leave .array else r.beginValue token
  | .key => r.readKey token
  | .keyOrClose => if token = .closeBrace then r.leave .object else r.readKey token
  | .colon => if token = .colon then some { r with expected := .value } else none
  | .commaOrClose =>
    match token with
    | .closeBrace => r.leave .object
    | .closeBracket => r.leave .array
    | .comma =>
      -- After a comma neither kind of nesting may close at once.
      match r.stack with
      | .object :: _ => some { r with expected := .key }
      | .array :: _ => some { r with expected := .value }
      | [] => none
    | _ => none
  | .nothing => none

end Reading

/-- The document of some tokens. -/
def ofTokens? : List Token → Option Document
  | .openBrace :: rest => finish ⟨.object, [.object], .keyOrClose, [], []⟩ rest
  | .openBracket :: rest => finish ⟨.array, [.array], .valueOrClose, [], []⟩ rest
  | _ => none
where
  /-- Reads the tokens to the end, where the document has to be closed. -/
  finish (r : Reading) (tokens : List Token) : Option Document := do
    let r ← tokens.foldlM Reading.step r
    if r.expected = .nothing then some ⟨r.nesting, r.entries.reverse⟩ else none

/-- Reads a document. -/
def parse? (text : String) : Option Document := do
  ofTokens? (← tokens text)

/-- The values of the named fields, in the order of the names. An object may have other members too,
    but each key has to be a text and none of the names may come twice. An array gives the values in
    order, and may stop early. -/
def fields (names : List String) (d : Document) : Option (List (Option Value)) :=
  match d.nesting with
  | .object => do
    let members ← d.entries.mapM fun (key, value) =>
      (text? key).map fun key => (String.ofList key, value)
    -- Other members are passed over, and may come more than once.
    let known := members.filter fun (key, _) => names.contains key
    if (known.map (·.1)).Nodup then some (names.map fun name => known.lookup name) else none
  | .array =>
    if d.entries.length ≤ names.length then
      some (names.zipIdx.map fun (_, i) => d.entries[i]?.map (·.2))
    else none

end Document

/-- A number below `bound`, or the default of an absent field. -/
def natural? (bound default : Nat) : Option Value → Option Nat
  | none => some default
  | some (.natural n) => if n < bound then some n else none
  | some _ => none

/-- A truth value, or the default of an absent field. -/
def truth? (default : Bool) : Option Value → Option Bool
  | none => some default
  | some (.truth value) => some value
  | some _ => none

/-- A text; the field has to be there. -/
def string? : Option Value → Option String
  | some (.string items) => (text? items).map String.ofList
  | _ => none

/-- An object of members that are written already, without blanks. -/
def writeObject (members : List (String × String)) : String :=
  "\x7b" ++ String.intercalate "," (members.map fun (key, value) => quote key ++ ":" ++ value) ++
    "\x7d"

end PmacPoll.Json
