import PmacPoll.OrderedMap
import PmacPoll.Text.Blank
import PmacPoll.Text.Substring

/-!
# Polled variables

A table holds the names that are polled and the last value of each, in the order in which the names
were added. The names are asked for in commands of at most forty, and the lines of a reply go to the
names of its command one by one.

Only a line that a carriage return ends is a value. When the numbers of lines and names differ, the
leading names still get their lines, and the difference is reported.
-/

namespace PmacPoll

/-- A reply with another number of lines than its command has names. -/
structure Mismatch where
  expected : Nat
  received : Nat
  /-- How many values were stored all the same. -/
  updated : Nat
  deriving DecidableEq, Repr

/-- The text of the error. -/
def Mismatch.message (m : Mismatch) : String :=
  "reply mismatch: expected " ++ toString m.expected ++ " values, received " ++
    toString m.received ++ " (updated " ++ toString m.updated ++ ")"

/-- The list cut into pieces of `size`, the last of which may be shorter. -/
def chunksOf {α : Type} (size : Nat) : List α → List (List α)
  | [] => []
  | a :: rest => (a :: rest.take (size - 1)) :: chunksOf size (rest.drop (size - 1))
termination_by l => l.length
decreasing_by simp only [List.length_drop, List.length_cons]; omega

/-- The names that are polled, and their values. -/
structure VariableTable where
  values : OrderedMap String String := .empty
  /-- The commands that ask for all names, kept in step with them. -/
  commands : List String := []

namespace VariableTable

/-- The most names that one command asks for. -/
def maxNames : Nat := 40

/-- The table without names. -/
def empty : VariableTable := {}

instance : Inhabited VariableTable := ⟨empty⟩

/-- The names in the order of their registration. -/
def names (t : VariableTable) : List String :=
  t.values.keys

/-- The names with their values. -/
def entries (t : VariableTable) : List (String × String) :=
  t.values.toList

/-- The number of names. -/
def size (t : VariableTable) : Nat :=
  t.values.size

/-- Is there no name? -/
def isEmpty (t : VariableTable) : Bool :=
  t.values.isEmpty

/-- Is the name registered? -/
def contains (t : VariableTable) (name : String) : Bool :=
  t.values.contains name

/-- The last value of a name; empty if it has none or is not registered. -/
def read (t : VariableTable) (name : String) : String :=
  (t.values.get? name).getD ""

/-- All names in one command. -/
def command (t : VariableTable) : String :=
  Text.unwords t.names

/-- The table of some values, with the commands that ask for their names. -/
def ofValues (values : OrderedMap String String) : VariableTable where
  values := values
  commands := (chunksOf maxNames values.keys).map Text.unwords

/-- Registers a name with an empty value; one that is registered keeps its place and its value. -/
def add (t : VariableTable) (name : String) : VariableTable :=
  if t.contains name then t else ofValues (t.values.insert name "").2

/-- Registers some names. -/
def addAll (t : VariableTable) (names : List String) : VariableTable :=
  names.foldl add t

/-- Removes a name; tells whether it was there. -/
def remove (t : VariableTable) (name : String) : Bool × VariableTable :=
  match t.values.erase name with
  | (some _, values) => (true, ofValues values)
  | (none, values) => (false, { t with values })

/-- Stores a value if its name is registered, and counts it. -/
def store : Nat × VariableTable → String × String → Nat × VariableTable
  | (count, t), (name, value) =>
    match t.values.replace name value with
    | (some _, values) => (count + 1, { t with values })
    | (none, _) => (count, t)

/-- Stores the lines of a reply under the given names: gives how many were stored, or the mismatch,
    and the table after it. -/
def assign (t : VariableTable) (names : List String) (reply : String) :
    Except Mismatch Nat × VariableTable :=
  -- `zip` stops at the shorter side: names without a line keep their values.
  let lines := Text.endedLines reply
  let (updated, t) := (names.zip lines).foldl store (0, t)
  (if names.length = lines.length then .ok updated
    else .error ⟨names.length, lines.length, updated⟩, t)

/-- Stores a reply to the command for all names. -/
def update (t : VariableTable) (reply : String) : Except Mismatch Nat × VariableTable :=
  t.assign t.names reply

/-- Stores a reply to a command for some names. -/
def updateChunk (t : VariableTable) (command reply : String) :
    Except Mismatch Nat × VariableTable :=
  t.assign (Text.words command) reply

/-- One line for each name, with its value. -/
def report (t : VariableTable) : String :=
  String.join (t.entries.map fun (name, value) => "[" ++ name ++ "] => " ++ value ++ "\n")

/-- The names that contain `part` and whose values are not `0`, each as `name=value` and a space;
    then every occurrence of `removed` is taken out. -/
def nonZero (t : VariableTable) (part removed : String) : String :=
  let chosen := t.entries.filter fun (name, value) => Text.contains name part && value != "0"
  Text.remove (String.join (chosen.map fun (name, value) => name ++ "=" ++ value ++ " ")) removed

end VariableTable

end PmacPoll
