import PmacPoll.Listener

/-!
# Logging changes

A change log watches some names and reports those whose value is not the one that it last saw. A
name that has not been seen yet is reported with whatever value it has.
-/

namespace PmacPoll

/-- A reported change. -/
structure Change where
  tier : Tier
  name : String
  value : String
  deriving DecidableEq, Repr

/-- The names that are watched, and the values last seen. -/
structure ChangeLog where
  names : List String
  last : Std.HashMap String String := {}

namespace ChangeLog

/-- Looks at one name: the values seen after it, and the changes with this one appended. -/
def see (table : VariableTable) :
    Std.HashMap String String × List (String × String) → String →
      Std.HashMap String String × List (String × String)
  | (last, changes), name =>
    let value := table.read name
    if last[name]? = some value then (last, changes)
    else (last.insert name value, changes ++ [(name, value)])

/-- The watched names whose values differ from those last seen, with their values. -/
def changes (log : ChangeLog) (table : VariableTable) : ChangeLog × List (String × String) :=
  let (last, changes) := log.names.foldl (see table) (log.last, [])
  ({ log with last }, changes)

instance : Listener ChangeLog Change where
  notify log notice :=
    let (log, changes) := log.changes notice.table
    (log, changes.map fun (name, value) => ⟨notice.tier, name, value⟩)

end ChangeLog

end PmacPoll
