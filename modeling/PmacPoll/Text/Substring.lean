/-!
# Substrings

Finding a text inside another one, and taking every occurrence of it out.
-/

namespace PmacPoll.Text

/-- Does `part` occur somewhere in the list? -/
def hasPart (part : List Char) : List Char → Bool
  | [] => part.isEmpty
  | c :: rest => part.isPrefixOf (c :: rest) || hasPart part rest

/-- Does `part` occur somewhere in `text`? -/
def contains (text part : String) : Bool :=
  hasPart part.toList text.toList

/-- The list from its `skip`-th character on, with the occurrences of `part` that do not overlap
    taken out, found from the left. -/
def dropPart (part : List Char) : (skip : Nat) → List Char → List Char
  | _, [] => []
  | skip + 1, _ :: rest => dropPart part skip rest
  | 0, c :: rest =>
    if part.isPrefixOf (c :: rest) then dropPart part (part.length - 1) rest
    else c :: dropPart part 0 rest

/-- The text without the occurrences of `part`; an empty `part` occurs nowhere. -/
def remove (text part : String) : String :=
  if part.isEmpty then text else String.ofList (dropPart part.toList 0 text.toList)

end PmacPoll.Text
