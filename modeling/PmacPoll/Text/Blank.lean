/-!
# Blanks, pieces and words

Unicode's White_Space property, and the ways to cut a text that hang on it: `trim` takes the blanks
off both ends, `words` are the longest runs without a blank. `pieces` cuts a list at every
separator, so that joining the pieces with separators gives the list back.
-/

namespace PmacPoll.Text

/-- The characters with the Unicode property White_Space. -/
def isBlank (c : Char) : Bool :=
  let n := c.toNat
  (0x09 ≤ n && n ≤ 0x0D) || n == 0x20 || n == 0x85 || n == 0xA0 || n == 0x1680 ||
    (0x2000 ≤ n && n ≤ 0x200A) || n == 0x2028 || n == 0x2029 || n == 0x202F || n == 0x205F ||
    n == 0x3000

/-- The runs between separators: one more than there are separators, empty runs included. -/
def pieces {α : Type} (isSeparator : α → Bool) : List α → List (List α)
  | [] => [[]]
  | c :: rest =>
    if isSeparator c then [] :: pieces isSeparator rest
    else match pieces isSeparator rest with
      | [] => [[c]]
      | piece :: more => (c :: piece) :: more

/-- The longest runs without a blank. -/
def words (text : String) : List String :=
  ((pieces isBlank text.toList).filter (· ≠ [])).map String.ofList

/-- The text without the blanks at its ends. -/
def trim (text : String) : String :=
  String.ofList ((text.toList.dropWhile isBlank).reverse.dropWhile isBlank).reverse

/-- The lines that are ended by a carriage return; what follows the last one is no line. -/
def endedLines (text : String) : List String :=
  ((pieces (· == '\r') text.toList).dropLast).map String.ofList

/-- The texts with a single space between neighbours. -/
def unwords : List String → String
  | [] => ""
  | [word] => word
  | word :: more => word ++ " " ++ unwords more

/-- There is always a piece, if only an empty one. -/
theorem pieces_ne_nil {α : Type} (isSeparator : α → Bool) (l : List α) :
    pieces isSeparator l ≠ [] := by
  cases l with
  | nil => simp [pieces]
  | cons c rest =>
    simp only [pieces]
    split
    · simp
    · split <;> simp

end PmacPoll.Text
