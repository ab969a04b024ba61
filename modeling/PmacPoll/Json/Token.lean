import PmacPoll.Json.Text

/-!
# JSON tokens

A JSON text is cut into tokens; blanks between them are spaces, tabs, carriage returns and line
feeds. Of a number only one thing is kept: its value, if it is written as digits alone.
-/

namespace PmacPoll.Json

/-- A piece of a JSON text. -/
inductive Token where
  | openBrace
  | closeBrace
  | openBracket
  | closeBracket
  | comma
  | colon
  | null
  | truth (value : Bool)
  /-- A number, with its value if it has no sign, fraction or exponent. -/
  | number (natural : Option Nat)
  | string (items : List Item)
  deriving DecidableEq, Repr

/-- The blanks of JSON. -/
def isSpace (c : Char) : Bool :=
  c == ' ' || c == '\t' || c == '\r' || c == '\n'

/-- Takes digits, of which there has to be at least one. -/
def readDigits (cs : List Char) : Option (List Char × List Char) :=
  let digits := cs.takeWhile Char.isDigit
  if digits.isEmpty then none else some (digits, cs.dropWhile Char.isDigit)

/-- Takes a fraction if there is one, and tells whether there was. -/
def readFraction : List Char → Option (Bool × List Char)
  | '.' :: rest => (readDigits rest).map fun (_, rest) => (true, rest)
  | cs => some (false, cs)

/-- Takes a sign if there is one. -/
def dropSign : List Char → List Char
  | '+' :: rest => rest
  | '-' :: rest => rest
  | cs => cs

/-- Takes an exponent if there is one, and tells whether there was. -/
def readExponent : List Char → Option (Bool × List Char)
  | c :: rest =>
    if c == 'e' || c == 'E' then (readDigits (dropSign rest)).map fun (_, rest) => (true, rest)
    else some (false, c :: rest)
  | [] => some (false, [])

/-- The value of decimal digits. -/
def decimalValue (digits : List Char) : Nat :=
  digits.foldl (fun n c => 10 * n + (c.toNat - '0'.toNat)) 0

/-- Takes a number without a sign: its value if it is written as digits alone. No digit follows a
    zero in front. -/
def readUnsigned (cs : List Char) : Option (Option Nat × List Char) := do
  let (digits, rest) ← readDigits cs
  if digits.head? = some '0' && digits.length ≠ 1 then none
  else
    let (hasFraction, rest) ← readFraction rest
    let (hasExponent, rest) ← readExponent rest
    return (if hasFraction || hasExponent then none else some (decimalValue digits), rest)

/-- Takes one token that is not a blank. -/
def readToken : List Char → Option (Token × List Char)
  | '{' :: rest => some (.openBrace, rest)
  | '}' :: rest => some (.closeBrace, rest)
  | '[' :: rest => some (.openBracket, rest)
  | ']' :: rest => some (.closeBracket, rest)
  | ',' :: rest => some (.comma, rest)
  | ':' :: rest => some (.colon, rest)
  | '"' :: rest => (readString rest).map fun (items, rest) => (.string items, rest)
  | 'n' :: 'u' :: 'l' :: 'l' :: rest => some (.null, rest)
  | 't' :: 'r' :: 'u' :: 'e' :: rest => some (.truth true, rest)
  | 'f' :: 'a' :: 'l' :: 's' :: 'e' :: rest => some (.truth false, rest)
  | '-' :: rest => (readUnsigned rest).map fun (_, rest) => (.number none, rest)
  | cs => (readUnsigned cs).map fun (natural, rest) => (.number natural, rest)

/-! ### Tokens use up characters -/

/-- Reading digits uses up a character at least. -/
theorem length_lt_of_readDigits {cs rest digits : List Char}
    (h : readDigits cs = some (digits, rest)) : rest.length < cs.length := by
  unfold readDigits at h
  cases cs with
  | nil => simp at h
  | cons c cs =>
    -- the first digit is used up, whatever follows
    by_cases hc : c.isDigit = true
    · simp only [List.takeWhile_cons, hc, if_true, List.isEmpty_cons, Bool.false_eq_true, if_false,
        List.dropWhile_cons, Option.some.injEq, Prod.mk.injEq] at h
      rw [← h.2]
      exact Nat.lt_succ_of_le (List.dropWhile_sublist _).length_le
    · simp [hc] at h

/-- Reading a fraction adds no characters, and uses up none if there is no fraction. -/
theorem length_le_of_readFraction {cs rest : List Char} {b : Bool}
    (h : readFraction cs = some (b, rest)) : rest.length ≤ cs.length := by
  unfold readFraction at h
  split at h
  · simp only [Option.map_eq_some_iff, Prod.mk.injEq] at h
    obtain ⟨⟨_, _⟩, hd, _, rfl⟩ := h
    have := length_lt_of_readDigits hd
    simp only [List.length_cons]
    omega
  · simp only [Option.some.injEq, Prod.mk.injEq] at h
    exact Nat.le_of_eq (congrArg List.length h.2.symm)

/-- Nor does dropping a sign, which may be missing. -/
theorem length_dropSign_le (cs : List Char) : (dropSign cs).length ≤ cs.length := by
  unfold dropSign
  split <;> simp

/-- Nor does reading an exponent, which may be missing as well. -/
theorem length_le_of_readExponent {cs rest : List Char} {b : Bool}
    (h : readExponent cs = some (b, rest)) : rest.length ≤ cs.length := by
  unfold readExponent at h
  split at h
  · next c cs =>
    split at h
    · simp only [Option.map_eq_some_iff, Prod.mk.injEq] at h
      obtain ⟨⟨_, _⟩, hd, _, rfl⟩ := h
      have := length_lt_of_readDigits hd
      have := length_dropSign_le cs
      simp only [List.length_cons]
      omega
    · simp only [Option.some.injEq, Prod.mk.injEq] at h
      exact Nat.le_of_eq (congrArg List.length h.2.symm)
  · simp only [Option.some.injEq, Prod.mk.injEq] at h
    exact Nat.le_of_eq (congrArg List.length h.2.symm)

/-- Reading a number uses up a digit at least. -/
theorem length_lt_of_readUnsigned {cs rest : List Char} {natural : Option Nat}
    (h : readUnsigned cs = some (natural, rest)) : rest.length < cs.length := by
  unfold readUnsigned at h
  simp only [Option.bind_eq_bind, Option.bind_eq_some_iff] at h
  obtain ⟨⟨_, r₁⟩, hd, h⟩ := h
  split at h
  · exact nomatch h
  · simp only [Option.bind_eq_some_iff, Option.pure_def, Option.some.injEq, Prod.mk.injEq] at h
    obtain ⟨⟨_, r₂⟩, hf, ⟨_, r₃⟩, he, _, rfl⟩ := h
    have := length_lt_of_readDigits hd
    have := length_le_of_readFraction hf
    have := length_le_of_readExponent he
    simp only at *
    omega

/-- A token takes a character at least, so that reading one after another comes to an end. -/
theorem length_lt_of_readToken {cs rest : List Char} {token : Token}
    (h : readToken cs = some (token, rest)) : rest.length < cs.length := by
  unfold readToken at h
  split at h
  -- strings, and numbers with and without a sign; any other token is a fixed run of characters
  case h_7 =>
    simp only [Option.map_eq_some_iff, Prod.mk.injEq] at h
    obtain ⟨⟨_, _⟩, hs, _, rfl⟩ := h
    exact Nat.lt_succ_of_lt (length_lt_of_readString hs)
  case h_11 =>
    simp only [Option.map_eq_some_iff, Prod.mk.injEq] at h
    obtain ⟨⟨_, _⟩, hs, _, rfl⟩ := h
    exact Nat.lt_succ_of_lt (length_lt_of_readUnsigned hs)
  case h_12 =>
    simp only [Option.map_eq_some_iff, Prod.mk.injEq] at h
    obtain ⟨⟨_, _⟩, hs, _, rfl⟩ := h
    exact length_lt_of_readUnsigned hs
  all_goals
    simp only [Option.some.injEq, Prod.mk.injEq] at h
    rw [← h.2]
    simp only [List.length_cons]
    omega

/-- Cuts a text into tokens, in front of which those read before stand in reverse. -/
def tokensFrom (read : List Token) (cs : List Char) : Option (List Token) :=
  match cs with
  | [] => some read.reverse
  | c :: rest =>
    if isSpace c then tokensFrom read rest
    else
      match _h : readToken (c :: rest) with
      | some (token, rest) => tokensFrom (token :: read) rest
      | none => none
termination_by cs.length
decreasing_by
  · simp
  · exact length_lt_of_readToken _h

/-- Cuts a text into tokens. -/
def tokens (text : String) : Option (List Token) :=
  tokensFrom [] text.toList

end PmacPoll.Json
