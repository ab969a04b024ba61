/-!
# JSON strings

A string is read as a list of items: characters, and code units that were written in hexadecimal.
Two code units may make one character, and a list of items is a text only if none of its surrogates
is alone. `quote` writes a text with the fewest escapes.
-/

namespace PmacPoll.Json

/-- A character of a string, or a code unit that was written in hexadecimal. -/
inductive Item where
  | char (c : Char)
  | unit (code : Nat)
  deriving DecidableEq, Repr

/-- The text of some items, if every high surrogate has its low one next to it and there are no
    other low ones. -/
def text? : List Item → Option (List Char)
  | [] => some []
  | .char c :: rest => (text? rest).map (c :: ·)
  | .unit high :: .unit low :: rest =>
    if 0xD800 ≤ high && high ≤ 0xDBFF then
      if 0xDC00 ≤ low && low ≤ 0xDFFF then
        let code := 0x10000 + (high - 0xD800) * 0x400 + (low - 0xDC00)
        (text? rest).map (Char.ofNat code :: ·)
      else none
    else if 0xDC00 ≤ high && high ≤ 0xDFFF then none
    else (text? (.unit low :: rest)).map (Char.ofNat high :: ·)
  | .unit code :: rest =>
    if 0xD800 ≤ code && code ≤ 0xDFFF then none
    else (text? rest).map (Char.ofNat code :: ·)

/-- The value of a hexadecimal digit. -/
def hexDigit? (c : Char) : Option Nat :=
  if '0' ≤ c && c ≤ '9' then some (c.toNat - '0'.toNat)
  else if 'a' ≤ c && c ≤ 'f' then some (c.toNat - 'a'.toNat + 10)
  else if 'A' ≤ c && c ≤ 'F' then some (c.toNat - 'A'.toNat + 10)
  else none

/-- The value of four hexadecimal digits. -/
def codeUnit? (a b c d : Char) : Option Nat := do
  return (((← hexDigit? a) * 16 + (← hexDigit? b)) * 16 + (← hexDigit? c)) * 16 + (← hexDigit? d)

/-- The character that an escape of one letter stands for. -/
def escaped? : Char → Option Char
  | '"' => some '"'
  | '\\' => some '\\'
  | '/' => some '/'
  | 'b' => some '\x08'
  | 'f' => some '\x0c'
  | 'n' => some '\n'
  | 'r' => some '\r'
  | 't' => some '\t'
  | _ => none

/-- Reads a string from behind its opening quote: its items, and what follows the closing quote. -/
def readString : List Char → Option (List Item × List Char)
  | [] => none
  | '"' :: rest => some ([], rest)
  | '\\' :: 'u' :: a :: b :: c :: d :: rest => do
    let code ← codeUnit? a b c d
    let (items, rest) ← readString rest
    return (.unit code :: items, rest)
  | '\\' :: e :: rest => do
    let c ← escaped? e
    let (items, rest) ← readString rest
    return (.char c :: items, rest)
  | c :: rest =>
    if c.toNat < 0x20 || c = '\\' then none
    else do
      let (items, rest) ← readString rest
      return (.char c :: items, rest)

/-- A string that was read is gone from what follows. -/
theorem length_lt_of_readString {cs rest : List Char} {items : List Item}
    (h : readString cs = some (items, rest)) : rest.length < cs.length := by
  -- every step of the recursion uses up a character
  fun_induction readString cs generalizing items rest with
  | case1 => exact nomatch h
  | case2 => simp_all
  | case3 a b c d cs ih =>
    simp only [Option.bind_eq_bind, Option.bind_eq_some_iff, Option.pure_def, Option.some.injEq,
      Prod.mk.injEq] at h
    obtain ⟨_, _, ⟨_, _⟩, hr, _, rfl⟩ := h
    have := ih hr
    simp only [List.length_cons]
    omega
  | case4 e cs _ ih =>
    simp only [Option.bind_eq_bind, Option.bind_eq_some_iff, Option.pure_def, Option.some.injEq,
      Prod.mk.injEq] at h
    obtain ⟨_, _, ⟨_, _⟩, hr, _, rfl⟩ := h
    have := ih hr
    simp only [List.length_cons]
    omega
  | case5 => exact nomatch h
  | case6 c cs _ _ _ _ ih =>
    simp only [Option.bind_eq_bind, Option.bind_eq_some_iff, Option.pure_def, Option.some.injEq,
      Prod.mk.injEq] at h
    obtain ⟨⟨_, _⟩, hr, _, rfl⟩ := h
    have := ih hr
    simp only [List.length_cons]
    omega

/-- The two lowercase hexadecimal digits of a number below 256. -/
def hexPair (n : Nat) : List Char :=
  [Nat.digitChar (n / 16), Nat.digitChar (n % 16)]

/-- A character as it is written between quotes. -/
def quoteChar (c : Char) : List Char :=
  if c = '"' then ['\\', '"']
  else if c = '\\' then ['\\', '\\']
  else if c = '\x08' then ['\\', 'b']
  else if c = '\x0c' then ['\\', 'f']
  else if c = '\n' then ['\\', 'n']
  else if c = '\r' then ['\\', 'r']
  else if c = '\t' then ['\\', 't']
  else if c.toNat < 0x20 then ['\\', 'u', '0', '0'] ++ hexPair c.toNat
  else [c]

/-- A text as a JSON string. -/
def quote (text : String) : String :=
  String.ofList ('"' :: (text.toList.flatMap quoteChar ++ ['"']))

end PmacPoll.Json
