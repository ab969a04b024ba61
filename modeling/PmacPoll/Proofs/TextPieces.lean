import PmacPoll.Text.Blank

/-!
# Cutting text up

`pieces` cuts at a separator whatever stands on its two sides, `pieces_append_cons`. From that come
the two facts that polling rests on: the words of names that were joined are those of each name,
`words_unwords_eq_flatMap`, and so the names themselves if these are words, `words_unwords`; and
more input never takes back a piece that a separator has ended, `ended_prefix`. The lines of a text
are what has to be joined with a rest to give the text again, `linesOf_iff`, and its words are what
has to be spaced to give it again, `spaced_iff`.
-/

namespace PmacPoll.Text

variable {α : Type} {isSeparator : α → Bool}

/-- The pieces that are ended by a separator. -/
def ended (isSeparator : α → Bool) (l : List α) : List (List α) :=
  (pieces isSeparator l).dropLast

/-- Lines are pieces that a carriage return has ended. -/
theorem endedLines_eq (text : String) :
    endedLines text = (ended (· == '\r') text.toList).map String.ofList := rfl

/-! ### Pieces -/

/-- Without a separator there is one piece. -/
private theorem pieces_of_forall {l : List α} (h : ∀ a ∈ l, isSeparator a = false) :
    pieces isSeparator l = [l] := by
  induction l with
  | nil => rfl
  | cons a rest ih =>
    have ha := h a (List.mem_cons_self ..)
    have hrest := ih fun b hb => h b (List.mem_cons_of_mem a hb)
    rw [pieces, if_neg (by rw [ha]; exact Bool.false_ne_true), hrest]

/-- A separator ends the pieces before it, whatever follows. -/
theorem pieces_append_cons {c : α} (hc : isSeparator c = true) (a b : List α) :
    pieces isSeparator (a ++ c :: b) = pieces isSeparator a ++ pieces isSeparator b := by
  induction a with
  | nil => simp [pieces, hc]
  | cons x rest ih =>
    rw [List.cons_append, pieces, pieces, ih]
    split
    · rfl
    · cases hp : pieces isSeparator rest with
      | nil => exact absurd hp (pieces_ne_nil isSeparator rest)
      | cons piece more => rfl

/-- More input only goes on from the last piece. -/
private theorem pieces_append (isSeparator : α → Bool) (a b : List α) : ∃ last more,
    pieces isSeparator (a ++ b) = ended isSeparator a ++ last :: more := by
  induction a with
  | nil =>
    cases hp : pieces isSeparator b with
    | nil => exact absurd hp (pieces_ne_nil isSeparator b)
    | cons last more => exact ⟨last, more, hp⟩
  | cons x rest ih =>
    obtain ⟨last, more, hrest⟩ := ih
    rw [List.cons_append, ended, pieces, pieces, hrest]
    split
    · refine ⟨last, more, ?_⟩
      rw [List.dropLast_cons_of_ne_nil (pieces_ne_nil isSeparator rest)]
      rfl
    · -- The first piece grows by `x`, unless it is the last one of what there was.
      cases hp : pieces isSeparator rest with
      | nil => exact absurd hp (pieces_ne_nil isSeparator rest)
      | cons piece others =>
        cases others with
        | nil =>
          rw [ended, hp]
          exact ⟨x :: last, more, rfl⟩
        | cons other others =>
          rw [ended, hp]
          exact ⟨last, more, rfl⟩

/-- No piece has a separator in it. -/
private theorem not_separator_of_mem_pieces {l piece : List α} (h : piece ∈ pieces isSeparator l) :
    ∀ a ∈ piece, isSeparator a = false := by
  induction l generalizing piece with
  | nil =>
    obtain rfl := List.mem_singleton.mp h
    exact fun a ha => nomatch ha
  | cons c rest ih =>
    rw [pieces] at h
    -- a separator begins a new piece, and any other character goes to the first one
    split at h
    · rcases List.mem_cons.mp h with rfl | hrest
      · exact fun a ha => nomatch ha
      · exact ih hrest
    · next hc =>
      cases hpieces : pieces isSeparator rest with
      | nil => exact absurd hpieces (pieces_ne_nil isSeparator rest)
      | cons first more =>
        rw [hpieces] at h ih
        rcases List.mem_cons.mp h with rfl | hmore
        · intro a ha
          rcases List.mem_cons.mp ha with rfl | hfirst
          · exact Bool.eq_false_iff.mpr hc
          · exact ih List.mem_cons_self a hfirst
        · exact ih (List.mem_cons_of_mem first hmore)

/-! ### Ended pieces -/

/-- Without a separator no piece is ended. -/
theorem ended_of_forall {l : List α} (h : ∀ a ∈ l, isSeparator a = false) :
    ended isSeparator l = [] := by
  rw [ended, pieces_of_forall h]
  rfl

/-- The first piece ends at the first separator. -/
theorem ended_append_cons {c : α} (hc : isSeparator c = true) {a : List α}
    (h : ∀ x ∈ a, isSeparator x = false) (b : List α) :
    ended isSeparator (a ++ c :: b) = a :: ended isSeparator b := by
  rw [ended, pieces_append_cons hc, pieces_of_forall h]
  exact List.dropLast_cons_of_ne_nil (pieces_ne_nil isSeparator b)

/-- More input never takes back a piece that is ended. -/
theorem ended_prefix (isSeparator : α → Bool) {a b : List α} (h : a <+: b) :
    ended isSeparator a <+: ended isSeparator b := by
  obtain ⟨rest, rfl⟩ := h
  obtain ⟨last, more, hpieces⟩ := pieces_append isSeparator a rest
  refine ⟨(last :: more).dropLast, ?_⟩
  rw [ended, ended, hpieces, List.dropLast_append_of_ne_nil (List.cons_ne_nil last more), ended]

/-- A piece that is ended has no separator in it. -/
theorem not_mem_ended [BEq α] [LawfulBEq α] {c : α} {l piece : List α}
    (h : piece ∈ ended (· == c) l) : c ∉ piece := by
  intro hc
  have hfree := not_separator_of_mem_pieces (List.dropLast_subset _ h) c hc
  rw [BEq.rfl] at hfree
  exact nomatch hfree

/-- A list is its ended pieces, each with the separator behind it, and a rest that has none. -/
theorem exists_rest [BEq α] [LawfulBEq α] (c : α) (l : List α) :
    ∃ rest, c ∉ rest ∧ l = (ended (· == c) l).flatMap (· ++ [c]) ++ rest := by
  have hfree : ∀ {piece : List α}, c ∉ piece → ∀ a ∈ piece, (a == c) = false :=
    fun hpiece a ha => beq_false_of_ne fun heq => hpiece (heq ▸ ha)
  -- the first separator ends a piece, and behind it there is less
  by_cases hc : c ∈ l
  · obtain ⟨piece, more, hsplit, hpiece⟩ := List.eq_append_cons_of_mem hc
    obtain ⟨rest, hrest, hmore⟩ := exists_rest c more
    have hended : ended (· == c) (piece ++ c :: more) = piece :: ended (· == c) more :=
      ended_append_cons (by exact BEq.rfl) (hfree hpiece) more
    refine ⟨rest, hrest, ?_⟩
    rw [hsplit, hended, List.flatMap_cons, List.append_assoc, ← hmore, List.append_assoc,
      List.singleton_append]
  · refine ⟨l, hc, ?_⟩
    rw [ended_of_forall (hfree hc)]
    rfl
termination_by l.length
decreasing_by rw [hsplit, List.length_append, List.length_cons]; omega

/-- Only such a list has these pieces ended. -/
theorem ended_flatMap_append [BEq α] [LawfulBEq α] {c : α} {parts : List (List α)} {rest : List α}
    (h : ∀ part ∈ parts, c ∉ part) (hrest : c ∉ rest) :
    ended (· == c) (parts.flatMap (· ++ [c]) ++ rest) = parts := by
  have hfree : ∀ {part : List α}, c ∉ part → ∀ a ∈ part, (a == c) = false :=
    fun hpart a ha => beq_false_of_ne fun heq => hpart (heq ▸ ha)
  induction parts with
  | nil => exact ended_of_forall (hfree hrest)
  | cons part more ih =>
    obtain ⟨hpart, hmore⟩ := List.forall_mem_cons.mp h
    rw [List.flatMap_cons, List.append_assoc, List.append_assoc, List.singleton_append,
      ended_append_cons (by exact BEq.rfl) (hfree hpart), ih hmore]

/-! ### Lines -/

/-- The texts, each followed by a carriage return. -/
def unlines : List String → String
  | [] => ""
  | line :: more => line ++ "\r" ++ unlines more

/-- The lines of a text: they are all that is ended by a carriage return in it. -/
def LinesOf (text : String) (lines : List String) : Prop :=
  (∀ line ∈ lines, '\r' ∉ line.toList) ∧
    ∃ rest, '\r' ∉ rest.toList ∧ text = unlines lines ++ rest

/-- Lines that are joined are so character by character. -/
private theorem toList_unlines (lines : List String) :
    (unlines lines).toList = (lines.map String.toList).flatMap (· ++ ['\r']) := by
  induction lines with
  | nil => rfl
  | cons line more ih =>
    rw [unlines, String.toList_append, String.toList_append, ih]
    rfl

/-- What follows the last carriage return is no line. -/
private theorem endedLines_unlines_append {lines : List String} {rest : String}
    (h : ∀ line ∈ lines, '\r' ∉ line.toList) (hrest : '\r' ∉ rest.toList) :
    endedLines (unlines lines ++ rest) = lines := by
  have hlines : ∀ part ∈ lines.map String.toList, '\r' ∉ part := by
    simpa using h
  have hback : String.ofList ∘ String.toList = id := funext fun line => String.ofList_toList
  rw [endedLines_eq, String.toList_append, toList_unlines, ended_flatMap_append hlines hrest,
    List.map_map, hback, List.map_id]

/-- The lines of texts that were joined are the texts. -/
theorem endedLines_unlines {lines : List String} (h : ∀ line ∈ lines, '\r' ∉ line.toList) :
    endedLines (unlines lines) = lines := by
  have hempty : '\r' ∉ "".toList := List.not_mem_nil
  have hlines := endedLines_unlines_append h hempty
  rwa [String.append_empty] at hlines

/-- Every text is made of its lines and a rest. -/
private theorem linesOf_endedLines (text : String) : LinesOf text (endedLines text) := by
  have hback : String.toList ∘ String.ofList = id := funext fun chars => String.toList_ofList
  have hlines : (endedLines text).map String.toList = ended (· == '\r') text.toList := by
    rw [endedLines_eq, List.map_map, hback, List.map_id]
  obtain ⟨rest, hrest, hsplit⟩ := exists_rest '\r' text.toList
  refine ⟨fun line hline => ?_, String.ofList rest, by rwa [String.toList_ofList], ?_⟩
  · exact not_mem_ended (hlines ▸ List.mem_map_of_mem hline)
  · rw [← String.toList_inj, String.toList_append, toList_unlines, hlines, String.toList_ofList]
    exact hsplit

/-- A text has just the lines that `endedLines` finds in it. -/
theorem linesOf_iff {text : String} {lines : List String} :
    LinesOf text lines ↔ endedLines text = lines := by
  constructor
  · rintro ⟨hlines, rest, hrest, rfl⟩
    exact endedLines_unlines_append hlines hrest
  · rintro rfl
    exact linesOf_endedLines text

/-! ### Joining -/

/-- Words are joined with a space between them. -/
private theorem unwords_cons {more : List String} (h : more ≠ []) (word : String) :
    unwords (word :: more) = word ++ " " ++ unwords more := by
  cases more with
  | nil => exact absurd rfl h
  | cons => rfl

/-- So are groups of words. -/
private theorem unwords_append {first more : List String} (hfirst : first ≠ [])
    (hmore : more ≠ []) :
    unwords (first ++ more) = unwords first ++ " " ++ unwords more := by
  induction first with
  | nil => exact absurd rfl hfirst
  | cons word rest ih =>
    by_cases hrest : rest = []
    · rw [hrest]
      exact unwords_cons hmore word
    · rw [List.cons_append, unwords_cons (by simp [hrest]), ih hrest, unwords_cons hrest]
      simp only [String.append_assoc]

/-- Joining groups of texts and then what comes of them is joining all the texts. -/
theorem unwords_map_unwords {groups : List (List String)} (h : ∀ group ∈ groups, group ≠ []) :
    unwords (groups.map unwords) = unwords groups.flatten := by
  induction groups with
  | nil => rfl
  | cons group more ih =>
    obtain ⟨hgroup, hmore⟩ := List.forall_mem_cons.mp h
    rw [List.map_cons, List.flatten_cons]
    cases more with
    | nil => rw [List.map_nil, List.flatten_nil, List.append_nil, unwords]
    -- there is a group behind this one, so a blank stands between the two
    | cons other others =>
      have hflatten : (other :: others).flatten ≠ [] := by
        simp [List.flatten_cons, hmore other List.mem_cons_self]
      rw [unwords_cons (by simp), ih hmore, unwords_append hgroup hflatten]

/-! ### Words -/

/-- A name that can be told from its neighbours: it is not empty and has no blank. -/
def IsWord (name : String) : Prop :=
  name ≠ "" ∧ ∀ c ∈ name.toList, isBlank c = false

instance (name : String) : Decidable (IsWord name) :=
  decidable_of_iff (name ≠ "" ∧ name.toList.all (fun c => !isBlank c) = true) (by simp [IsWord])

/-- Words have no blanks, and there is no empty one. -/
theorem isWord_of_mem_words {text word : String} (h : word ∈ words text) : IsWord word := by
  obtain ⟨piece, hpiece, rfl⟩ := List.mem_map.mp h
  obtain ⟨hmem, hne⟩ := List.mem_filter.mp hpiece
  refine ⟨fun hempty => ?_, ?_⟩
  · rw [String.ofList_eq_empty_iff] at hempty
    simp [hempty] at hne
  · rw [String.toList_ofList]
    exact not_separator_of_mem_pieces hmem

/-- A text without blanks is its only word, unless it is empty. -/
theorem words_of_unblank {text : String} (h : ∀ c ∈ text.toList, isBlank c = false) :
    words text = if text = "" then [] else [text] := by
  rw [words, pieces_of_forall h]
  split
  · next hempty => rw [hempty]; rfl
  · next hne =>
    rw [List.filter_cons_of_pos (by simpa using hne), List.filter_nil, List.map_singleton,
      String.ofList_toList]

/-- A word is the only word of its own. -/
theorem words_of_isWord {name : String} (h : IsWord name) : words name = [name] := by
  rw [words_of_unblank h.2, if_neg h.1]

/-- A space parts the words on its two sides. -/
theorem words_append_space (a b : String) : words (a ++ " " ++ b) = words a ++ words b := by
  have hjoin : (a ++ " " ++ b).toList = a.toList ++ ' ' :: b.toList := by
    simp [String.toList_append]
  rw [words, hjoin, pieces_append_cons (by decide), List.filter_append, List.map_append]
  rfl

/-- The words of names that were joined are those of each name. -/
theorem words_unwords_eq_flatMap (names : List String) :
    words (unwords names) = names.flatMap words := by
  induction names with
  | nil => rfl
  | cons name more ih =>
    cases more with
    | nil => rw [unwords, List.flatMap_singleton]
    | cons other more =>
      have hjoin : unwords (name :: other :: more) = name ++ " " ++ unwords (other :: more) := rfl
      rw [hjoin, words_append_space, ih]
      rfl

/-- If all names are words, they are the words. -/
theorem words_unwords {names : List String} (h : ∀ name ∈ names, IsWord name) :
    words (unwords names) = names := by
  rw [words_unwords_eq_flatMap]
  induction names with
  | nil => rfl
  | cons name more ih =>
    rw [List.flatMap_cons, words_of_isWord (h name List.mem_cons_self),
      ih fun n hn => h n (List.mem_cons_of_mem name hn), List.singleton_append]

/-! ### Words and the blanks around them -/

/-- Words with at least one blank between neighbours, and any blanks around them. -/
inductive Spaced : List Char → List String → Prop where
  | nil : Spaced [] []
  | blank {c : Char} {rest : List Char} {names : List String} :
      isBlank c = true → Spaced rest names → Spaced (c :: rest) names
  /-- Behind a word there is a blank, or the text ends. -/
  | word {name : String} {rest : List Char} {names : List String} :
      IsWord name → (∀ c ∈ rest.head?, isBlank c = true) → Spaced rest names →
      Spaced (name.toList ++ rest) (name :: names)

/-- A blank ends the words before it, whatever follows. -/
private theorem words_ofList_append_cons {c : Char} (hc : isBlank c = true) (a b : List Char) :
    words (String.ofList (a ++ c :: b)) = words (String.ofList a) ++ words (String.ofList b) := by
  simp only [words, String.toList_ofList, pieces_append_cons hc, List.filter_append,
    List.map_append]

/-- A blank in front makes no word. -/
private theorem words_ofList_cons {c : Char} (hc : isBlank c = true) (rest : List Char) :
    words (String.ofList (c :: rest)) = words (String.ofList rest) :=
  words_ofList_append_cons hc [] rest

/-- A text that is spaced has just the names that it is spaced with for its words. -/
private theorem words_eq_of_spaced {l : List Char} {names : List String} (h : Spaced l names) :
    words (String.ofList l) = names := by
  induction h with
  | nil => rfl
  | blank hc _ ih => rw [words_ofList_cons hc, ih]
  | @word name rest names hname hnext _ ih =>
    -- behind a word there is the end of the text, or a blank
    cases rest with
    | nil =>
      obtain rfl : names = [] := ih.symm
      rw [List.append_nil, String.ofList_toList, words_of_isWord hname]
    | cons c more =>
      have hc : isBlank c = true := hnext c rfl
      rw [words_ofList_cons hc] at ih
      rw [words_ofList_append_cons hc, String.ofList_toList, words_of_isWord hname, ih,
        List.singleton_append]

/-- What stands before a blank or the end, and has none itself, is a word or nothing. -/
theorem Spaced.append {front rest : List Char} {names : List String} (h : Spaced rest names)
    (hfront : ∀ c ∈ front, isBlank c = false) (hnext : ∀ c ∈ rest.head?, isBlank c = true) :
    Spaced (front ++ rest) (words (String.ofList front) ++ names) := by
  rw [← String.toList_ofList (l := front)] at hfront
  rw [words_of_unblank hfront]
  split
  · next hempty =>
    obtain rfl := String.ofList_eq_empty_iff.mp hempty
    exact h
  · next hne =>
    have hword := Spaced.word ⟨hne, hfront⟩ hnext h
    rwa [String.toList_ofList] at hword

/-- Every text is its words with blanks between them. -/
private theorem spaced_words (l : List Char) : Spaced l (words (String.ofList l)) := by
  -- from the first blank on the text is shorter
  cases hfind : l.find? isBlank with
  | none =>
    have hfree : ∀ c ∈ l, isBlank c = false := by simpa using hfind
    have hlast := Spaced.nil.append hfree (by simp)
    rwa [List.append_nil, List.append_nil] at hlast
  | some c =>
    obtain ⟨hc, front, rest, hsplit, hfront⟩ := List.find?_eq_some_iff_append.mp hfind
    have hrest := Spaced.blank hc (spaced_words rest)
    rw [hsplit, words_ofList_append_cons hc]
    refine hrest.append (fun d hd => by simpa using hfront d hd) fun d hd => ?_
    obtain rfl := Option.some.inj hd
    exact hc
termination_by l.length
decreasing_by rw [hsplit, List.length_append, List.length_cons]; omega

/-- A text has just the words that `words` finds in it. -/
theorem spaced_iff {text : String} {names : List String} :
    Spaced text.toList names ↔ words text = names := by
  constructor
  · intro h
    have hwords := words_eq_of_spaced h
    rwa [String.ofList_toList] at hwords
  · rintro rfl
    have hspaced := spaced_words text.toList
    rwa [String.ofList_toList] at hspaced

/-! ### Blanks at the ends -/

/-- All that is dropped of a text of blanks is the text. -/
private theorem dropWhile_isBlank_eq_nil_iff {l : List Char} :
    l.dropWhile isBlank = [] ↔ ∀ c ∈ l, isBlank c = true := by
  induction l with
  | nil => simp
  | cons c rest ih =>
    rw [List.dropWhile_cons, List.forall_mem_cons]
    split
    · next hc => rw [ih, and_iff_right hc]
    · next hc => exact ⟨nofun, fun h => absurd h.1 hc⟩

/-- Nothing is left of a text between its blanks just if it has no other characters. -/
theorem isEmpty_trim_iff {text : String} :
    (trim text).isEmpty = true ↔ ∀ c ∈ text.toList, isBlank c = true := by
  rw [trim, String.isEmpty_iff, String.ofList_eq_empty_iff, List.reverse_eq_nil_iff,
    dropWhile_isBlank_eq_nil_iff, ← dropWhile_isBlank_eq_nil_iff (l := text.toList)]
  simp only [List.mem_reverse]
  -- what is left after blanks were dropped does not begin with one
  have hhead := List.head?_dropWhile_not isBlank text.toList
  cases hrest : text.toList.dropWhile isBlank with
  | nil => simp
  | cons c rest =>
    rw [hrest] at hhead
    refine ⟨fun hall => ?_, nofun⟩
    exact nomatch (hall c List.mem_cons_self).symm.trans hhead

end PmacPoll.Text
