import PmacPoll.Device
import PmacPoll.Proofs.MessageFraming
import PmacPoll.Proofs.StoredReplies
import PmacPoll.Proofs.Utf8Text

/-!
# What the reply of a device says

A device answers names with the values that it has for them, up to the first name that it does not
know. A limit may cut the answer at any byte, in the middle of a value or of a character. The lines
of what is left are still values, each whole and each in the place of its name,
`lines_of_answer`: the last piece has no end, so it is none of them.
-/

namespace PmacPoll

open Reply

/-- A byte that may stand in a value: it ends neither a line nor a message, and opens no block. -/
def Control.IsPlain (byte : UInt8) : Prop :=
  byte ≠ stx ∧ byte ≠ ack ∧ byte ≠ bell ∧ byte ≠ lineFeed ∧ byte ≠ carriageReturn

instance (byte : UInt8) : Decidable (Control.IsPlain byte) :=
  inferInstanceAs (Decidable (_ ∧ _ ∧ _ ∧ _ ∧ _))

namespace Device

/-- The values that an answer to some names gives: up to the first name that is not known. -/
def givenValues (values : Std.HashMap String String) : List String → List String
  | [] => []
  | name :: more =>
    match values[name]? with
    | some value => value :: givenValues values more
    | none => []

/-- Some values as they are sent, each with the end of its line. -/
def valueLines (values : List String) : Bytes :=
  values.flatMap fun value => Utf8.encode value ++ [Control.carriageReturn]

/-- What follows the lines of an answer: an acknowledge if all names are known, else a report of the
    first that is not. -/
def answerEnding (values : Std.HashMap String String) (names : List String) : Bytes :=
  if names.all values.contains then [Control.ack] else unknownName

/-- An answer has a line for each known name, and then its ending. -/
theorem answerNames_eq (values : Std.HashMap String String) (names : List String) :
    answerNames values names =
      valueLines (givenValues values names) ++ answerEnding values names := by
  induction names with
  | nil => rfl
  | cons name more ih =>
    rw [answerNames, givenValues, answerEnding, List.all_cons,
      Std.HashMap.contains_eq_isSome_getElem?]
    -- The first name that is not known ends the answer.
    cases values[name]? with
    | some value =>
      rw [Option.isSome_some, Bool.true_and, ← answerEnding, ih]
      simp only [valueLines, List.flatMap_cons, List.append_assoc, List.cons_append,
        List.nil_append]
    | none => rfl

/-- An answer ends by acknowledging, or by reporting an error. -/
private theorem answerEnding_cases (values : Std.HashMap String String) (names : List String) :
    answerEnding values names = [Control.ack] ∨
      ∃ report, answerEnding values names = Control.bell :: report := by
  unfold answerEnding
  split
  · exact Or.inl rfl
  · exact Or.inr ⟨_, rfl⟩

/-- There is always an answer. -/
theorem answerNames_ne_nil (values : Std.HashMap String String) (names : List String) :
    answerNames values names ≠ [] := by
  rw [answerNames_eq]
  apply List.append_ne_nil_of_right_ne_nil
  rcases answerEnding_cases values names with h | ⟨report, h⟩
  · rw [h]
    exact List.cons_ne_nil _ _
  · rw [h]
    exact List.cons_ne_nil _ _

/-! ### The text of a reply -/

/-- A reply without a bell reports no error. -/
theorem errorOffset?_of_not_mem {reply : Reply} (hbell : Control.bell ∉ reply.data) :
    reply.errorOffset? = none := by
  rw [errorOffset?, List.findIdx?_eq_none_iff]
  intro byte hbyte
  rw [beq_eq_false_iff_ne]
  rintro rfl
  exact hbell hbyte

/-- A report begins at the first bell. -/
theorem errorOffset?_of_bell {reply : Reply} {lines more : Bytes} (hbell : Control.bell ∉ lines)
    (hdata : reply.data = lines ++ Control.bell :: more) :
    reply.errorOffset? = some lines.length := by
  rw [errorOffset?, hdata, List.findIdx?_append,
    List.findIdx?_eq_none_iff.mpr fun byte hbyte => beq_eq_false_iff_ne.mpr (by
      rintro rfl
      exact hbell hbyte), List.findIdx?_cons]
  simp

/-- A reply that ends by an acknowledge and has no bell is no error. -/
theorem isDeviceError_of_ack {reply : Reply} {part : Bytes} (hbell : Control.bell ∉ part)
    (hdata : reply.data = part ++ [Control.ack]) : reply.isDeviceError = false := by
  rw [isDeviceError, errorOffset?_of_not_mem]
  · rfl
  · rw [hdata]
    intro hmem
    rcases List.mem_append.mp hmem with hmem | hmem
    · exact hbell hmem
    · exact absurd (List.mem_singleton.mp hmem) (by decide)

/-- Of such a reply the values are stored, without the acknowledge. -/
theorem storedText_of_ack {reply : Reply} {part : Bytes} (hbell : Control.bell ∉ part)
    (hdata : reply.data = part ++ [Control.ack]) : reply.storedText = Utf8.decode part := by
  have hbody : reply.body = part := by
    rw [body, hdata, if_pos List.getLast?_concat, List.dropLast_concat]
  rw [storedText, isDeviceError_of_ack hbell hdata, text, hbody]
  rfl

/-- Of a reply with a bell the values before it are stored. -/
theorem storedText_of_bell {reply : Reply} {lines more : Bytes} (hbell : Control.bell ∉ lines)
    (hdata : reply.data = lines ++ Control.bell :: more) :
    reply.storedText = Utf8.decode lines := by
  rw [storedText, isDeviceError, valuesText, errorOffset?_of_bell hbell hdata, hdata]
  simp only [Option.isSome_some, if_true, List.take_left]

/-- A reply to some lines and an ending is stored as the first bytes of the lines. -/
private theorem storedText_scan {lines ending : Bytes} (hbell : Control.bell ∉ lines)
    (hending : ending = [Control.ack] ∨ ∃ report, ending = Control.bell :: report)
    (maxLength : Nat) :
    ∃ part, part <+: lines ∧ (scan maxLength (lines ++ ending)).storedText = Utf8.decode part := by
  obtain ⟨kept, last, hfeed, hprefix, hkept, hlast⟩ :=
    Scanner.data_feed (Scanner.isDone_new maxLength) (lines ++ ending)
  have hdata : (scan maxLength (lines ++ ending)).data = kept ++ last := hfeed
  have hne : ending ≠ [] := by
    rcases hending with rfl | ⟨report, rfl⟩ <;> exact List.cons_ne_nil _ _
  -- The limit may fall into the lines, or into the ending.
  by_cases hpart : kept <+: lines
  · -- the limit fell into the lines, or right behind them; an acknowledge may follow
    have hack : last = [Control.ack] := by
      refine hlast.resolve_right fun ⟨_, hall⟩ => hne ?_
      have hlength := hpart.length_le
      rw [hall, List.length_append] at hlength
      exact List.length_eq_zero_iff.mp (by omega)
    rw [hack] at hdata
    exact ⟨kept, hpart, storedText_of_ack (fun hmem => hbell (hpart.subset hmem)) hdata⟩
  · obtain ⟨more, rfl⟩ := (List.prefix_or_prefix_of_prefix hprefix
      (List.prefix_append lines ending)).resolve_left hpart
    -- part of the ending is there, and it begins as the ending does
    have hmore : more ≠ [] := by
      rintro rfl
      exact hpart ⟨[], by simp⟩
    have hmoreprefix := (List.prefix_append_right_inj lines).mp hprefix
    obtain ⟨byte, rest, rfl⟩ := List.exists_cons_of_ne_nil hmore
    rcases hending with rfl | ⟨report, rfl⟩
    · -- An acknowledge is stored at the end only.
      obtain ⟨rfl, -⟩ := List.cons_prefix_cons.mp hmoreprefix
      exact absurd (List.mem_append_right lines (List.mem_cons_self ..)) hkept
    · obtain ⟨rfl, -⟩ := List.cons_prefix_cons.mp hmoreprefix
      have herror : (scan maxLength (lines ++ Control.bell :: report)).data =
          lines ++ Control.bell :: (rest ++ last) := by
        rw [hdata, List.append_assoc]
        rfl
      exact ⟨lines, List.prefix_rfl, storedText_of_bell hbell herror⟩

/-! ### The lines of a reply -/

/-- The lines that are ended are the values, as these have no carriage return. -/
private theorem ended_valueLines {values : List String}
    (h : ∀ value ∈ values, Control.carriageReturn ∉ Utf8.encode value) :
    Text.ended (· == Control.carriageReturn) (valueLines values) = values.map Utf8.encode := by
  induction values with
  | nil => rfl
  | cons value more ih =>
    -- a value ends at the first carriage return, which is the one behind it
    have hvalue : ∀ byte ∈ Utf8.encode value, (byte == Control.carriageReturn) = false := by
      intro byte hbyte
      rw [beq_eq_false_iff_ne]
      rintro rfl
      exact h value (List.mem_cons_self ..) hbyte
    rw [valueLines, List.flatMap_cons, List.append_assoc, List.singleton_append,
      Text.ended_append_cons (by decide) hvalue]
    exact congrArg _ (ih fun v hv => h v (List.mem_cons_of_mem value hv))

/-- The values of a device may be sent as lines. -/
def PlainValues (values : Std.HashMap String String) : Prop :=
  ∀ name value : String, values[name]? = some value →
    ∀ byte ∈ Utf8.encode value, Control.IsPlain byte

variable {values : Std.HashMap String String}

/-- A value that is given is that of some name. -/
private theorem exists_of_mem_givenValues {names : List String} {value : String}
    (h : value ∈ givenValues values names) : ∃ name : String, values[name]? = some value := by
  induction names with
  | nil => exact nomatch h
  | cons name more ih =>
    rw [givenValues] at h
    -- the names stop at the first one that is not known
    cases hname : values[name]? with
    | none => rw [hname] at h; exact nomatch h
    | some v =>
      rw [hname] at h
      rcases List.mem_cons.mp h with rfl | hmore
      · exact ⟨name, hname⟩
      · exact ih hmore

/-- All values that are given are plain. -/
private theorem plain_givenValues (h : PlainValues values) (names : List String) :
    ∀ value ∈ givenValues values names, ∀ byte ∈ Utf8.encode value, Control.IsPlain byte := by
  intro value hvalue
  obtain ⟨name, hname⟩ := exists_of_mem_givenValues hvalue
  exact h name value hname

/-- So the bytes of their lines are plain, or carriage returns. -/
theorem plain_valueLines (h : PlainValues values) (names : List String) :
    ∀ byte ∈ valueLines (givenValues values names),
      byte = Control.carriageReturn ∨ Control.IsPlain byte := by
  intro byte hbyte
  obtain ⟨value, hvalue, hmem⟩ := List.mem_flatMap.mp hbyte
  rcases List.mem_append.mp hmem with hmem | hmem
  · exact Or.inr (plain_givenValues h names value hvalue byte hmem)
  · exact Or.inl (List.mem_singleton.mp hmem)

/-- Lines of values report no error. -/
theorem bell_not_mem_valueLines (h : PlainValues values) (names : List String) :
    Control.bell ∉ valueLines (givenValues values names) := by
  intro hmem
  rcases plain_valueLines h names Control.bell hmem with hcr | hplain
  · exact absurd hcr (by decide)
  · exact hplain.2.2.1 rfl

/-- The lines that are ended are the values that are given. -/
theorem ended_givenValues (h : PlainValues values) (names : List String) :
    Text.ended (· == Control.carriageReturn) (valueLines (givenValues values names)) =
      (givenValues values names).map Utf8.encode :=
  ended_valueLines fun value hvalue hmem =>
    (plain_givenValues h names value hvalue _ hmem).2.2.2.2 rfl

/-- Texts are read as they were written. -/
theorem map_decode_encode (texts : List String) :
    (texts.map Utf8.encode).map Utf8.decode = texts := by
  rw [List.map_map]
  conv => rhs; rw [← List.map_id texts]
  exact List.map_congr_left fun text _ => Utf8.decode_encode text

/-- **Every line of a reply is a whole value.** Whatever the limit, the lines that are stored are
    the first few of the values that the device gave. -/
theorem lines_of_answer (h : PlainValues values) (names : List String) (maxLength : Nat) :
    Text.endedLines (scan maxLength (answerNames values names)).storedText <+:
      givenValues values names := by
  -- What is stored is a first part of the lines, and cutting never makes a new line.
  obtain ⟨part, hpart, htext⟩ := storedText_scan (bell_not_mem_valueLines h names)
    (answerEnding_cases values names) maxLength
  have hended := Text.ended_prefix (· == Control.carriageReturn) hpart
  rw [ended_givenValues h] at hended
  rw [answerNames_eq, htext, Utf8.endedLines_decode, ← map_decode_encode (givenValues values names)]
  exact hended.map Utf8.decode

/-- A line that is given for a name is the value of that name. -/
theorem value_of_mem_zip {names lines : List String} (h : lines <+: givenValues values names)
    {name line : String} (hmem : (name, line) ∈ names.zip lines) : values[name]? = some line := by
  induction names generalizing lines with
  | nil => exact nomatch hmem
  | cons first more ih =>
    cases lines with
    | nil => exact nomatch hmem
    | cons value rest =>
      rw [givenValues] at h
      cases hfirst : values[first]? with
      -- a name that is not known has no line, and neither have those after it
      | none => rw [hfirst] at h; exact absurd (List.prefix_nil.mp h) (List.cons_ne_nil _ _)
      | some v =>
        rw [hfirst] at h
        obtain ⟨rfl, hrest⟩ := List.cons_prefix_cons.mp h
        -- the line stands in the place of the first name, or further on
        rcases List.mem_cons.mp hmem with heq | hmore
        · obtain ⟨rfl, rfl⟩ := Prod.mk.inj heq
          exact hfirst
        · exact ih hrest hmore

end Device

end PmacPoll
