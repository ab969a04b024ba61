import PmacPoll.Proofs.DeviceReplies
import PmacPoll.Proofs.SingleMessage

/-!
# Replies that fit

An answer that is not longer than the limit is read whole. Its lines are the values that the device
gave, `lines_of_fitting`, and it reports an error just if some name is not known, with the code of
that, `isDeviceError_of_fitting` and `errorCode_of_fitting`. That holds also of a report that fills
the limit to the last byte: the carriage return at its end gives way to the acknowledge, and either
of the two ends the code.
-/

namespace PmacPoll.Device

open Reply

/-! ### Scanning lines and their ending -/

/-- Lines of values end no message and open no block. -/
private theorem skipMessage_of_plain {bytes : Bytes}
    (h : ∀ byte ∈ bytes, byte = Control.carriageReturn ∨ Control.IsPlain byte) :
    Inbox.skipMessage false bytes = .error false := by
  induction bytes with
  | nil => rfl
  | cons byte more ih =>
    -- a plain byte ends nothing and opens no block, and neither does a carriage return outside of
    -- one
    have hbyte : ¬ (byte == Control.ack || byte == Control.lineFeed) = true ∧
        Control.opensBlock byte = false := by
      rcases h byte List.mem_cons_self with rfl | ⟨hstx, hack, hbell, hfeed, -⟩
      · decide
      · simp [Control.opensBlock, hstx, hack, hbell, hfeed]
    rw [Inbox.skipMessage, if_neg hbyte.1, hbyte.2, Bool.and_false, if_neg Bool.false_ne_true]
    exact ih fun b hb => h b (List.mem_cons_of_mem byte hb)

/-- An acknowledge is stored. -/
private theorem data_feed_ack {s : Scanner} {inBlock : Bool} (hphase : s.phase = .reading inBlock) :
    (s.feed [Control.ack]).1.data = s.data ++ [Control.ack] := by
  rw [Scanner.feed_cons (Scanner.isDone_of_reading hphase), Scanner.feed_nil, Scanner.push, hphase]
  simp [Scanner.data, Scanner.close]

/-- The carriage return that ends a block is stored if there is room for it. -/
private theorem data_feed_block {s : Scanner} (hphase : s.phase = .reading true) :
    ∃ last, (last = [Control.carriageReturn, Control.ack] ∨ last = [Control.ack]) ∧
      (s.feed [Control.carriageReturn]).1.data = s.data ++ last := by
  have hpush : (s.push Control.carriageReturn).data =
      s.data ++ [Control.carriageReturn, Control.ack] ∨
      (s.push Control.carriageReturn).data = s.data ++ [Control.ack] := by
    rw [Scanner.push, hphase]
    -- both are stored if there is room, and else only the acknowledge
    by_cases hroom : s.size + 2 ≤ s.maxLength
    · left
      simp [hroom, Scanner.data, Scanner.close, Control.carriageReturn, Control.ack,
        Control.lineFeed]
    · right
      simp [hroom, Scanner.data, Scanner.close, Control.carriageReturn, Control.ack,
        Control.lineFeed]
  rw [Scanner.feed_cons (Scanner.isDone_of_reading hphase), Scanner.feed_nil]
  rcases hpush with hboth | hack
  · exact ⟨_, Or.inl rfl, hboth⟩
  · exact ⟨_, Or.inr rfl, hack⟩

/-- Bytes that end no message and fit, and what is scanned after them. -/
private theorem data_scan_append {maxLength : Nat} {bytes : Bytes} {inBlock : Bool}
    (hskip : Inbox.skipMessage false bytes = .error inBlock) (hfits : bytes.length < maxLength)
    (ending : Bytes) :
    ∃ s : Scanner, s.phase = .reading inBlock ∧ s.data = bytes ∧
      (scan maxLength (bytes ++ ending)).data = (s.feed ending).1.data := by
  have hroom : (Scanner.new maxLength).size + bytes.length < (Scanner.new maxLength).maxLength := by
    show 0 + bytes.length < max maxLength 1
    omega
  obtain ⟨hphase, hdata⟩ := Scanner.feed_of_room (Scanner.phase_new maxLength) hskip hroom
  refine ⟨_, hphase, hdata, ?_⟩
  show ((Scanner.new maxLength).feed (bytes ++ ending)).1.data = _
  rw [Scanner.fst_feed_append]

/-- What is stored of lines and an acknowledge. -/
private theorem data_scan_known {maxLength : Nat} {lines : Bytes}
    (h : ∀ byte ∈ lines, byte = Control.carriageReturn ∨ Control.IsPlain byte)
    (hfits : (lines ++ [Control.ack]).length ≤ maxLength) :
    (scan maxLength (lines ++ [Control.ack])).data = lines ++ [Control.ack] := by
  rw [List.length_append, List.length_singleton] at hfits
  obtain ⟨s, hphase, hdata, hscan⟩ := data_scan_append (skipMessage_of_plain h)
    (Nat.lt_of_succ_le hfits) [Control.ack]
  rw [hscan, data_feed_ack hphase, hdata]

/-- What is stored of lines and a report. -/
private theorem data_scan_unknown {maxLength : Nat} {lines : Bytes}
    (h : ∀ byte ∈ lines, byte = Control.carriageReturn ∨ Control.IsPlain byte)
    (hfits : (lines ++ unknownName).length ≤ maxLength) :
    ∃ last, (last = [Control.carriageReturn, Control.ack] ∨ last = [Control.ack]) ∧
      (scan maxLength (lines ++ unknownName)).data =
        lines ++ Control.bell :: (Utf8.encode "ERR003" ++ last) := by
  -- all but the carriage return ends no message
  have hsplit : lines ++ unknownName =
      (lines ++ Control.bell :: Utf8.encode "ERR003") ++ [Control.carriageReturn] := by
    rw [List.append_assoc]
    rfl
  have hskip : Inbox.skipMessage false (lines ++ Control.bell :: Utf8.encode "ERR003") =
      .error true := by
    rw [Inbox.skipMessage_append, skipMessage_of_plain h]
    rfl
  rw [hsplit, List.length_append, List.length_singleton] at hfits
  obtain ⟨s, hphase, hdata, hscan⟩ := data_scan_append hskip (Nat.lt_of_succ_le hfits)
    [Control.carriageReturn]
  obtain ⟨last, hlast, hfeed⟩ := data_feed_block hphase
  refine ⟨last, hlast, ?_⟩
  rw [hsplit, hscan, hfeed, hdata, List.append_assoc]
  rfl

/-! ### What a reply that fits says -/

variable {values : Std.HashMap String String} {names : List String} {maxLength : Nat}

/-- What is stored of a reply that fits are the lines of the values that were given. -/
private theorem storedText_of_fitting (h : PlainValues values)
    (hfits : (answerNames values names).length ≤ maxLength) :
    (scan maxLength (answerNames values names)).storedText =
      Utf8.decode (valueLines (givenValues values names)) := by
  have hbell := bell_not_mem_valueLines h names
  have hplain := plain_valueLines h names
  rw [answerNames_eq] at hfits ⊢
  unfold answerEnding at *
  -- the reply ends with an acknowledge, or with the report of an unknown name
  split at hfits
  · rw [if_pos ‹_›]
    exact storedText_of_ack hbell (data_scan_known hplain hfits)
  · rw [if_neg ‹_›]
    obtain ⟨last, -, hdata⟩ := data_scan_unknown hplain hfits
    exact storedText_of_bell hbell hdata

/-- The lines of a reply that fits are the values that the device gave. -/
theorem lines_of_fitting (h : PlainValues values)
    (hfits : (answerNames values names).length ≤ maxLength) :
    Text.endedLines (scan maxLength (answerNames values names)).storedText =
      givenValues values names := by
  rw [storedText_of_fitting h hfits, Utf8.endedLines_decode, ended_givenValues h,
    map_decode_encode]

/-- A reply that fits reports no error if all names are known. -/
theorem isDeviceError_of_fitting (h : PlainValues values)
    (hfits : (answerNames values names).length ≤ maxLength)
    (hknown : names.all values.contains = true) :
    (scan maxLength (answerNames values names)).isDeviceError = false := by
  rw [answerNames_eq, answerEnding, if_pos hknown] at hfits ⊢
  exact isDeviceError_of_ack (bell_not_mem_valueLines h names)
    (data_scan_known (plain_valueLines h names) hfits)

/-- A reply that fits reports the first name that is not known. -/
theorem errorCode_of_fitting (h : PlainValues values)
    (hfits : (answerNames values names).length ≤ maxLength)
    (hunknown : names.all values.contains = false) :
    (scan maxLength (answerNames values names)).isDeviceError = true ∧
      (scan maxLength (answerNames values names)).errorCode? = some "ERR003" := by
  rw [answerNames_eq, answerEnding, if_neg (by rw [hunknown]; decide)] at hfits ⊢
  obtain ⟨last, hlast, hdata⟩ := data_scan_unknown (plain_valueLines h names) hfits
  have hoffset := errorOffset?_of_bell (bell_not_mem_valueLines h names) hdata
  have hcode : ((scan maxLength (valueLines (givenValues values names) ++ unknownName)).data.drop
      ((valueLines (givenValues values names)).length + 1)) = Utf8.encode "ERR003" ++ last := by
    rw [hdata, List.drop_append, List.drop_of_length_le (Nat.le_succ _), Nat.add_sub_cancel_left]
    rfl
  constructor
  · rw [isDeviceError, hoffset]
    rfl
  · rw [errorCode?, hoffset, Option.map_some, hcode]
    -- the carriage return ends the code, or the acknowledge in its place
    rcases hlast with rfl | rfl <;> decide

/-! ### The names that get a line -/

/-- The names up to the first that is not known get their values. -/
theorem map_fst_zip_givenValues (values : Std.HashMap String String) (names : List String) :
    (names.zip (givenValues values names)).map (·.1) = names.takeWhile values.contains := by
  induction names with
  | nil => rfl
  | cons name more ih =>
    rw [givenValues, List.takeWhile_cons, Std.HashMap.contains_eq_isSome_getElem?]
    cases values[name]? with
    | some value =>
      simp only [List.zip_cons_cons, List.map_cons, Option.isSome_some, if_true]
      rw [ih]
    | none => rfl

/-- If all names are known, each of them is given a value. -/
theorem length_givenValues (hknown : names.all values.contains = true) :
    (givenValues values names).length = names.length := by
  induction names with
  | nil => rfl
  | cons name more ih =>
    rw [List.all_cons, Bool.and_eq_true, Std.HashMap.contains_eq_isSome_getElem?,
      Option.isSome_iff_exists] at hknown
    obtain ⟨⟨value, hvalue⟩, hmore⟩ := hknown
    rw [givenValues, hvalue, List.length_cons, List.length_cons, ih hmore]

end PmacPoll.Device
