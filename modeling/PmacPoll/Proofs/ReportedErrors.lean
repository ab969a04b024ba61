import PmacPoll.Proofs.DeviceReplies
import PmacPoll.Proofs.ScannerClosedForm

/-!
# Reported errors and the size limit

What is stored of a reply is not always what was taken for it. A line feed at the end gives way to
an acknowledge, and so does a carriage return that fills the limit, and so does whatever byte is in
the last place when the limit cuts the reply off: `Rewritten`. An error is looked for in what is
stored, so it is found just if its bell is among the bytes that are `spared`, those that the limit
did not overwrite. Then its code is what follows the bell.

The values are what comes before the first bell that was taken, also if that bell is not spared.

The main result is `feedAll_reports`.
-/

namespace PmacPoll.Reply

/-! ### What the bytes of a reply tell -/

/-- A byte that ends a line or a message. -/
def isEnd (byte : UInt8) : Bool :=
  byte == Control.carriageReturn || byte == Control.ack || byte == Control.lineFeed

/-- The bytes taken for a reply, but for the one that the size limit overwrote if it cut the reply
    off. -/
def spared (taken : Bytes) (termination : Termination) : Bytes :=
  if termination = .truncated then taken.dropLast else taken

/-- The bytes before the first bell. -/
def beforeBell (bytes : Bytes) : Bytes :=
  bytes.takeWhile (· != Control.bell)

/-- The bytes between the first bell and the next end of a line or of a message. -/
def afterBell (bytes : Bytes) : Bytes :=
  ((bytes.dropWhile (· != Control.bell)).drop 1).takeWhile (!isEnd ·)

/-- What a reply tells of the errors in the bytes that were taken for it. -/
structure Reports (taken : Bytes) (reply : Reply) : Prop where
  /-- An error is reported just if there is a bell among the spared bytes. -/
  reported : reply.isDeviceError = true ↔ Control.bell ∈ spared taken reply.termination
  /-- Its code is what follows the first of them. -/
  code : Control.bell ∈ spared taken reply.termination → reply.errorCode? =
    some (Text.trim (Utf8.decode (afterBell (spared taken reply.termination))))
  /-- The values are what comes before the first bell, be it spared or not. -/
  values : Control.bell ∈ taken → reply.valuesText = Utf8.decode (beforeBell taken)

/-- Where there is no bell, every byte differs from it. -/
private theorem ne_bell_of_not_mem {bytes : Bytes} (h : Control.bell ∉ bytes) :
    ∀ byte ∈ bytes, (byte != Control.bell) = true := by
  intro byte hbyte
  rw [bne_iff_ne]
  rintro rfl
  exact h hbyte

/-- Before the first bell is what stands there. -/
theorem beforeBell_of_split {before : Bytes} (h : Control.bell ∉ before) (after : Bytes) :
    beforeBell (before ++ Control.bell :: after) = before := by
  rw [beforeBell, List.takeWhile_append_of_pos (ne_bell_of_not_mem h),
    List.takeWhile_cons_of_neg (by simp), List.append_nil]

/-- After the first bell is what follows it, up to an end. -/
theorem afterBell_of_split {before : Bytes} (h : Control.bell ∉ before) (after : Bytes) :
    afterBell (before ++ Control.bell :: after) = after.takeWhile (!isEnd ·) := by
  rw [afterBell, List.dropWhile_append_of_pos (ne_bell_of_not_mem h),
    List.dropWhile_cons_of_neg (by simp)]
  rfl

/-- The first bell is where the error is. -/
theorem errorOffset?_eq {reply : Reply} (h : Control.bell ∈ reply.data) :
    reply.errorOffset? = some (beforeBell reply.data).length ∧
      reply.data.take (beforeBell reply.data).length = beforeBell reply.data := by
  obtain ⟨before, after, hdata, hbefore⟩ := List.eq_append_cons_of_mem h
  have hsplit : beforeBell reply.data = before := by
    rw [hdata, beforeBell_of_split hbefore]
  rw [hsplit]
  refine ⟨Device.errorOffset?_of_bell hbefore hdata, ?_⟩
  rw [hdata, List.take_left]

/-- A device error is reported just if there is a bell in the data. -/
theorem isDeviceError_iff {reply : Reply} :
    reply.isDeviceError = true ↔ Control.bell ∈ reply.data := by
  by_cases h : Control.bell ∈ reply.data
  · rw [isDeviceError, (errorOffset?_eq h).1]
    exact iff_of_true rfl h
  · rw [isDeviceError, Device.errorOffset?_of_not_mem h]
    exact iff_of_false Bool.false_ne_true h

/-- What stands before some ends. -/
theorem takeWhile_of_ends {p : UInt8 → Bool} {bytes ends : Bytes}
    (hbytes : ∀ byte ∈ bytes, p byte = true) (hends : ∀ byte ∈ ends, p byte = false) :
    (bytes ++ ends).takeWhile p = bytes := by
  rw [List.takeWhile_append_of_pos hbytes]
  cases ends with
  | nil => exact List.append_nil bytes
  | cons byte more =>
    rw [List.takeWhile_cons_of_neg (by simp [hends byte List.mem_cons_self]), List.append_nil]

/-- No end is a bell. -/
private theorem bell_not_mem_append {bytes ends : Bytes} (hbytes : Control.bell ∉ bytes)
    (hends : ∀ byte ∈ ends, isEnd byte = true) : Control.bell ∉ bytes ++ ends := by
  intro hmem
  rcases List.mem_append.mp hmem with hmem | hmem
  · exact hbytes hmem
  · exact absurd (hends _ hmem) (by decide)

/-- No end comes after a bell, or the message would be over. -/
private theorem Endless.after_bell {before after : Bytes}
    (h : Endless (before ++ Control.bell :: after)) :
    ∀ byte ∈ after, isEnd byte = false := by
  intro byte hbyte
  have hmem : byte ∈ before ++ Control.bell :: after :=
    List.mem_append_right before (List.mem_cons_of_mem _ hbyte)
  obtain ⟨hack, hlineFeed⟩ := h.not_mem
  rw [isEnd, Bool.or_eq_false_iff, Bool.or_eq_false_iff, beq_eq_false_iff_ne, beq_eq_false_iff_ne,
    beq_eq_false_iff_ne]
  refine ⟨⟨?_, fun heq => hack (heq ▸ hmem)⟩, fun heq => hlineFeed (heq ▸ hmem)⟩
  rintro rfl
  -- a carriage return with a bell before it is an end
  obtain ⟨i, hi⟩ := List.getElem?_of_mem hbyte
  have hplace : (before ++ Control.bell :: after)[before.length + (i + 1)]? =
      some Control.carriageReturn := by
    rw [List.getElem?_append_right (Nat.le_add_right ..), Nat.add_sub_cancel_left,
      List.getElem?_cons_succ, hi]
  refine h (before.length + (i + 1)) (Or.inr (Or.inr ⟨hplace, Or.inl ?_⟩))
  rw [List.take_length_add_append, List.take_succ_cons]
  exact List.mem_append_right before List.mem_cons_self

/-! ### What is rewritten -/

/-- How the bytes taken for a reply are stored: some in which no message ends as they are, and then
    an end, or a byte that the limit gave to one. -/
structure Rewritten (taken : Bytes) (reply : Reply) (used : Bytes) : Prop where
  endless : Endless used
  stored : ∃ ends, reply.data = used ++ ends ∧
    ∀ byte ∈ ends, byte = Control.carriageReturn ∨ byte = Control.ack
  whole : reply.termination ≠ .truncated →
    ∃ ends, taken = used ++ ends ∧ ∀ byte ∈ ends, isEnd byte = true
  cut : reply.termination = .truncated →
    ∃ byte, taken = used ++ [byte] ∧ reply.data = used ++ [Control.ack]

variable {taken used : Bytes} {reply : Reply}

/-- What is spared are the bytes that were used, and ends. -/
private theorem Rewritten.spared_eq (h : Rewritten taken reply used) :
    ∃ ends, spared taken reply.termination = used ++ ends ∧ ∀ byte ∈ ends, isEnd byte = true := by
  unfold spared
  split
  · next hcut =>
    obtain ⟨byte, rfl, -⟩ := h.cut hcut
    exact ⟨[], by rw [List.dropLast_concat, List.append_nil], by simp⟩
  · next hwhole => exact h.whole hwhole

/-- So is what was taken, and something more. -/
private theorem Rewritten.taken_eq (h : Rewritten taken reply used) :
    ∃ ends, taken = used ++ ends := by
  by_cases hcut : reply.termination = .truncated
  · obtain ⟨byte, htaken, -⟩ := h.cut hcut
    exact ⟨[byte], htaken⟩
  · obtain ⟨ends, htaken, -⟩ := h.whole hcut
    exact ⟨ends, htaken⟩

/-- A bell that is stored is reported, with what is around it. -/
private theorem Rewritten.reports_of_mem (h : Rewritten taken reply used)
    (hbell : Control.bell ∈ used) :
    Reports taken reply := by
  -- the data, the spared bytes and the taken ones are all cut at the first bell
  obtain ⟨before, after, rfl, hbefore⟩ := List.eq_append_cons_of_mem hbell
  have hafter := h.endless.after_bell
  obtain ⟨stored, hdata, hstored⟩ := h.stored
  obtain ⟨ends, hspared, hends⟩ := h.spared_eq
  obtain ⟨rest, htaken⟩ := h.taken_eq
  rw [List.append_assoc, List.cons_append] at hdata hspared htaken
  have hoffset := Device.errorOffset?_of_bell hbefore hdata
  have hmem : Control.bell ∈ spared taken reply.termination := by
    rw [hspared]
    exact List.mem_append_right before List.mem_cons_self
  refine ⟨⟨fun _ => hmem, fun _ => ?_⟩, fun _ => ?_, fun _ => ?_⟩
  · rw [isDeviceError, hoffset]
    rfl
  · -- the code goes up to what was stored as an end, and no byte of it is one
    have hcode : (after ++ stored).takeWhile
        (fun byte => byte != Control.carriageReturn && byte != Control.ack) = after := by
      refine takeWhile_of_ends (fun byte hbyte => ?_) fun byte hbyte => ?_
      · have hnot := hafter byte hbyte
        simp only [isEnd, Bool.or_eq_false_iff, beq_eq_false_iff_ne] at hnot
        simp [hnot.1.1, hnot.1.2]
      · rcases hstored byte hbyte with rfl | rfl <;> rfl
    have hdrop : reply.data.drop (before.length + 1) = after ++ stored := by
      rw [hdata, List.drop_length_add_append]
      rfl
    rw [errorCode?, hoffset, Option.map_some, hdrop, hcode, hspared, afterBell_of_split hbefore,
      takeWhile_of_ends (by simpa using hafter) (by simpa using hends)]
  · rw [valuesText, hoffset, htaken, beforeBell_of_split hbefore]
    simp only [hdata, List.take_left]

/-- Without one there is no error, and a bell can only have been in the last place. -/
private theorem Rewritten.reports_of_not_mem (h : Rewritten taken reply used)
    (hbell : Control.bell ∉ used) : Reports taken reply := by
  obtain ⟨stored, hdata, hstored⟩ := h.stored
  obtain ⟨ends, hspared, hends⟩ := h.spared_eq
  have hsilent : Control.bell ∉ spared taken reply.termination := by
    rw [hspared]
    exact bell_not_mem_append hbell hends
  have hnone : Control.bell ∉ reply.data := by
    rw [hdata]
    refine bell_not_mem_append hbell fun byte hbyte => ?_
    rcases hstored byte hbyte with rfl | rfl <;> rfl
  refine ⟨⟨fun herror => absurd (isDeviceError_iff.mp herror) hnone,
    fun hmem => absurd hmem hsilent⟩, fun hmem => absurd hmem hsilent, fun hmem => ?_⟩
  -- a bell that was taken all the same is the one that the limit overwrote
  by_cases hcut : reply.termination = .truncated
  · obtain ⟨byte, rfl, hlast⟩ := h.cut hcut
    obtain rfl : Control.bell = byte := by
      simpa using (List.mem_append.mp hmem).resolve_left hbell
    have hbody : reply.body = used := by
      rw [body, hlast, if_pos List.getLast?_concat, List.dropLast_concat]
    rw [valuesText, Device.errorOffset?_of_not_mem hnone, beforeBell_of_split hbell]
    simp only [text, hbody]
  · rw [spared, if_neg hcut] at hsilent
    exact absurd hmem hsilent

/-- A rewritten reply reports what its bytes tell. -/
theorem Rewritten.reports (h : Rewritten taken reply used) : Reports taken reply := by
  by_cases hbell : Control.bell ∈ used
  · exact h.reports_of_mem hbell
  · exact h.reports_of_not_mem hbell

/-! ### What a scanner reports -/

namespace Scanner

/-- What ends a message is an end. -/
private theorem isEnd_of_endsMessage {byte : UInt8} (h : endsMessage used byte = true) :
    isEnd byte = true := by
  simp only [endsMessage, Bool.or_eq_true, Bool.and_eq_true, beq_iff_eq] at h
  rcases h with (rfl | rfl) | ⟨rfl, -⟩ <;> rfl

/-- What a scanner has stored is rewritten from the bytes it took. -/
theorem Standing.rewritten {max : Nat} {s : Scanner} (h : Standing max taken s) :
    ∃ used, Rewritten taken s.finish used := by
  cases h with
  | reading hendless _ _ hdata hphase =>
    rw [finish_of_reading hphase]
    refine ⟨taken, hendless, ⟨[], ?_, by simp⟩, fun _ => ⟨[], (List.append_nil _).symm, by simp⟩,
      fun hcut => by cases hcut⟩
    rw [List.append_nil, hdata]
  | @ended used byte _ hendless _ hends hdata hphase =>
    rw [finish_of_closed hphase]
    -- the byte that ended the message is rewritten, and this is no truncation
    refine ⟨used, hendless, ⟨_, hdata, ?_⟩, fun _ => ⟨[byte], rfl, ?_⟩, ?_⟩
    · rw [lastBytes]
      split
      · next h => simp [h.1]
      · simp
    · simpa using isEnd_of_endsMessage hends
    · intro hcut
      unfold endingOf at hcut
      split at hcut
      · cases hcut
      · split at hcut <;> cases hcut
  | @cut used byte _ hendless _ hdata hphase =>
    rw [finish_of_closed hphase]
    refine ⟨used, ?_, ⟨[Control.ack], hdata, by simp⟩, fun hwhole => absurd rfl hwhole,
      fun _ => ⟨byte, rfl, hdata⟩⟩
    -- an end before the last byte would be one with that byte as well
    intro i hi
    exact hendless i ((endsAt_append hi.lt_length [byte]).mpr hi)

/-- **Which errors a reply reports.** Whatever the limit and however a stream is cut into chunks, a
    reply reports an error just if there is a bell among the bytes that were taken for it and not
    overwritten by the limit; its code is what follows the first bell. In any case the values are
    what comes before the first bell. -/
theorem feedAll_reports (maxLength : Nat) (chunks : List Bytes) :
    Reports (chunks.flatten.take ((new maxLength).feedAll chunks).2)
      ((new maxLength).feedAll chunks).1.finish := by
  obtain ⟨taken, rest, hstream, hcount, hstanding, -⟩ := (standing_new maxLength).feedAll chunks
  rw [List.nil_append] at hstanding
  obtain ⟨used, hrewritten⟩ := hstanding.rewritten
  rw [hstream, hcount, List.take_left]
  exact hrewritten.reports

/-- A value and the bell of a report, which is in the last place: it is taken, and the reply does
    not report an error. -/
theorem feedAll_bell_in_last_place :
    Control.bell ∈ [[0x31, 0x0D], [0x07, 0x45, 0x0D]].flatten.take
        ((new 3).feedAll [[0x31, 0x0D], [0x07, 0x45, 0x0D]]).2 ∧
      ((new 3).feedAll [[0x31, 0x0D], [0x07, 0x45, 0x0D]]).1.finish.isDeviceError = false := by
  decide

end Scanner

end PmacPoll.Reply
