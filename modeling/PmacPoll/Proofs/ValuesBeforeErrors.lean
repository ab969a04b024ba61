import PmacPoll.Proofs.PositionalUpdates
import PmacPoll.Proofs.ReportedErrors

/-!
# Values before an error

A controller that cannot go on with a command sends the values that it has, then a bell, a code and
a carriage return: an `errorMessage`. The scanner, the text of the values, the code and the table
each look for an end of their own in these bytes, and if they just fit into the limit the carriage
return gives way to an acknowledge. All the same they agree: the text is that of the values, the
code is the code, and a table is given the lines of the values and nothing else,
`feedAll_errorMessage`.
-/

namespace PmacPoll.Reply

open VariableTable

/-- A byte that may stand before the bell: it ends no message and opens no block. -/
def IsQuiet (b : UInt8) : Prop :=
  b ≠ Control.stx ∧ b ≠ Control.ack ∧ b ≠ Control.bell ∧ b ≠ Control.lineFeed

/-- A byte that may stand in a code: it does not end the report. -/
def IsCode (b : UInt8) : Prop :=
  b ≠ Control.carriageReturn ∧ b ≠ Control.ack ∧ b ≠ Control.lineFeed

instance (b : UInt8) : Decidable (IsQuiet b) := inferInstanceAs (Decidable (_ ∧ _ ∧ _ ∧ _))

instance (b : UInt8) : Decidable (IsCode b) := inferInstanceAs (Decidable (_ ∧ _ ∧ _))

/-- Some values, and the report of an error after them. -/
def errorMessage (values code : Bytes) : Bytes :=
  values ++ Control.bell :: code ++ [Control.carriageReturn]

/-- The lines of some bytes are what a carriage return ends in them; what follows the last one is no
    line. -/
def HasLines (bytes : Bytes) (lines : List Bytes) : Prop :=
  (∀ line ∈ lines, Control.carriageReturn ∉ line) ∧ ∃ rest, Control.carriageReturn ∉ rest ∧
    bytes = lines.flatMap (· ++ [Control.carriageReturn]) ++ rest

/-- A complete reply that tells the values and the code of an error. -/
structure TellsError (values code : Bytes) (reply : Reply) : Prop where
  complete : reply.isComplete = true
  termination : reply.termination = .block
  values : reply.valuesText = Utf8.decode values
  code : reply.errorCode? = some (Text.trim (Utf8.decode code))

variable {values code : Bytes}

/-- No message ends before the carriage return of a report. -/
private theorem endless_report
    (hvalues : ∀ b ∈ values, IsQuiet b) (hcode : ∀ b ∈ code, IsCode b) :
    Endless (values ++ Control.bell :: code) := by
  have hnot : ∀ {b : UInt8}, b ∈ values ++ Control.bell :: code →
      b ≠ Control.ack ∧ b ≠ Control.lineFeed := by
    intro b hb
    rcases List.mem_append.mp hb with hb | hb
    · exact ⟨(hvalues b hb).2.1, (hvalues b hb).2.2.2⟩
    · rcases List.mem_cons.mp hb with rfl | hb
      · decide
      · exact (hcode b hb).2
  rintro i (hack | hlineFeed | ⟨hreturn, hopener⟩)
  · exact (hnot (List.mem_of_getElem? hack)).1 rfl
  · exact (hnot (List.mem_of_getElem? hlineFeed)).2 rfl
  · rcases Nat.lt_or_ge i values.length with hlt | hge
    · -- nothing opens a block before a carriage return among the values
      rw [List.take_append_of_le_length (Nat.le_of_lt hlt)] at hopener
      rcases hopener with hbell | hstx
      · exact (hvalues _ (List.mem_of_mem_take hbell)).2.2.1 rfl
      · exact (hvalues _ (List.mem_of_mem_take hstx)).1 rfl
    · rw [List.getElem?_append_right hge] at hreturn
      rcases List.mem_cons.mp (List.mem_of_getElem? hreturn) with hbell | hcr
      · exact absurd hbell (by decide)
      · exact (hcode _ hcr).1 rfl

/-- A report is a message, whatever values are before it. -/
private theorem firstEnd_report (hvalues : ∀ b ∈ values, IsQuiet b) (hcode : ∀ b ∈ code, IsCode b) :
    FirstEnd (errorMessage values code) (values ++ Control.bell :: code).length := by
  have hends : endsMessage (values ++ Control.bell :: code) Control.carriageReturn = true := by
    simp [endsMessage, Control.opensBlock]
  have hiff := Scanner.firstEnd_iff (endless_report hvalues hcode) hends []
  rw [List.append_nil] at hiff
  exact (hiff _).mpr rfl

/-- The error that a whole report tells is the one that was sent. -/
private theorem tellsError_of_reports {reply : Reply} (hvalues : ∀ b ∈ values, IsQuiet b)
    (hcode : ∀ b ∈ code, IsCode b) (hblock : reply.termination = .block)
    (h : Reports (errorMessage values code) reply) : TellsError values code reply := by
  have hbell : Control.bell ∉ values := fun hmem => (hvalues _ hmem).2.2.1 rfl
  have hsplit : errorMessage values code =
      values ++ Control.bell :: (code ++ [Control.carriageReturn]) := by
    simp only [errorMessage, List.append_assoc, List.cons_append]
  have hmem : Control.bell ∈ errorMessage values code := by
    rw [hsplit]
    exact List.mem_append_right values List.mem_cons_self
  have hspared : spared (errorMessage values code) reply.termination =
      errorMessage values code := by
    rw [hblock]
    exact if_neg nofun
  refine ⟨by rw [isComplete, hblock]; rfl, hblock, ?_, ?_⟩
  · rw [h.values hmem, hsplit, beforeBell_of_split hbell]
  · -- the code goes as far as the carriage return, the first end in it
    have hcode' : (code ++ [Control.carriageReturn]).takeWhile (!isEnd ·) = code := by
      refine takeWhile_of_ends (fun b hb => ?_) (List.forall_mem_singleton.mpr rfl)
      obtain ⟨hreturn, hack, hlineFeed⟩ := hcode b hb
      simp [isEnd, hreturn, hack, hlineFeed]
    rw [h.code (by rw [hspared]; exact hmem), hspared, hsplit, afterBell_of_split hbell, hcode']

/-- Some bytes have just the lines that are found in them. -/
private theorem hasLines_iff {bytes : Bytes} {lines : List Bytes} :
    HasLines bytes lines ↔ Text.ended (· == Control.carriageReturn) bytes = lines := by
  constructor
  · rintro ⟨hfree, rest, hrest, rfl⟩
    exact Text.ended_flatMap_append hfree hrest
  · rintro rfl
    exact ⟨fun line => Text.not_mem_ended, Text.exists_rest Control.carriageReturn bytes⟩

namespace Scanner

/-- **An error is told as it was sent.** Whatever the chunks in which the report of an error comes
    after some values, a scanner with a limit that is not less takes all of it and closes. The text
    of the values and the code are those that were sent. An update with the text gives the names of
    any command, place by place, the lines of the values: not what follows the last of them, and
    nothing of the code. -/
theorem feedAll_errorMessage {limit : Nat} {chunks : List Bytes}
    (hvalues : ∀ b ∈ values, IsQuiet b) (hcode : ∀ b ∈ code, IsCode b)
    (hlimit : values.length + code.length + 2 ≤ limit)
    (hchunks : chunks.flatten = errorMessage values code) :
    ((new limit).feedAll chunks).2 = (errorMessage values code).length ∧
    TellsError values code ((new limit).feedAll chunks).1.finish ∧
    ∃ lines, HasLines values lines ∧
      ∀ (t : VariableTable) (command : String), t.Built →
        let text := ((new limit).feedAll chunks).1.finish.valuesText
        Positional (Text.words command) (lines.map Utf8.decode) t
          (t.updateChunk command text).1 (t.updateChunk command text).2 := by
  obtain ⟨taken, rest, hstream, hcount, hstanding, hrest⟩ := (standing_new limit).feedAll chunks
  rw [List.nil_append] at hstanding
  have hclosed := hstanding.closedForm hrest
  rw [← hstream, hchunks] at hclosed
  rw [hchunks] at hstream
  -- what is known of the scanner that was fed
  generalize ((new limit).feedAll chunks).1 = s at *
  -- the only end is the last byte, and it is within the limit
  have hlength : (values ++ Control.bell :: code).length = values.length + code.length + 1 := by
    simp only [List.length_append, List.length_cons]
    omega
  obtain ⟨htaken, -, -, -, hblock⟩ := hclosed.ended _ (firstEnd_report hvalues hcode) (by omega)
  have hfinish := hblock List.getElem?_concat_length
  have htermination : s.finish.termination = .block := congrArg Reply.termination hfinish
  -- so all was taken, and nothing of it was cut off
  have hall : taken = errorMessage values code := by
    have hwhole : taken.length = (errorMessage values code).length := by
      rw [htaken, hlength, errorMessage, List.append_assoc, List.length_append, List.length_append]
      simp only [List.length_cons, List.length_nil]
      omega
    rw [hstream, List.length_append] at hwhole
    rw [hstream, List.eq_nil_of_length_eq_zero (by omega : rest.length = 0), List.append_nil]
  -- the reply tells what the bytes tell, as the scanner has stored them
  have htells : TellsError values code s.finish := by
    obtain ⟨used, hrewritten⟩ := hstanding.rewritten
    rw [hall] at hrewritten
    exact tellsError_of_reports hvalues hcode htermination hrewritten.reports
  refine ⟨by rw [hcount, hall], htells, _, hasLines_iff.mpr rfl, fun t command ht => ?_⟩
  rw [htells.values, ← Utf8.endedLines_decode]
  exact positional_assign (kept_of_built ht) _ _

/-- One value, the beginning of another one, and an error, in four chunks and at the limit, where
    the carriage return behind the code gives way. -/
theorem feedAll_errorMessage_atLimit :
    let t := VariableTable.empty.addAll ["P1", "P2"]
    let reply := ((new 7).feedAll [[0x31], [0x0D, 0x32, 0x07], [0x45], [0x20, 0x0D]]).1.finish
    reply.termination = .block ∧ reply.valuesText = "1\r2" ∧ reply.errorCode? = some "E" ∧
      (t.updateChunk "P1 P2" reply.valuesText).1 = .error ⟨2, 1, 1⟩ ∧
      (t.updateChunk "P1 P2" reply.valuesText).2.read "P1" = "1" ∧
      (t.updateChunk "P1 P2" reply.valuesText).2.read "P2" = t.read "P2" := by
  intro t reply
  have hnames : t.names = ["P1", "P2"] := (addAll_pair (by decide)).1
  have hchunks : [[0x31], [0x0D, 0x32, 0x07], [0x45], [0x20, 0x0D]].flatten =
      errorMessage [0x31, 0x0D, 0x32] [0x45, 0x20] := by decide
  have hlimit : 3 + 2 + 2 ≤ 7 := by decide
  obtain ⟨-, htells, lines, hlines, hupdate⟩ :=
    feedAll_errorMessage (by decide +kernel) (by decide +kernel) hlimit hchunks
  obtain rfl : lines = [[0x31]] := by
    rw [← hasLines_iff.mp hlines]
    decide
  have hvalues : reply.valuesText = "1\r2" := by
    rw [show reply.valuesText = _ from htells.values]
    decide +kernel
  have hcode : reply.errorCode? = some "E" := by
    rw [show reply.errorCode? = _ from htells.code]
    decide +kernel
  -- the command asks for both names, and there is one line
  have hplaces := hupdate t "P1 P2" (Built.empty.addAll _)
  rw [show Text.words "P1 P2" = ["P1", "P2"] by decide,
    show [[0x31]].map Utf8.decode = ["1"] by decide +kernel] at hplaces
  refine ⟨htells.termination, hvalues, hcode, ?_, ?_, ?_⟩
  · rw [hplaces.returned, writtenIn, hnames]
    rfl
  · refine hplaces.last (by rw [hnames]; decide) (i := 0) ⟨rfl, rfl⟩ fun line j hother => ?_
    -- no line has a place behind the first one
    obtain ⟨hlt, -⟩ := List.getElem?_eq_some_iff.mp hother.2
    exact Nat.le_of_lt_succ hlt
  · refine hplaces.others fun _ line i hplace => ?_
    obtain ⟨hlt, -⟩ := List.getElem?_eq_some_iff.mp hplace.2
    obtain rfl : i = 0 := Nat.lt_one_iff.mp hlt
    exact absurd hplace.1 (by decide)

end Scanner

end PmacPoll.Reply
