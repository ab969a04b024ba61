import PmacPoll.Proofs.FrameCodec
import PmacPoll.Proofs.FrameOrder

/-!
# The command bytes on the wire

What the frames of an exchange carry of its command, told from the calls on the transport alone:
`commandData` decodes what was handed over where the transport took it. An exchange counts exactly
the bytes of its command that it puts on record, whatever comes of it, `Channel.writeRead_counted`.
-/

namespace PmacPoll

open Running

variable {σ : Type}

/-! ### What is carried -/

/-- The bytes of a command that a frame carries. A control character is in the value of its
    frame. -/
def Frame.commandData (frame : Frame) : Bytes :=
  if frame.opcode = Opcode.getResponse then frame.payload
  else if frame.opcode = Opcode.controlResponse then [frame.value.toUInt8] else []

/-- The bytes of commands that a call hands to a transport that takes them. -/
def Call.commandData : Call → Bytes
  | write data (.ok _) => (Frame.decodeAll data).frames.flatMap Frame.commandData
  | _ => []

/-- The bytes of commands that went out with some calls. -/
def commandData (calls : List Call) : Bytes :=
  calls.flatMap Call.commandData

/-- A record carries what its first call carries, and then the rest. -/
@[simp] theorem commandData_cons (call : Call) (calls : List Call) :
    commandData (call :: calls) = call.commandData ++ commandData calls :=
  List.flatMap_cons

/-- A record carries what its parts carry. -/
@[simp] theorem commandData_append (calls later : List Call) :
    commandData (calls ++ later) = commandData calls ++ commandData later :=
  List.flatMap_append

/-- The frame of a command carries it, as far as it fits. -/
private theorem Frame.commandData_ofCommand (command : Bytes) :
    (Frame.ofCommand command).commandData = command.take Frame.maxPayload := by
  rw [Frame.ofCommand]
  cases hcontrol : Frame.controlCharacter? command with
  | none => rfl
  | some character =>
    obtain ⟨rfl, -⟩ := Frame.eq_of_controlCharacter hcontrol
    have hvalue : (Frame.control character).commandData = [character.toUInt16.toUInt8] := rfl
    rw [UInt8.toUInt8_toUInt16] at hvalue
    exact hvalue

namespace Call

/-- A frame that was taken as a whole carries what is in it. -/
private theorem commandData_write {frame : Frame} (h : frame.Complete) (count : Nat) :
    (write frame.encode (.ok count)).commandData = frame.commandData := by
  rw [commandData, Frame.decodeAll_encode h]
  exact List.append_nil _

/-- The frames around a command carry nothing of it. -/
private theorem commandData_write_eq_nil {frame : Frame} (h : frame.Complete)
    (hframe : frame.commandData = []) (outcome : Except LinkError Nat) :
    (write frame.encode outcome).commandData = [] := by
  cases outcome with
  | ok count => rw [commandData_write h, hframe]
  | error cause => rfl

/-- A read carries nothing to the device. -/
private theorem commandData_of_isRead {call : Call} (h : call.isRead = true) :
    call.commandData = [] := by
  cases call with
  | read => rfl
  | write | reconnect => exact nomatch h

end Call

/-- Reads carry nothing to the device. -/
private theorem commandData_of_reads {calls : List Call} (h : ∀ call ∈ calls, call.isRead = true) :
    commandData calls = [] :=
  List.flatMap_eq_nil_iff.mpr fun call hcall => Call.commandData_of_isRead (h call hcall)

/-- Neither do probes and fetches. -/
private theorem Probes.commandData_eq_nil {calls : List Call} (h : Probes calls) :
    commandData calls = [] := by
  have hprobe := Call.commandData_write_eq_nil Frame.complete_readReady rfl
  have hfetch := Call.commandData_write_eq_nil (Frame.complete_getBuffer Frame.maxRead) rfl
  -- by the shape of the probes, of which every write is one of the two frames
  induction h with
  | nil => rfl
  | read _ _ _ _ ih => exact ih
  | probe outcome _ ih => rw [commandData_cons, hprobe, ih, List.append_nil]
  | fetch count _ _ outcome hreads _ _ _ ih =>
    rw [commandData_cons, commandData_append, commandData_cons, hprobe, hfetch,
      commandData_of_reads hreads, ih]
    rfl

/-! ### What an exchange puts on record of its command -/

namespace Channel

variable [Transport σ]

/-- A flush carries nothing of a command. -/
private theorem flush_commandless :
    Makes recorded (flush (σ := Recorded σ)) (flush (σ := σ)) fun calls _ =>
      commandData calls = [] := by
  -- a flush has no text, and its answer is read
  have hflush : ∀ outcome answer, (∀ call ∈ answer, call.isRead = true) →
      commandData (.write Frame.flush.encode outcome :: answer) = [] := by
    intro outcome answer hanswer
    rw [commandData_cons, commandData_of_reads hanswer,
      Call.commandData_write_eq_nil Frame.complete_flush rfl, List.append_nil]
  have hread : ∀ ms outcome, ∀ call ∈ [Call.read 1 ms outcome], call.isRead = true :=
    fun _ _ => List.forall_mem_singleton.mpr rfl
  exact makes_flush (fun cause => hflush _ [] (List.forall_mem_nil _))
    (fun count ms bytes => hflush _ _ (hread ms _))
    (fun count ms cause _ => hflush _ _ (hread ms _))
    fun count ms cause _ => hflush _ _ (hread ms _)

/-- The bytes of a command that are out before its reply is read. -/
def sentData (command : Bytes) : Except (Stop LinkError) Unit → Bytes
  | .ok () => command.take Frame.maxPayload
  | .error _ => []

/-- What goes out at the beginning of an exchange is its command, and nothing if that fails. -/
private theorem beginExchange_sends (command : Bytes) :
    Makes recorded (beginExchange (σ := Recorded σ) command) (beginExchange (σ := σ) command)
      fun calls r => commandData calls = sentData command r := by
  -- sent in full or not at all, the command is in the one frame
  have hsend : Makes recorded (sendCommand (σ := Recorded σ) command)
      (sendCommand (σ := σ) command) fun calls r => commandData calls = sentData command r := by
    refine makes_sendCommand (fun _ => rfl) fun count => ?_
    rw [commandData_cons, Call.commandData_write (Frame.complete_ofCommand command),
      Frame.commandData_ofCommand]
    exact List.append_nil _
  refine makes_beginExchange (R := fun _ calls r => commandData calls = sentData command r)
    flush_commandless hsend (fun _ _ h => h)
    (fun calls later r h h' => ?_) fun _ _ h => h
  rw [commandData_append, h, h', List.nil_append]

/-- An exchange counts the bytes of its command that it puts on record, whether or not there is a
    reply. -/
theorem writeRead_counted (command : Bytes) (c : Channel (Recorded σ)) :
    ∃ calls, (finalState (writeRead command c)).link.calls = c.link.calls ++ calls ∧
      (finalState (writeRead command c)).lastWritten = (commandData calls).length ∧
      ∀ x c', writeRead command c = .ok x c' → x.written = (commandData calls).length := by
  obtain ⟨calls, hrun, hcalls⟩ := beginExchange_sends command
    { c with link := c.link.link } c.link.calls
  have hbegin : beginExchange command c = _ := hrun
  have hlast := lastWritten_beginExchange command { c with link := c.link.link }
  rw [writeRead_eq_begin, bind_run, hbegin]
  cases hplain : beginExchange command { c with link := c.link.link } with
  | error stop sent =>
    -- the command did not go out, and what an earlier one left is not counted again
    rw [hplain] at hcalls hlast
    have hnone : commandData calls = [] := hcalls
    refine ⟨calls, rfl, hlast.trans (by rw [hnone]; rfl), fun x c' hx => ?_⟩
    cases hx
  | ok u sent =>
    rw [hplain] at hcalls hlast
    have hsome : commandData calls = command.take Frame.maxPayload := hcalls
    obtain ⟨later, hrun', hprobes, -⟩ := readReply_makes sent (c.link.calls ++ calls)
    have hreply : readReply (sent.recorded (c.link.calls ++ calls)) = _ := hrun'
    have hkept := lastWritten_readReply sent
    -- what reads the reply adds nothing, so the record has what went out before it
    have hall : (commandData (calls ++ later)).length = min command.length Frame.maxPayload := by
      rw [commandData_append, hprobes.commandData_eq_nil, List.append_nil, hsome,
        List.length_take, Nat.min_comm]
    refine ⟨calls ++ later, ?_⟩
    rw [hall]
    simp only [onState, bind_run, hreply]
    cases hread : readReply sent with
    | ok reply c' =>
      rw [hread] at hkept
      refine ⟨List.append_assoc .., hkept.trans hlast, fun x c'' hx => ?_⟩
      obtain ⟨rfl, -⟩ := EStateM.Result.ok.inj hx
      rfl
    | error stop c' =>
      rw [hread] at hkept
      refine ⟨List.append_assoc .., hkept.trans hlast, fun x c'' hx => ?_⟩
      cases hx

end Channel

end PmacPoll
