import PmacPoll.Proofs.DeviceExchange

/-!
# What a device has been asked

A device keeps a record of the commands that it receives. Most of what a channel does on its link
asks nothing: it reads, it probes, it fetches what is held back, and it has the device drop what is
waiting, `AsksNothing`. So an exchange adds one entry to the record and no other,
`commands_writeRead`.
-/

namespace PmacPoll.Device

open Running

variable {α β : Type}

/-! ### Calls that ask nothing -/

/-- Nothing was asked between the two, and no frame is half received in the end. -/
structure Unasked (d d' : Device) : Prop where
  inbound : d'.inbound = []
  commands : d'.commands = d.commands

/-- Calls that ask nothing, one after another, ask nothing. -/
theorem Unasked.trans {d₁ d₂ d₃ : Device} (h : Unasked d₁ d₂) (h' : Unasked d₂ d₃) :
    Unasked d₁ d₃ :=
  ⟨h'.inbound, h'.commands.trans h.commands⟩

/-- However a call ends, it has asked nothing of a device that has received whole frames. -/
def AsksNothing (x : Link Device α) : Prop :=
  ∀ d : Device, d.inbound = [] → Unasked d (finalState (x d))

/-- Giving a value asks nothing. -/
theorem asksNothing_pure (a : α) : AsksNothing (pure a : Link Device α) :=
  fun _ hinbound => ⟨hinbound, rfl⟩

/-- Failing asks nothing. -/
theorem asksNothing_throw (cause : LinkError) : AsksNothing (throw cause : Link Device α) :=
  fun _ hinbound => ⟨hinbound, rfl⟩

/-- What asks nothing, one after another, asks nothing. -/
theorem AsksNothing.bind {x : Link Device α} {f : α → Link Device β} (hx : AsksNothing x)
    (hf : ∀ a, AsksNothing (f a)) : AsksNothing (x >>= f) := by
  intro d hinbound
  have h := hx d hinbound
  rw [bind_run]
  -- the second operation runs only if the first one ended without an error
  cases hrun : x d with
  | ok a d₁ =>
    rw [hrun] at h
    exact h.trans (hf a d₁ h.inbound)
  | error cause d₁ =>
    rw [hrun] at h
    exact h

/-- Catching a failure does not change what was asked. -/
theorem AsksNothing.attempt {x : Link Device α} (hx : AsksNothing x) :
    AsksNothing (Link.attempt x) := by
  intro d hinbound
  have h := hx d hinbound
  rw [attempt_run]
  cases hrun : x d with
  | ok a d₁ => rw [hrun] at h; exact h
  | error cause d₁ => rw [hrun] at h; exact h

/-- A read takes from what is waiting. -/
theorem asksNothing_read (size timeoutMs : Nat) :
    AsksNothing (Transport.read size timeoutMs : Link Device _) := by
  intro d hinbound
  change Unasked d (finalState (read size timeoutMs d))
  rw [read]
  split
  · split
    · exact ⟨hinbound, rfl⟩
    · exact ⟨hinbound, rfl⟩
  · exact ⟨hinbound, rfl⟩

/-- A frame that a device handles without asking its record. -/
theorem asksNothing_send {frame : Frame} (hframe : frame.Complete)
    (hhandle : ∀ d : Device, (d.handle frame).inbound = d.inbound ∧
      (d.handle frame).commands = d.commands) : AsksNothing (Link.send frame) := by
  intro d hinbound
  cases hconnected : d.connected with
  | true =>
    have hsame : (d.handle frame).inbound = [] := (hhandle d).1.trans hinbound
    rw [send_eq ⟨hconnected, hinbound⟩ hframe hsame]
    exact ⟨hsame, (hhandle d).2⟩
  | false =>
    rw [send_disconnected hconnected]
    exact ⟨hinbound, rfl⟩

/-- A probe asks nothing: its answer goes to the reader. -/
theorem asksNothing_probe : AsksNothing (Link.send Frame.readReady) :=
  asksNothing_send Frame.complete_readReady fun _ => ⟨rfl, rfl⟩

/-- Nor does a call for what is held back. -/
theorem asksNothing_getBuffer (size : Nat) : AsksNothing (Link.send (Frame.getBuffer size)) :=
  asksNothing_send (Frame.complete_getBuffer size) fun _ => ⟨rfl, rfl⟩

/-- Reading a number of bytes asks nothing, in however many reads they come. -/
theorem asksNothing_gather (timeoutMs wanted : Nat) :
    AsksNothing (Link.gather timeoutMs wanted) := by
  -- each read brings a byte, so there is less to gather after it
  induction wanted using Nat.strongRecOn with
  | ind wanted ih =>
    cases wanted with
    | zero =>
      rw [Link.gather]
      exact asksNothing_pure []
    | succ wanted =>
      rw [Link.gather]
      apply (asksNothing_read (wanted + 1) timeoutMs).attempt.bind
      intro result
      -- silence ends it, and after some bytes there is less to read
      split
      · exact asksNothing_pure []
      · next byte more hsize =>
        exact (ih _ (by omega)).bind fun later => asksNothing_pure _
      · split
        · exact asksNothing_pure []
        · exact asksNothing_throw _

/-- Asking whether there is data asks nothing of the device itself. -/
theorem asksNothing_isReady (timeoutMs : Nat) : AsksNothing (Link.isReady timeoutMs) :=
  asksNothing_probe.bind fun _ => (asksNothing_gather timeoutMs 2).bind fun _ => asksNothing_pure _

/-- A fetch is a probe, a call for the data and a read. -/
theorem asksNothing_fetch (probeMs size timeoutMs : Nat) :
    AsksNothing (Link.fetch probeMs size timeoutMs : Link Device _) := by
  apply (asksNothing_isReady probeMs).bind
  intro ready
  -- without a positive answer nothing more is sent
  split
  · apply (asksNothing_getBuffer size).bind
    intro _
    apply (asksNothing_read size timeoutMs).bind
    intro bytes
    split
    · exact asksNothing_throw _
    · exact asksNothing_pure _
  · exact asksNothing_throw _

/-- What is received asks nothing, fetched or read. -/
theorem asksNothing_receive (probeMs size timeoutMs : Nat) :
    AsksNothing (Link.receive probeMs size timeoutMs : Link Device _) := by
  apply (asksNothing_read size timeoutMs).attempt.bind
  intro result
  split
  · split
    · exact asksNothing_fetch probeMs size timeoutMs
    · exact asksNothing_pure _
  · split
    · exact asksNothing_fetch probeMs size timeoutMs
    · exact asksNothing_throw _

/-- Nor does what is received after the first byte. -/
theorem asksNothing_receiveMore (probeMs size timeoutMs : Nat) :
    AsksNothing (Link.receiveMore probeMs size timeoutMs : Link Device _) := by
  apply (asksNothing_isReady probeMs).bind
  intro ready
  dsimp only
  split
  · exact (asksNothing_getBuffer size).bind fun _ => asksNothing_receive probeMs size timeoutMs
  · exact asksNothing_receive probeMs size timeoutMs

/-- The next bytes of a reply, the first of them or later ones. -/
theorem asksNothing_nextRead (config : Channel.Config) (first : Bool) :
    AsksNothing (Channel.nextRead config first : Link Device _) := by
  unfold Channel.nextRead
  split
  · exact asksNothing_receive _ _ _
  · exact asksNothing_receiveMore _ _ _

/-! ### Reading a reply asks nothing -/

open Channel

/-- Collecting a reply asks nothing, however many reads it takes. -/
theorem unasked_collect (config : Channel.Config) (rounds : Nat) (first : Bool) (r : Reassembly)
    (d : Device) (hinbound : d.inbound = []) :
    Unasked d (finalState (collect config rounds first r d)).2 := by
  by_cases hdone : r.scanner.isDone = true
  · -- nothing is read any more
    rw [collect_done hdone]
    exact ⟨hinbound, rfl⟩
  · have hopen : r.scanner.isDone = false := by simpa using hdone
    have hread := asksNothing_nextRead config first d hinbound
    rw [collect_step hopen]
    cases hrun : nextRead config first d with
    | error cause d₁ =>
      rw [hrun] at hread
      dsimp only
      split <;> exact hread
    | ok chunk d₁ =>
      rw [hrun] at hread
      dsimp only
      -- the loop goes on with a round less, or with less room
      by_cases htail : r.inbox.tail = none
      · rw [if_pos htail]
        exact hread.trans (unasked_collect config rounds false (r.absorb chunk) d₁ hread.inbound)
      · rw [if_neg htail]
        cases hrounds : rounds with
        | zero => exact hread
        | succ rounds' =>
          exact hread.trans (unasked_collect config rounds' false (r.absorb chunk) d₁ hread.inbound)
termination_by (rounds, r.scanner.room)
decreasing_by
  · exact Prod.Lex.right _ (Reassembly.room_absorb_lt hopen htail chunk.2.1)
  · exact Prod.Lex.left _ _ (by omega)

/-- Reading a reply asks nothing. -/
theorem unasked_readReply (c : Channel Device) (hinbound : c.link.inbound = []) :
    Unasked c.link (finalState (readReply c)).link := by
  have h := unasked_collect c.config (Transport.horizon c.link) true
    (.start c.config.maxReplyBytes c.inbox) c.link hinbound
  rw [readReply_eq]
  cases hrun : collect c.config (Transport.horizon c.link) true
      (.start c.config.maxReplyBytes c.inbox) c.link with
  | ok u s => rw [hrun] at h; exact h
  | error stop s => rw [hrun] at h; exact h

/-- Neither does dropping what is waiting: a control frame is no command. -/
theorem unasked_flush (c : Channel Device) (hinbound : c.link.inbound = []) :
    Unasked c.link (finalState (flush c)).link := by
  have hsend : AsksNothing (Link.send Frame.flush) :=
    asksNothing_send Frame.complete_flush fun _ => ⟨rfl, rfl⟩
  have hsent := hsend c.link hinbound
  rw [flush_eq]
  -- the frame is lost, or one read follows it, which may be silent
  cases hrun : Link.send Frame.flush c.link with
  | error cause d₁ => rw [hrun] at hsent; exact hsent
  | ok u d₁ =>
    rw [hrun] at hsent
    have hread := asksNothing_read 1 c.config.timeoutMs d₁ hsent.inbound
    dsimp only
    cases hrun' : (Transport.read 1 c.config.timeoutMs : Link Device _) d₁ with
    | ok bytes d₂ => rw [hrun'] at hread; exact hsent.trans hread
    | error cause d₂ =>
      rw [hrun'] at hread
      dsimp only
      split <;> exact hsent.trans hread

/-! ### A command is asked once -/

/-- The entry that a command makes in the record. -/
def entry (command : Bytes) : SentCommand :=
  ⟨heard command, (Frame.controlCharacter? command).isSome⟩

/-- To answer changes nothing of the record. -/
theorem unasked_answer (d : Device) (text : String) (hinbound : d.inbound = []) :
    Unasked d (d.answer text).2 := by
  unfold answer
  split
  · exact ⟨hinbound, rfl⟩
  · split <;> exact ⟨hinbound, rfl⟩

/-- A command that is received is entered, whether it is answered or not. -/
private theorem commands_receive (d : Device) (text : String) (control : Bool)
    (hinbound : d.inbound = []) :
    (d.receive text control).inbound = [] ∧
      (d.receive text control).commands = d.commands ++ [⟨text, control⟩] := by
  obtain ⟨hin, hcommands⟩ := unasked_answer d text hinbound
  unfold receive
  cases hanswer : d.answer text with
  | mk reply d₁ =>
    rw [hanswer] at hin hcommands
    rw [← hcommands]
    cases reply with
    | some bytes => exact ⟨hin, rfl⟩
    | none => exact ⟨hin, rfl⟩

/-- A frame that carries a command enters just this one. -/
private theorem commands_handle_ofCommand (d : Device) (command : Bytes)
    (hinbound : d.inbound = []) :
    (d.handle (Frame.ofCommand command)).inbound = [] ∧
      (d.handle (Frame.ofCommand command)).commands = d.commands ++ [entry command] := by
  have h := commands_receive d (heard command) (Frame.controlCharacter? command).isSome hinbound
  rw [← perform_ofCommand] at h
  exact h

/-- **A command is asked once.** An exchange that gets its reply adds the command to the record of
    the device, and nothing else. -/
theorem commands_writeRead {c c' : Channel Device} {command : Bytes} {x : Exchange}
    (hinbound : c.link.inbound = []) (h : writeRead command c = .ok x c') :
    c'.link.inbound = [] ∧ c'.link.commands = c.link.commands ++ [entry command] := by
  -- once nothing is waiting
  have hrest : ∀ c₁ : Channel Device, Unasked c.link c₁.link →
      writeAndRead command c₁ = .ok x c' →
      c'.link.inbound = [] ∧ c'.link.commands = c.link.commands ++ [entry command] := by
    intro c₁ hc₁ hrun
    obtain ⟨hhandled, hcommands⟩ := commands_handle_ofCommand c₁.link command hc₁.inbound
    unfold writeAndRead at hrun
    cases hconnected : c₁.link.connected with
    -- a command that could not be sent has no reply
    | false => simp only [send_disconnected hconnected] at hrun; exact nomatch hrun
    | true =>
      simp only [send_eq ⟨hconnected, hc₁.inbound⟩ (Frame.complete_ofCommand command) hhandled]
        at hrun
      have hreply := unasked_readReply { c₁ with
        link := c₁.link.handle (Frame.ofCommand command)
        lastWritten := min command.length Frame.maxPayload } hhandled
      split at hrun
      · next reply c₂ hread =>
        rw [hread] at hreply
        obtain ⟨-, rfl⟩ := EStateM.Result.ok.inj hrun
        refine ⟨hreply.inbound, hreply.commands.trans ?_⟩
        rw [hcommands, hc₁.commands]
      · exact nomatch hrun
  -- with a flush or without one, the record is what it was when the command is sent
  rw [writeRead_eq] at h
  split at h
  · have hflush := unasked_flush { c with lastWritten := 0 } hinbound
    split at h
    · next u c₁ hrun =>
      rw [hrun] at hflush
      exact hrest c₁ hflush h
    · exact nomatch h
  · exact hrest { c with lastWritten := 0 } ⟨hinbound, rfl⟩ h

end PmacPoll.Device
