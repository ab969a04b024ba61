import PmacPoll.Proofs.Actions
import PmacPoll.Proofs.MessageFraming

/-!
# Reading a reply

The operations of a channel written out, one equation each: `collect_done` and `collect_step` for
the loop that puts a reply together, `readReply_eq`, `flush_eq` and `writeRead_eq` for what is
around it.
-/

namespace PmacPoll.Channel

open Running

variable {σ : Type} [Transport σ]

/-- The read that the loop makes next. -/
def nextRead (config : Config) (first : Bool) : Link σ (Chunk Frame.maxRead) :=
  if first then Link.receive config.timeoutMs Frame.maxRead config.timeoutMs
  else Link.receiveMore config.timeoutMs Frame.maxRead config.timeoutMs

/-- Once the scanner is done, nothing more is read. -/
theorem collect_done {r : Reassembly} (h : r.scanner.isDone = true) (config : Config)
    (rounds : Nat) (first : Bool) (link : σ) :
    collect config rounds first r link = .ok () (r, link) := by
  rw [collect, dif_pos h]

/-- A read, and what follows it. Only bytes that are skipped cost a round. -/
theorem collect_step {r : Reassembly} (hopen : r.scanner.isDone = false) (config : Config)
    (rounds : Nat) (first : Bool) (link : σ) :
    collect config rounds first r link =
      match nextRead config first link with
      | .error cause link =>
        if cause.isTimeout && !r.scanner.isEmpty then .ok () (r, link)
        else .error (.failed cause) (r, link)
      | .ok chunk link =>
        if r.inbox.tail = none then collect config rounds false (r.absorb chunk) link
        else match rounds with
          | 0 => .error .unfinished (r.absorb chunk, link)
          | rounds + 1 => collect config rounds false (r.absorb chunk) link := by
  rw [collect, dif_neg (by rw [hopen]; decide)]
  rfl

/-- A read with nothing to skip. -/
theorem collect_open {r : Reassembly} (hopen : r.scanner.isDone = false)
    (htail : r.inbox.tail = none) (config : Config) (rounds : Nat) (first : Bool) (link : σ) :
    collect config rounds first r link =
      match nextRead config first link with
      | .error cause link =>
        if cause.isTimeout && !r.scanner.isEmpty then .ok () (r, link)
        else .error (.failed cause) (r, link)
      | .ok chunk link => collect config rounds false (r.absorb chunk) link := by
  rw [collect_step hopen]
  simp only [if_pos htail]

/-- A read with something to skip, which costs a round. -/
theorem collect_tail {r : Reassembly} {inBlock : Bool} (hopen : r.scanner.isDone = false)
    (htail : r.inbox.tail = some inBlock) (config : Config) (rounds : Nat) (first : Bool)
    (link : σ) :
    collect config (rounds + 1) first r link =
      match nextRead config first link with
      | .error cause link =>
        if cause.isTimeout && !r.scanner.isEmpty then .ok () (r, link)
        else .error (.failed cause) (r, link)
      | .ok chunk link => collect config rounds false (r.absorb chunk) link := by
  rw [collect_step hopen]
  simp only [htail, if_neg (Option.some_ne_none inBlock)]

/-- A reply is put together from what was held back and from what is read, and what is left over is
    held back for the next one. -/
theorem readReply_eq (channel : Channel σ) :
    readReply channel =
      match collect channel.config (Transport.horizon channel.link) true
          (.start channel.config.maxReplyBytes channel.inbox) channel.link with
      | .ok () (r, link) => .ok r.scanner.finish { channel with inbox := r.inbox, link }
      | .error stop (r, link) => .error stop { channel with inbox := r.inbox, link } :=
  rfl

/-- Nothing waits, so a reply starts from nothing. -/
theorem start_empty (maxLength : Nat) :
    Reassembly.start maxLength {} = ⟨Reply.Scanner.new maxLength, {}⟩ :=
  rfl

/-- A flush is sent, and nothing is held back; its answer is one byte, and none within the time is
    as good. -/
theorem flush_eq (channel : Channel σ) :
    flush channel =
      match Link.send Frame.flush channel.link with
      | .error cause link => .error (.failed cause) { channel with inbox := {}, link }
      | .ok () link =>
        match Transport.read 1 channel.config.timeoutMs link with
        | .ok _ link => .ok () { channel with inbox := {}, link }
        | .error cause link =>
          if cause.isTimeout then .ok () { channel with inbox := {}, link }
          else .error (.failed cause) { channel with inbox := {}, link } := by
  simp only [flush, bind_run, modify_run, get_run, onLink]
  cases Link.send Frame.flush channel.link with
  | error cause link => rfl
  | ok u link =>
    -- the answer is read and dropped, and a timeout is no failure
    simp only [attempt_run]
    cases Transport.read 1 channel.config.timeoutMs link with
    | ok bytes link => rfl
    | error cause link =>
      simp only [ite_run]
      rfl

/-- What a channel does with a command once nothing is waiting. -/
def writeAndRead (command : Bytes) (channel : Channel σ) :
    EStateM.Result (Stop LinkError) (Channel σ) Exchange :=
  match Link.send (Frame.ofCommand command) channel.link with
  | .error cause link => .error (.failed cause) { channel with link }
  | .ok () link =>
    let written := min command.length Frame.maxPayload
    match readReply { channel with link, lastWritten := written } with
    | .ok reply channel => .ok { written, reply } channel
    | .error stop channel => .error stop channel

/-- A command is written and its reply read, after a flush if the settings ask for one. -/
theorem writeRead_eq (command : Bytes) (channel : Channel σ) :
    writeRead command channel =
      if channel.config.flushBeforeWrite then
        match flush { channel with lastWritten := 0 } with
        | .ok () channel => writeAndRead command channel
        | .error stop channel => .error stop channel
      else writeAndRead command { channel with lastWritten := 0 } := by
  -- what comes after the flush, on any channel
  have hrest : ∀ c : Channel σ,
      (do
        let written ← writeCommand command
        modify fun channel => { channel with lastWritten := written }
        let reply ← readReply
        pure { written, reply } : Action σ Exchange) c = writeAndRead command c := by
    intro c
    simp only [writeCommand, writeAndRead, onLink, bind_run]
    cases Link.send (Frame.ofCommand command) c.link with
    | error cause link => rfl
    | ok u link =>
      simp only [pure_run, modify_run]
      cases readReply { c with link, lastWritten := min command.length Frame.maxPayload } <;> rfl
  simp only [writeRead, bind_run, modify_run, get_run, ite_run]
  split
  · cases flush { channel with lastWritten := 0 } with
    | ok u c => exact hrest c
    | error stop c => rfl
  · exact hrest _

/-- Sends a command, and notes how much of it went out. -/
def sendCommand (command : Bytes) : Action σ Unit := fun channel =>
  match Link.send (Frame.ofCommand command) channel.link with
  | .error cause link => .error (.failed cause) { channel with link }
  | .ok () link => .ok () { channel with link, lastWritten := min command.length Frame.maxPayload }

/-- What an exchange does before it reads: it has the controller drop what is waiting, if that is
    wanted, and sends the command. -/
def beginExchange (command : Bytes) : Action σ Unit := fun channel =>
  if channel.config.flushBeforeWrite then
    (flush >>= fun _ => sendCommand command) { channel with lastWritten := 0 }
  else sendCommand command { channel with lastWritten := 0 }

/-- The command goes out, and then the reply is read. -/
private theorem writeAndRead_eq_send (command : Bytes) :
    (writeAndRead command : Action σ Exchange) =
      sendCommand command >>= fun _ => readReply >>= fun reply =>
        pure { written := min command.length Frame.maxPayload, reply } := by
  funext channel
  rw [writeAndRead, bind_run, sendCommand]
  cases Link.send (Frame.ofCommand command) channel.link with
  | error cause link => rfl
  | ok u link =>
    dsimp only
    rw [bind_run]
    cases readReply { channel with link, lastWritten := min command.length Frame.maxPayload } <;>
      rfl

/-- An exchange is its beginning, and then the reply is read. -/
theorem writeRead_eq_begin (command : Bytes) :
    (writeRead command : Action σ Exchange) =
      beginExchange command >>= fun _ => readReply >>= fun reply =>
        pure { written := min command.length Frame.maxPayload, reply } := by
  funext channel
  rw [writeRead_eq, bind_run, beginExchange, writeAndRead_eq_send]
  by_cases hflush : channel.config.flushBeforeWrite = true
  · rw [if_pos hflush, if_pos hflush, bind_run]
    cases flush { channel with lastWritten := 0 } <;> rfl
  · rw [if_neg hflush, if_neg hflush]
    rfl

/-- A flush drops what was received, and otherwise only the link is another one. -/
theorem finalState_flush (channel : Channel σ) :
    ∃ link, finalState (flush channel) = { channel with inbox := {}, link } := by
  rw [flush_eq]
  -- however far the flush comes, it has emptied the inbox and changes nothing but the link
  cases Link.send Frame.flush channel.link with
  | error cause link => exact ⟨link, rfl⟩
  | ok u link =>
    dsimp only
    cases Transport.read 1 channel.config.timeoutMs link with
    | ok bytes link => exact ⟨link, rfl⟩
    | error cause link =>
      dsimp only
      split <;> exact ⟨link, rfl⟩

/-! ### Settings -/

/-- A flush does not change the settings. -/
private theorem config_flush (channel : Channel σ) :
    (finalState (flush channel)).config = channel.config := by
  obtain ⟨link, hflush⟩ := finalState_flush channel
  rw [hflush]

/-- Nor do the writing of a command and the reading of its reply. -/
private theorem config_writeAndRead (command : Bytes) (channel : Channel σ) :
    (finalState (writeAndRead command channel)).config = channel.config := by
  simp only [writeAndRead, readReply_eq]
  cases Link.send (Frame.ofCommand command) channel.link with
  | error cause link => rfl
  | ok u link =>
    dsimp only
    generalize collect channel.config _ _ _ link = result
    cases result <;> rfl

/-- An exchange leaves the settings as they are. -/
theorem config_writeRead (command : Bytes) (channel : Channel σ) :
    (finalState (writeRead command channel)).config = channel.config := by
  rw [writeRead_eq]
  split
  · -- the flush keeps the settings, and what follows it keeps them from there
    have hflush := config_flush { channel with lastWritten := 0 }
    cases hrun : flush { channel with lastWritten := 0 } with
    | error stop c =>
      rw [hrun] at hflush
      exact hflush
    | ok u c =>
      rw [hrun] at hflush
      exact (config_writeAndRead command c).trans hflush
  · exact config_writeAndRead command _

/-! ### What went out -/

/-- A flush does not change what was written last. -/
private theorem lastWritten_flush (channel : Channel σ) :
    (finalState (flush channel)).lastWritten = channel.lastWritten := by
  obtain ⟨link, hflush⟩ := finalState_flush channel
  rw [hflush]

/-- Nor does the reading of a reply. -/
theorem lastWritten_readReply (channel : Channel σ) :
    (finalState (readReply channel)).lastWritten = channel.lastWritten := by
  rw [readReply_eq]
  generalize collect channel.config _ _ _ channel.link = result
  cases result <;> rfl

/-- Nothing of a command counts as written before it is out, and then what one frame carries. -/
theorem lastWritten_beginExchange (command : Bytes) (channel : Channel σ) :
    (finalState (beginExchange command channel)).lastWritten =
      match beginExchange command channel with
      | .ok _ _ => min command.length Frame.maxPayload
      | .error _ _ => 0 := by
  have hsend : ∀ c : Channel σ, c.lastWritten = 0 →
      (finalState (sendCommand command c)).lastWritten =
        match sendCommand command c with
        | .ok _ _ => min command.length Frame.maxPayload
        | .error _ _ => 0 := by
    intro c hc
    rw [sendCommand]
    cases Link.send (Frame.ofCommand command) c.link with
    | ok u link => rfl
    | error cause link => exact hc
  rw [beginExchange]
  -- only a flush that went well is followed by the command
  split
  · have hflush := lastWritten_flush { channel with lastWritten := 0 }
    rw [bind_run]
    cases hrun : flush { channel with lastWritten := 0 } with
    | ok u c =>
      rw [hrun] at hflush
      exact hsend c hflush
    | error stop c =>
      rw [hrun] at hflush
      exact hflush
  · exact hsend _ rfl

end PmacPoll.Channel
