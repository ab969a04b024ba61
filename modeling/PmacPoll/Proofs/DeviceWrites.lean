import PmacPoll.Device
import PmacPoll.Proofs.FrameStream
import PmacPoll.Proofs.RecordedCalls

/-!
# Writes in pieces

A device handles a frame as soon as all of it is written, and keeps the bytes behind it. So it is
the same whether bytes are written at once or in pieces, wherever they are cut, `write_pieces`: the
frames of the pieces are those of the whole, `Frame.decodeAll_append`, and no frame touches the
bytes behind it, `foldl_handle_leaving`.
-/

namespace PmacPoll.Device

/-! ### A frame and the bytes behind it -/

/-- The device with other bytes that are no complete frame yet. -/
def leaving (d : Device) (rest : Bytes) : Device :=
  { d with inbound := rest }

/-- To answer does not look at the bytes behind. -/
theorem answer_leaving (d : Device) (rest : Bytes) (text : String) :
    (d.leaving rest).answer text = ((d.answer text).1, (d.answer text).2.leaving rest) := by
  unfold answer
  dsimp only [leaving]
  split
  · rfl
  · split <;> rfl

/-- Nor does receiving a command. -/
theorem receive_leaving (d : Device) (rest : Bytes) (text : String) (control : Bool) :
    (d.leaving rest).receive text control = (d.receive text control).leaving rest := by
  simp only [receive, answer_leaving]
  split <;> rfl

/-- Nor does what a frame has done. -/
theorem perform_leaving (d : Device) (rest : Bytes) (frame : Frame) :
    (d.leaving rest).perform frame = (d.perform frame).leaving rest := by
  -- by the kind of the frame, of which none reads the bytes behind it
  unfold perform
  split
  · exact receive_leaving d rest _ false
  · split
    · exact receive_leaving d rest _ true
    · split
      · rfl
      · split
        · rfl
        · split <;> rfl

/-- A frame is handled without a look at the bytes behind it, which stay. -/
theorem handle_leaving (d : Device) (rest : Bytes) (frame : Frame) :
    (d.leaving rest).handle frame = (d.handle frame).leaving rest := by
  simp only [handle, perform_leaving]
  rfl

/-- Frames one after another leave the bytes behind them. -/
theorem foldl_handle_leaving (frames : List Frame) (d : Device) (rest : Bytes) :
    frames.foldl handle (d.leaving rest) = (frames.foldl handle d).leaving rest := by
  induction frames generalizing d with
  | nil => rfl
  | cons frame more ih => rw [List.foldl_cons, List.foldl_cons, handle_leaving, ih]

/-- To receive a command keeps the connection. -/
private theorem connected_receive (d : Device) (text : String) (control : Bool) :
    (d.receive text control).connected = d.connected := by
  have hanswer : (d.answer text).2.connected = d.connected := by
    unfold answer
    split
    · rfl
    · split <;> rfl
  simp only [receive]
  split <;> exact hanswer

/-- No frame breaks the connection. -/
private theorem connected_handle (d : Device) (frame : Frame) :
    (d.handle frame).connected = d.connected := by
  change (d.perform frame).connected = d.connected
  -- whatever the frame is, only what is queued may change
  unfold perform
  split
  · exact connected_receive d _ false
  · split
    · exact connected_receive d _ true
    · split
      · rfl
      · split
        · rfl
        · split <;> rfl

/-- So do frames. -/
private theorem connected_foldl_handle (frames : List Frame) (d : Device) :
    (frames.foldl handle d).connected = d.connected := by
  induction frames generalizing d with
  | nil => rfl
  | cons frame more ih => rw [List.foldl_cons, ih, connected_handle]

/-! ### A write -/

/-- What a device reads of some bytes, together with those that it has. -/
def reading (d : Device) (data : Bytes) : Frame.Decoded :=
  Frame.decodeAll (d.inbound ++ data)

/-- The device after some bytes that reach it. -/
def taking (d : Device) (data : Bytes) : Device :=
  ((d.reading data).frames.foldl handle d).leaving (d.reading data).rest

/-- On a connection a write handles its frames, and it fails at the first that makes no sense. -/
private theorem write_connected {d : Device} (h : d.connected = true) (data : Bytes) :
    write data d =
      match (d.reading data).error with
      | some cause => .error cause (d.taking data)
      | none => .ok data.length (d.taking data) := by
  rw [write, if_pos h]
  rfl

/-- Without a connection nothing is written. -/
private theorem write_disconnected {d : Device} (h : d.connected = false) (data : Bytes) :
    write data d = .error (.connection "device disconnected") d := by
  rw [write, if_neg (by rw [h]; decide)]

/-- After a write the frames are handled, whether it failed or not. -/
private theorem finalState_write {d : Device} (h : d.connected = true) (data : Bytes) :
    finalState (write data d) = d.taking data := by
  rw [write_connected h]
  split <;> rfl

/-- A write fails for what it meets that is no frame. -/
private theorem outcome_write_eq_error {d : Device} (h : d.connected = true) (data : Bytes)
    (cause : LinkError) :
    outcome (write data d) = .error cause ↔ (d.reading data).error = some cause := by
  rw [write_connected h]
  cases (d.reading data).error with
  | none => exact ⟨nofun, nofun⟩
  | some other => simp [outcome]

/-- A write keeps the connection. -/
private theorem connected_taking {d : Device} (h : d.connected = true) (data : Bytes) :
    (d.taking data).connected = true :=
  (connected_foldl_handle _ d).trans h

/-! ### One write after the other -/

/-- What is read of the second piece follows what is read of the first one. -/
private theorem reading_append (d : Device) (a b : Bytes) :
    d.reading (a ++ b) =
      { (d.taking a).reading b with
        frames := (d.reading a).frames ++ ((d.taking a).reading b).frames } := by
  rw [reading, ← List.append_assoc, Frame.decodeAll_append]
  rfl

/-- The frames of two pieces are handled as those of the whole. -/
private theorem taking_append (d : Device) (a b : Bytes) :
    d.taking (a ++ b) = (d.taking a).taking b := by
  calc d.taking (a ++ b)
      = (((d.taking a).reading b).frames.foldl handle
          ((d.reading a).frames.foldl handle d)).leaving ((d.taking a).reading b).rest := by
        rw [taking, reading_append, List.foldl_append]
    _ = ((((d.taking a).reading b).frames.foldl handle
          ((d.reading a).frames.foldl handle d)).leaving (d.reading a).rest).leaving
            ((d.taking a).reading b).rest := rfl
    _ = (d.taking a).taking b := by
        -- the frames of `b` do not see what `a` left behind, so it may be there before them
        rw [← foldl_handle_leaving]
        rfl

/-- So two writes come to what one does, on a connection. -/
private theorem write_append_of_connected {d : Device} (h : d.connected = true) (a b : Bytes) :
    finalState (write b (finalState (write a d))) = finalState (write (a ++ b) d) ∧
    ∀ cause, outcome (write b (finalState (write a d))) = .error cause ↔
      outcome (write (a ++ b) d) = .error cause := by
  have hconnected := connected_taking h a
  rw [finalState_write h, finalState_write h, finalState_write hconnected]
  refine ⟨(taking_append d a b).symm, fun cause => ?_⟩
  rw [outcome_write_eq_error hconnected, outcome_write_eq_error h, reading_append]

/-- And so they do without one. -/
private theorem write_append (d : Device) (a b : Bytes) :
    finalState (write b (finalState (write a d))) = finalState (write (a ++ b) d) ∧
    ∀ cause, outcome (write b (finalState (write a d))) = .error cause ↔
      outcome (write (a ++ b) d) = .error cause := by
  cases h : d.connected with
  | true => exact write_append_of_connected h a b
  | false =>
    -- nothing reaches the device, however often it is tried
    have hstays : finalState (write a d) = d := by rw [write_disconnected h]; rfl
    rw [hstays, write_disconnected h, write_disconnected h]
    exact ⟨rfl, fun cause => Iff.rfl⟩

/-! ### Any number of pieces -/

/-- The device after some pieces were written one after the other, whether or not a write failed. -/
def writeEach (d : Device) (pieces : List Bytes) : Device :=
  pieces.foldl (fun d piece => finalState (write piece d)) d

/-- The first piece is written, and then the others, which comes to one write of all. -/
private theorem writeEach_cons (d : Device) (piece : Bytes) (more : List Bytes) :
    d.writeEach (piece :: more) = finalState (write (piece :: more).flatten d) := by
  -- on the pieces after the first one, which takes them in one by one
  induction more generalizing piece with
  | nil => rw [List.flatten_singleton]; rfl
  | cons next more ih =>
    have hjoined : d.writeEach (piece :: next :: more) = d.writeEach ((piece ++ next) :: more) := by
      rw [writeEach, List.foldl_cons, List.foldl_cons, (write_append d piece next).1]
      rfl
    rw [hjoined, ih, List.flatten_cons, List.flatten_cons, List.flatten_cons, List.append_assoc]

/-- **A device does not care how writes are cut.** Two writes with no read between them leave it as
    one write of both does, and the second fails exactly when that does, and for the same cause,
    whatever the device has received, holds back or has still to say, and whether or not there is
    something among the bytes that is no frame. So do any number of writes. -/
theorem write_pieces (d : Device) (a b : Bytes) :
    finalState (write b (finalState (write a d))) = finalState (write (a ++ b) d) ∧
    (∀ cause, outcome (write b (finalState (write a d))) = .error cause ↔
      outcome (write (a ++ b) d) = .error cause) ∧
    ∀ more, d.writeEach (a :: b :: more) = finalState (write (a ++ b ++ more.flatten) d) := by
  obtain ⟨hstate, hcause⟩ := write_append d a b
  refine ⟨hstate, hcause, fun more => ?_⟩
  rw [writeEach_cons, List.flatten_cons, List.flatten_cons, List.append_assoc]

end PmacPoll.Device
