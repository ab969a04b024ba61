import PmacPoll.Proofs.FrameCodec

/-!
# Streams of frames

Frames need no separators. Reading as many as there are from any bytes and writing them again gives
the bytes, `encode_decodeAll`, and frames that were written one after the other are read as they
were, whatever follows them, `decodeAll_encode_append`. A frame of which only a part is there is
waited for, `decode_of_part`.
-/

namespace PmacPoll.Frame

/-- The bytes of frames one after the other. -/
def encodeAll (frames : List Frame) : Bytes :=
  frames.flatMap encode

/-- The frames that can be written: the requests, and every other frame whose header tells whether
    there is a payload and how long it is. -/
inductive Written : Frame → Prop where
  | command (text : Bytes) : Written (command text)
  | control (character : UInt8) : Written (control character)
  | readReady : Written readReady
  | getBuffer (maxBytes : Nat) : Written (getBuffer maxBytes)
  | flush : Written flush
  | carrying {frame : Frame} (hopcode : Opcode.carriesPayload frame.opcode = true)
      (hlength : frame.payload.length = frame.length.toNat)
      (hbounded : frame.payload.length ≤ maxPayload) : Written frame
  | bare {frame : Frame} (hopcode : Opcode.carriesPayload frame.opcode = false)
      (hpayload : frame.payload = []) : Written frame

/-- Such a frame is complete. -/
private theorem complete_of_written {frame : Frame} (h : frame.Written) : frame.Complete := by
  -- requests are complete as they are made; other frames carry what they announce, or nothing
  cases h with
  | command text => exact complete_command text
  | control character => exact complete_control character
  | readReady => exact complete_readReady
  | getBuffer maxBytes => exact complete_getBuffer maxBytes
  | flush => exact complete_flush
  | carrying hopcode hlength hbounded =>
    refine ⟨?_, hbounded⟩
    rw [payloadSize, if_pos hopcode, hlength]
  | bare hopcode hpayload =>
    refine ⟨?_, hpayload ▸ Nat.zero_le _⟩
    rw [payloadSize, hopcode, if_neg Bool.false_ne_true, hpayload]
    rfl

/-- What is written of a frame is as long as the codec has it. -/
private theorem length_encode (frame : Frame) : frame.encode.length = frame.encodedLength := by
  simp only [encode, wordBytes, encodedLength, headerSize, List.length_cons, List.length_append,
    List.length_nil]
  omega

/-! ### Reading and writing again -/

/-- What was read, written again, and what was left are the bytes that there were. The reading ended
    where no frame can be read, after no more steps than there is room for headers. -/
theorem encode_decodeAll (data : Bytes) :
    encodeAll (decodeAll data).frames ++ (decodeAll data).rest = data ∧
    headerSize * (decodeAll data).frames.length ≤ data.length ∧
    decode (decodeAll data).rest =
      match (decodeAll data).error with
      | some cause => .error cause
      | none => .ok none := by
  -- the induction follows the reading, which stops with a cause or for want of bytes, or goes on
  induction data using decodeAll.induct with
  | case1 data cause h =>
    rw [decodeAll_of_error h]
    exact ⟨rfl, Nat.zero_le _, h⟩
  | case2 data h =>
    rw [decodeAll_of_none h]
    exact ⟨rfl, Nat.zero_le _, h⟩
  | case3 data frame rest h ih =>
    obtain ⟨hbytes, hlength, hend⟩ := ih
    obtain ⟨-, rfl⟩ := eq_encode_of_decode h
    rw [decodeAll_of_frame h]
    refine ⟨?_, ?_, hend⟩
    · rw [encodeAll, List.flatMap_cons, ← encodeAll, List.append_assoc, hbytes]
    · -- a frame is at least as long as its header
      rw [List.length_cons, List.length_append, length_encode, encodedLength, Nat.mul_succ]
      omega

/-! ### Writing and reading again -/

/-- Frames are read as they were written, and then what follows them. -/
theorem decodeAll_encode_append {frames : List Frame} (h : ∀ frame ∈ frames, frame.Complete)
    (data : Bytes) :
    decodeAll (encodeAll frames ++ data) =
      { decodeAll data with frames := frames ++ (decodeAll data).frames } := by
  induction frames with
  | nil => rfl
  | cons frame more ih =>
    have hfirst := decode_encode (h frame List.mem_cons_self) (encodeAll more ++ data)
    have hmore := ih fun f hf => h f (List.mem_cons_of_mem frame hf)
    rw [encodeAll, List.flatMap_cons, List.append_assoc, ← encodeAll, decodeAll_of_frame hfirst,
      hmore]
    rfl

/-! ### Bytes that come later -/

/-- A frame that is there is read whatever follows it. -/
private theorem decode_append_of_frame {data rest : Bytes} {frame : Frame}
    (h : decode data = .ok (some (frame, rest))) (more : Bytes) :
    decode (data ++ more) = .ok (some (frame, rest ++ more)) := by
  obtain ⟨hframe, rfl⟩ := eq_encode_of_decode h
  rw [List.append_assoc, decode_encode hframe]

/-- Bytes that come later are read together with what is left of the earlier ones, which has the
    frames that it had, and no more. -/
theorem decodeAll_append (data more : Bytes) :
    decodeAll (data ++ more) =
      { decodeAll ((decodeAll data).rest ++ more) with
        frames := (decodeAll data).frames ++
          (decodeAll ((decodeAll data).rest ++ more)).frames } := by
  induction data using decodeAll.induct with
  | case1 data cause h => rw [decodeAll_of_error h, List.nil_append]
  | case2 data h => rw [decodeAll_of_none h, List.nil_append]
  | case3 data frame rest h ih =>
    rw [decodeAll_of_frame h, decodeAll_of_frame (decode_append_of_frame h more), ih,
      List.cons_append]

/-- A frame is waited for until all of it is there. -/
theorem decode_of_part {frame : Frame} (h : frame.Complete) {part : Bytes}
    (hstarts : part <+: frame.encode) (hproper : part ≠ frame.encode) :
    decode part = .ok none := by
  obtain ⟨more, hmore⟩ := hstarts
  have hwhole : decode (part ++ more) = .ok (some (frame, [])) := by
    rw [hmore, ← List.append_nil frame.encode, decode_encode h]
  -- Whatever else were read of the part would be read of the whole as well.
  cases hpart : decode part with
  | error cause => exact nomatch (decode_append_of_error hpart more).symm.trans hwhole
  | ok found =>
    cases found with
    | none => rfl
    | some found =>
      obtain ⟨other, rest⟩ := found
      obtain ⟨hother, rfl⟩ := eq_encode_of_decode hpart
      rw [List.append_assoc, decode_encode hother] at hwhole
      obtain ⟨rfl, hrest⟩ := Prod.mk.inj (Option.some.inj (Except.ok.inj hwhole))
      rw [(List.append_eq_nil_iff.mp hrest).1, List.append_nil] at hproper
      exact absurd rfl hproper

/-- **Encoding and decoding are inverse over streams.** Any bytes are the frames that are read of
    them and what is left, frames that are written one after the other are read as they were with
    nothing left, and no part of a frame is taken for a frame or for an error. -/
theorem decodeAll_inverse :
    (∀ data : Bytes,
      encodeAll (decodeAll data).frames ++ (decodeAll data).rest = data ∧
      headerSize * (decodeAll data).frames.length ≤ data.length ∧
      decode (decodeAll data).rest =
        match (decodeAll data).error with
        | some cause => .error cause
        | none => .ok none) ∧
    (∀ frames : List Frame, (∀ frame ∈ frames, frame.Written) →
      decodeAll (encodeAll frames) = ⟨frames, [], none⟩) ∧
    ∀ frame : Frame, frame.Written → ∀ part, part <+: frame.encode → part ≠ frame.encode →
      decode part = .ok none := by
  refine ⟨encode_decodeAll, fun frames h => ?_, fun frame h part hstarts hproper =>
    decode_of_part (complete_of_written h) hstarts hproper⟩
  have hall := decodeAll_encode_append (fun frame hframe => complete_of_written (h frame hframe)) []
  rw [List.append_nil] at hall
  rw [hall, decodeAll_nil, List.append_nil]

/-- A command and a wish for data that are both cut down, and frames that no request is. -/
def mixedFrames : List Frame :=
  [command (List.replicate 1500 0x49), getBuffer 70000, control 0x10,
    ⟨download, Opcode.writeBuffer, 1, 2, 3, [0x50, 0x31, 0x0D]⟩, ⟨upload, 0xFF, 3, 4, 5, []⟩]

/-- Frames of every kind, among them a command that is too long for one frame and an unknown opcode,
    are read as they were written; a command cut short is waited for. -/
theorem decodeAll_inverse_mixedFrames :
    decodeAll (encodeAll mixedFrames) = ⟨mixedFrames, [], none⟩ ∧
      decode ((command [0x50, 0x31]).encode.take 9) = .ok none := by
  obtain ⟨-, hstream, hparts⟩ := decodeAll_inverse
  refine ⟨hstream mixedFrames ?_, hparts _ (.command _) _ (List.take_prefix 9 _) (by decide)⟩
  intro frame hframe
  simp only [mixedFrames, List.mem_cons, List.not_mem_nil, or_false] at hframe
  -- the requests are as they are made, the last two are given by what they carry
  rcases hframe with rfl | rfl | rfl | rfl | rfl
  · exact .command _
  · exact .getBuffer _
  · exact .control _
  · exact .carrying rfl rfl (by decide)
  · exact .bare rfl rfl

end PmacPoll.Frame
