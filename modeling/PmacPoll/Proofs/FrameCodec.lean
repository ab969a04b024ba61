import PmacPoll.Frame

/-!
# Frames on the wire

A frame whose header announces its payload is read back as it was written, with whatever follows it
left over: `decode_encode`. What is read is always such a frame and stood there in full,
`eq_encode_of_decode`. Every frame that is ever sent is of that kind, `complete_ofCommand`.
-/

namespace PmacPoll.Frame

/-- The header announces the payload, and the payload is not too long. -/
structure Complete (frame : Frame) : Prop where
  announced : payloadSize frame.opcode frame.length = frame.payload.length
  bounded : frame.payload.length ≤ maxPayload

/-- A word is read as it was written. -/
private theorem wordOf_wordBytes (word : UInt16) :
    wordOf (UInt8.ofNat (word.toNat / 256)) (UInt8.ofNat (word.toNat % 256)) = word := by
  have hlt := word.toNat_lt
  apply UInt16.toNat_inj.mp
  simp only [wordOf, UInt16.toNat_ofNat', UInt8.toNat_ofNat']
  omega

/-- A frame is read as it was written. -/
theorem decode_encode {frame : Frame} (h : frame.Complete) (rest : Bytes) :
    decode (frame.encode ++ rest) = .ok (some (frame, rest)) := by
  obtain ⟨direction, opcode, value, index, length, payload⟩ := frame
  obtain ⟨hannounced, hbounded⟩ := h
  simp only at hannounced hbounded
  have hshort : ¬ (payload ++ rest).length < payload.length := by
    rw [List.length_append]
    omega
  simp only [encode, wordBytes, List.cons_append, List.nil_append, decode, wordOf_wordBytes,
    hannounced]
  rw [if_neg (Nat.not_lt.mpr hbounded), if_neg hshort, List.take_left, List.drop_left]

/-- A frame with nothing behind it. -/
theorem decode_encode_alone {frame : Frame} (h : frame.Complete) :
    decode frame.encode = .ok (some (frame, [])) := by
  have hdecode := decode_encode h []
  rwa [List.append_nil] at hdecode

/-- Two octets are the word that they make. -/
private theorem wordBytes_wordOf (high low : UInt8) :
    wordBytes (wordOf high low) = [high, low] := by
  have hhigh := high.toNat_lt
  have hlow := low.toNat_lt
  have hword : (wordOf high low).toNat = 256 * high.toNat + low.toNat :=
    UInt16.toNat_ofNat_of_lt' (by unfold UInt16.size; omega)
  have hquotient : (256 * high.toNat + low.toNat) / 256 = high.toNat := by omega
  have hremainder : (256 * high.toNat + low.toNat) % 256 = low.toNat := by omega
  rw [wordBytes, hword, hquotient, hremainder, UInt8.ofNat_toNat, UInt8.ofNat_toNat]

/-- A frame that is read was written there. -/
theorem eq_encode_of_decode {data rest : Bytes} {frame : Frame}
    (h : decode data = .ok (some (frame, rest))) :
    frame.Complete ∧ data = frame.encode ++ rest := by
  unfold decode at h
  split at h
  · next direction opcode v₁ v₀ i₁ i₀ l₁ l₀ bytes =>
    simp only at h
    split at h
    · -- the header announces more than a frame can have
      exact nomatch h
    · next hbounded =>
      split at h
      · exact nomatch h
      · -- the payload is not there in full
        next hthere =>
        obtain ⟨rfl, rfl⟩ := Prod.mk.inj (Option.some.inj (Except.ok.inj h))
        have hsize := List.length_take_of_le (Nat.le_of_not_lt hthere)
        refine ⟨⟨hsize.symm, Nat.le_trans (List.length_take_le ..) (Nat.le_of_not_lt hbounded)⟩, ?_⟩
        simp only [encode, wordBytes_wordOf, List.cons_append, List.nil_append,
          List.take_append_drop]
  · exact nomatch h

/-- More bytes do not make up for a payload that is too long. -/
theorem decode_append_of_error {data : Bytes} {cause : LinkError} (h : decode data = .error cause)
    (more : Bytes) : decode (data ++ more) = .error cause := by
  unfold decode at h
  split at h
  · -- the header is there, and it announces more than a frame can have
    simp only at h
    split at h
    · next hlong =>
      simp only [List.cons_append, decode]
      rw [if_pos hlong]
      exact h
    · split at h <;> exact nomatch h
  · exact nomatch h

/-! ### One frame after the other -/

/-- The first frame is read, and then the others. -/
theorem decodeAll_of_frame {data rest : Bytes} {frame : Frame}
    (h : decode data = .ok (some (frame, rest))) :
    decodeAll data = { decodeAll rest with frames := frame :: (decodeAll rest).frames } := by
  rw [decodeAll]
  split <;> simp_all

/-- Where no frame is complete, all is left over. -/
theorem decodeAll_of_none {data : Bytes} (h : decode data = .ok none) :
    decodeAll data = ⟨[], data, none⟩ := by
  rw [decodeAll]
  split <;> simp_all

/-- Where there is no frame, all is left over, with the cause. -/
theorem decodeAll_of_error {data : Bytes} {cause : LinkError} (h : decode data = .error cause) :
    decodeAll data = ⟨[], data, some cause⟩ := by
  rw [decodeAll]
  split <;> simp_all

/-- From nothing no frame is read. -/
theorem decodeAll_nil : decodeAll [] = ⟨[], [], none⟩ :=
  decodeAll_of_none rfl

/-- A frame by itself is read, and nothing is left over. -/
theorem decodeAll_encode {frame : Frame} (h : frame.Complete) :
    decodeAll frame.encode = ⟨[frame], [], none⟩ := by
  rw [decodeAll_of_frame (decode_encode_alone h), decodeAll_nil]

/-! ### The frames that are sent -/

/-- A control character is the whole of its text, and one of a few. -/
theorem eq_of_controlCharacter {text : Bytes} {character : UInt8}
    (h : controlCharacter? text = some character) :
    text = [character] ∧ character ∈ controlCharacters := by
  unfold controlCharacter? at h
  split at h
  · split at h
    · next hmem =>
      obtain rfl := Option.some.inj h
      exact ⟨rfl, List.contains_iff_mem.mp hmem⟩
    · exact nomatch h
  · exact nomatch h

/-- A flush announces no payload. -/
theorem complete_flush : flush.Complete := ⟨rfl, by decide⟩

/-- Nor does a probe. -/
theorem complete_readReady : readReady.Complete := ⟨rfl, by decide⟩

/-- A call for the data has a length, which is no length of a payload. -/
theorem complete_getBuffer (maxBytes : Nat) : (getBuffer maxBytes).Complete :=
  ⟨rfl, Nat.zero_le _⟩

/-- A control character is in the header. -/
theorem complete_control (character : UInt8) : (control character).Complete :=
  ⟨rfl, Nat.zero_le _⟩

/-- A command announces its text, as far as that fits. -/
theorem complete_command (text : Bytes) : (command text).Complete := by
  have hbounded : min text.length maxPayload ≤ maxPayload := Nat.min_le_right ..
  have hlt : min text.length maxPayload < 2 ^ 16 := Nat.lt_of_le_of_lt hbounded (by decide)
  refine ⟨?_, ?_⟩
  · change (UInt16.ofNat (min text.length maxPayload)).toNat = (text.take maxPayload).length
    rw [UInt16.toNat_ofNat_of_lt' hlt, List.length_take, Nat.min_comm]
  · change (text.take maxPayload).length ≤ maxPayload
    exact List.length_take_le ..

/-- The frame of any command is complete. -/
theorem complete_ofCommand (text : Bytes) : (ofCommand text).Complete := by
  unfold ofCommand
  split
  · exact complete_control _
  · exact complete_command text

end PmacPoll.Frame
