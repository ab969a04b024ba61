import PmacPoll.Proofs.TextPieces
import PmacPoll.Text.Utf8

/-!
# Text and its octets

What is encoded is decoded again, `decode_encode`, and nothing else passes as text,
`decode?_eq_some_iff`. An ASCII octet stands for its character wherever it comes,
`decodeFrom_append_ascii`: the character before it, if it is cut off, becomes a replacement and
takes nothing of what follows.

So cutting at carriage returns can be done before or after decoding, `ended_decode`. That holds of
any octets, also of a text cut off in the middle of a character. The invariant behind it is
`Owing.Sound`: no sequence of octets yields an ASCII character in a longer form than its own.
-/

namespace PmacPoll.Utf8

/-! ### Single octets -/

/-- An ASCII octet is a character. -/
theorem first_ascii {byte : UInt8} (h : byte.toNat ≤ 0x7F) :
    first byte = (none, [Char.ofNat byte.toNat]) := by
  rw [first, if_pos (UInt8.le_iff_toNat_le.mpr h)]

/-- An octet of this range begins a character of two. -/
private theorem first_two {byte : UInt8} (hlow : 0xC2 ≤ byte.toNat) (hhigh : byte.toNat ≤ 0xDF) :
    first byte = (some ⟨byte.toNat - 0xC0, 1, 0x80, 0xBF⟩, []) := by
  simp only [first, UInt8.le_iff_toNat_le, UInt8.reduceToNat, Bool.and_eq_true, decide_eq_true_eq]
  rw [if_neg (by omega), if_pos ⟨hlow, hhigh⟩]

/-- An octet of this range begins a character of three, and the first and the last one bound the
    second octet more closely. -/
private theorem first_three {byte : UInt8} (hlow : 0xE0 ≤ byte.toNat) (hhigh : byte.toNat ≤ 0xEF) :
    ∃ low high : UInt8, first byte = (some ⟨byte.toNat - 0xE0, 2, low, high⟩, []) ∧
      (byte.toNat = 0xE0 ∧ low.toNat = 0xA0 ∨ byte.toNat ≠ 0xE0 ∧ low.toNat = 0x80) ∧
      (byte.toNat = 0xED ∧ high.toNat = 0x9F ∨ byte.toNat ≠ 0xED ∧ high.toNat = 0xBF) := by
  simp only [first, UInt8.le_iff_toNat_le, UInt8.reduceToNat, Bool.and_eq_true, decide_eq_true_eq,
    beq_iff_eq, ← UInt8.toNat_inj]
  rw [if_neg (by omega), if_neg (by omega)]
  -- the first octet of the range excludes longer forms, and one other excludes surrogates
  by_cases h0 : byte.toNat = 0xE0
  · rw [if_pos h0, h0]
    exact ⟨0xA0, 0xBF, rfl, Or.inl ⟨rfl, rfl⟩, Or.inr ⟨by decide, rfl⟩⟩
  · rw [if_neg h0]
    by_cases hD : byte.toNat = 0xED
    · rw [if_pos hD, hD]
      exact ⟨0x80, 0x9F, rfl, Or.inr ⟨by decide, rfl⟩, Or.inl ⟨rfl, rfl⟩⟩
    · rw [if_neg hD, if_pos (by omega)]
      exact ⟨0x80, 0xBF, rfl, Or.inr ⟨h0, rfl⟩, Or.inr ⟨hD, rfl⟩⟩

/-- An octet of this range begins a character of four, with such bounds as well. -/
private theorem first_four {byte : UInt8} (hlow : 0xF0 ≤ byte.toNat) (hhigh : byte.toNat ≤ 0xF4) :
    ∃ low high : UInt8, first byte = (some ⟨byte.toNat - 0xF0, 3, low, high⟩, []) ∧
      (byte.toNat = 0xF0 ∧ low.toNat = 0x90 ∨ byte.toNat ≠ 0xF0 ∧ low.toNat = 0x80) ∧
      (byte.toNat = 0xF4 ∧ high.toNat = 0x8F ∨ byte.toNat ≠ 0xF4 ∧ high.toNat = 0xBF) := by
  simp only [first, UInt8.le_iff_toNat_le, UInt8.reduceToNat, Bool.and_eq_true, decide_eq_true_eq,
    beq_iff_eq, ← UInt8.toNat_inj]
  rw [if_neg (by omega), if_neg (by omega), if_neg (by omega), if_neg (by omega),
    if_neg (by omega)]
  -- the first octet of the range excludes longer forms, and the last one what is out of range
  by_cases h0 : byte.toNat = 0xF0
  · rw [if_pos h0, h0]
    exact ⟨0x90, 0xBF, rfl, Or.inl ⟨rfl, rfl⟩, Or.inr ⟨by decide, rfl⟩⟩
  · rw [if_neg h0]
    by_cases h4 : byte.toNat = 0xF4
    · rw [if_pos h4, h4]
      exact ⟨0x80, 0x8F, rfl, Or.inr ⟨by decide, rfl⟩, Or.inl ⟨rfl, rfl⟩⟩
    · rw [if_neg h4, if_pos (by omega)]
      exact ⟨0x80, 0xBF, rfl, Or.inr ⟨h0, rfl⟩, Or.inr ⟨h4, rfl⟩⟩

/-- Any other octet begins nothing and is replaced. -/
private theorem first_other {byte : UInt8}
    (h : 0x80 ≤ byte.toNat ∧ byte.toNat ≤ 0xC1 ∨ 0xF5 ≤ byte.toNat) :
    first byte = (none, [replacement]) := by
  simp only [first, UInt8.le_iff_toNat_le, UInt8.reduceToNat, Bool.and_eq_true, decide_eq_true_eq,
    beq_iff_eq, ← UInt8.toNat_inj]
  rw [if_neg (by omega), if_neg (by omega), if_neg (by omega), if_neg (by omega),
    if_neg (by omega), if_neg (by omega), if_neg (by omega), if_neg (by omega)]

/-- An octet within its bounds ends the character or leaves fewer to come. -/
private theorem next_of_mem {p : Owing} {byte : UInt8} (hlow : p.low.toNat ≤ byte.toNat)
    (hhigh : byte.toNat ≤ p.high.toNat) :
    next p byte =
      if p.owed ≤ 1 then (none, [Char.ofNat (p.bits * 64 + (byte.toNat - 0x80))])
      else (some ⟨p.bits * 64 + (byte.toNat - 0x80), p.owed - 1, 0x80, 0xBF⟩, []) := by
  rw [next, if_pos]
  simpa [UInt8.le_iff_toNat_le] using ⟨hlow, hhigh⟩

/-- An octet out of its bounds ends the character with a replacement, and may begin another one. -/
private theorem next_of_not_mem {p : Owing} {byte : UInt8}
    (h : byte.toNat < p.low.toNat ∨ p.high.toNat < byte.toNat) :
    next p byte = ((first byte).1, replacement :: (first byte).2) := by
  rw [next, if_neg]
  simp only [UInt8.le_iff_toNat_le, Bool.and_eq_true, decide_eq_true_eq]
  omega

/-- Octets are decoded one after another. -/
theorem decodeFrom_cons (state : Option Owing) (byte : UInt8) (rest : Bytes) :
    decodeFrom state (byte :: rest) =
      (step state byte).2 ++ decodeFrom (step state byte).1 rest := by
  cases state <;> rfl

/-! ### What is encoded is decoded again -/

/-- A number below 256 is the value of its octet. -/
private theorem toNat_ofNat_of_lt {n : Nat} (h : n < 256) : (UInt8.ofNat n).toNat = n :=
  Nat.mod_eq_of_lt h

/-- An octet of a character that is not its last. -/
private theorem decodeFrom_more {bits owed n : Nat} {low high : UInt8} (rest : Bytes)
    (hn : n < 256) (hlow : low.toNat ≤ n) (hhigh : n ≤ high.toNat) (howed : 1 < owed) :
    decodeFrom (some ⟨bits, owed, low, high⟩) (UInt8.ofNat n :: rest) =
      decodeFrom (some ⟨bits * 64 + (n - 0x80), owed - 1, 0x80, 0xBF⟩) rest := by
  have hb := toNat_ofNat_of_lt hn
  have hnot : ¬ owed ≤ 1 := by omega
  rw [decodeFrom_cons, step, next_of_mem (by rw [hb]; exact hlow) (by rw [hb]; exact hhigh), hb]
  simp only [if_neg hnot]
  rfl

/-- The last octet of a character. -/
private theorem decodeFrom_last {bits owed n : Nat} {low high : UInt8} (rest : Bytes)
    (hn : n < 256) (hlow : low.toNat ≤ n) (hhigh : n ≤ high.toNat) (howed : owed ≤ 1) :
    decodeFrom (some ⟨bits, owed, low, high⟩) (UInt8.ofNat n :: rest) =
      Char.ofNat (bits * 64 + (n - 0x80)) :: decodeFrom none rest := by
  have hb := toNat_ofNat_of_lt hn
  rw [decodeFrom_cons, step, next_of_mem (by rw [hb]; exact hlow) (by rw [hb]; exact hhigh), hb]
  simp only [if_pos howed]
  rfl

/-- The octets of one character. -/
private theorem decodeFrom_encodeChar (c : Char) (rest : Bytes) :
    decodeFrom none (String.utf8EncodeChar c ++ rest) = c :: decodeFrom none rest := by
  have hvalid : c.toNat < 0xD800 ∨ 0xDFFF < c.toNat ∧ c.toNat < 0x110000 := c.valid
  have hchar : Char.ofNat c.toNat = c := Char.ofNat_toNat c
  have hv : c.val.toNat = c.toNat := rfl
  have h80 : (0x80 : UInt8).toNat = 0x80 := rfl
  have hBF : (0xBF : UInt8).toNat = 0xBF := rfl
  unfold String.utf8EncodeChar
  simp only [hv]
  generalize c.toNat = v at hvalid hchar
  -- one octet, two, three, or four
  split
  · next h1 =>
    have hb := toNat_ofNat_of_lt (show v < 256 by omega)
    rw [List.cons_append, decodeFrom_cons, step, first_ascii (by omega), hb, hchar]
    rfl
  · split
    · next h1 h2 =>
      have hb := toNat_ofNat_of_lt (show v / 64 % 0x20 + 0xc0 < 256 by omega)
      have hbits : (v / 64 % 0x20 + 0xc0 - 0xC0) * 64 + (v % 0x40 + 0x80 - 0x80) = v := by omega
      rw [List.cons_append, decodeFrom_cons, step, first_two (by omega) (by omega), hb,
        List.cons_append, decodeFrom_last _ (by omega) (by omega) (by omega) (by omega), hbits,
        hchar]
      rfl
    · split
      · next h1 h2 h3 =>
        have hb := toNat_ofNat_of_lt (show v / 4096 % 0x10 + 0xe0 < 256 by omega)
        -- the second octet has bounds of its own
        obtain ⟨low, high, hfirst, hlow, hhigh⟩ :=
          first_three (show 0xE0 ≤ (UInt8.ofNat (v / 4096 % 0x10 + 0xe0)).toNat by omega) (by omega)
        have hbits : ((v / 4096 % 0x10 + 0xe0 - 0xE0) * 64 + (v / 64 % 0x40 + 0x80 - 0x80)) * 64 +
            (v % 0x40 + 0x80 - 0x80) = v := by omega
        rw [List.cons_append, decodeFrom_cons, step, hfirst, hb, List.cons_append,
          decodeFrom_more _ (by omega) (by omega) (by omega) (by omega), List.cons_append,
          decodeFrom_last _ (by omega) (by omega) (by omega) (by omega), hbits, hchar]
        rfl
      · next h1 h2 h3 =>
        have hb := toNat_ofNat_of_lt (show v / 262144 % 0x08 + 0xf0 < 256 by omega)
        obtain ⟨low, high, hfirst, hlow, hhigh⟩ :=
          first_four (show 0xF0 ≤ (UInt8.ofNat (v / 262144 % 0x08 + 0xf0)).toNat by omega)
            (by omega)
        have hbits : (((v / 262144 % 0x08 + 0xf0 - 0xF0) * 64 +
            (v / 4096 % 0x40 + 0x80 - 0x80)) * 64 + (v / 64 % 0x40 + 0x80 - 0x80)) * 64 +
            (v % 0x40 + 0x80 - 0x80) = v := by omega
        rw [List.cons_append, decodeFrom_cons, step, hfirst, hb, List.cons_append,
          decodeFrom_more _ (by omega) (by omega) (by omega) (by omega), List.cons_append,
          decodeFrom_more _ (by omega) (by omega) (by omega) (by omega), List.cons_append,
          decodeFrom_last _ (by omega) (by omega) (by omega) (by omega), hbits, hchar]
        rfl

/-- Texts are encoded one after another. -/
theorem encode_append (a b : String) : encode (a ++ b) = encode a ++ encode b := by
  rw [encode, String.toList_append, List.flatMap_append]
  rfl

/-- Text that is encoded and decoded is the same text. -/
theorem decode_encode (text : String) : decode (encode text) = text := by
  have hchars : ∀ chars : List Char,
      decodeFrom none (chars.flatMap String.utf8EncodeChar) = chars := by
    intro chars
    induction chars with
    | nil => rfl
    | cons c more ih => rw [List.flatMap_cons, decodeFrom_encodeChar, ih]
  rw [decode, encode, hchars, String.ofList_toList]

/-- What a text is made of are its octets. -/
private theorem toByteArray_eq (text : String) : text.toByteArray = ⟨(encode text).toArray⟩ := by
  rw [← String.ofList_toList (s := text), String.toByteArray_ofList, encode, String.toList_ofList,
    List.utf8Encode]
  exact ByteArray.ext List.data_toByteArray

/-- Octets are accepted as a text just if they are how it is written. -/
theorem decode?_eq_some_iff {bytes : Bytes} {text : String} :
    decode? bytes = some text ↔ bytes = encode text := by
  rw [decode?, String.fromUTF8?]
  constructor
  · intro h
    split at h
    · next hvalid =>
      -- what is accepted is a text, and it is written with these octets
      obtain rfl := Option.some.inj h
      have hsame : (⟨bytes.toArray⟩ : ByteArray) = _ :=
        toByteArray_eq (String.fromUTF8 ⟨bytes.toArray⟩ hvalid)
      simpa using hsame
    · exact nomatch h
  · rintro rfl
    have hvalid : (⟨(encode text).toArray⟩ : ByteArray).IsValidUTF8 :=
      toByteArray_eq text ▸ text.isValidUTF8
    rw [dif_pos hvalid]
    exact congrArg some (String.toByteArray_inj.mp (toByteArray_eq text).symm)

/-! ### ASCII octets -/

/-- What a character that is begun owes: the next octet is none of ASCII, and the character that
    comes out is none either. -/
def Owing.Sound (p : Owing) : Prop :=
  0x80 ≤ p.low.toNat ∧
    (2 ≤ p.bits ∨ (2 ≤ p.owed ∧ (1 ≤ p.bits ∨ 0x82 ≤ p.low.toNat)))

/-- The state between two octets is sound. -/
def Sound (state : Option Owing) : Prop :=
  ∀ p, state = some p → p.Sound

/-- No character is begun. -/
private theorem sound_none : Sound none := nofun

/-- A first octet leaves the state sound. -/
private theorem sound_first (byte : UInt8) : Sound (first byte).1 := by
  have h80 : (0x80 : UInt8).toNat = 0x80 := rfl
  -- along the bounds between the kinds of first octets
  rcases Nat.lt_or_ge byte.toNat 0x80 with h1 | h1
  · rw [first_ascii (by omega)]
    exact sound_none
  · rcases Nat.lt_or_ge byte.toNat 0xC2 with h2 | h2
    · rw [first_other (by omega)]
      exact sound_none
    · rcases Nat.lt_or_ge byte.toNat 0xE0 with h3 | h3
      · -- two octets: the first one has bits enough to make the character no ASCII one
        rw [first_two h2 (by omega)]
        intro p hp
        obtain rfl := Option.some.inj hp
        exact ⟨by simp only [h80]; omega, Or.inl (by simp only; omega)⟩
      · -- three or four: if it has none, then the second octet has a higher bound
        rcases Nat.lt_or_ge byte.toNat 0xF0 with h4 | h4
        · obtain ⟨low, high, hfirst, hlow, -⟩ := first_three h3 (by omega)
          rw [hfirst]
          intro p hp
          obtain rfl := Option.some.inj hp
          exact ⟨by simp only; omega, Or.inr (by simp only; omega)⟩
        · rcases Nat.lt_or_ge byte.toNat 0xF5 with h5 | h5
          · obtain ⟨low, high, hfirst, hlow, -⟩ := first_four h4 (by omega)
            rw [hfirst]
            intro p hp
            obtain rfl := Option.some.inj hp
            exact ⟨by simp only; omega, Or.inr (by simp only; omega)⟩
          · rw [first_other (by omega)]
            exact sound_none

/-- Every octet leaves the state sound. -/
private theorem sound_step {state : Option Owing} (h : Sound state) (byte : UInt8) :
    Sound (step state byte).1 := by
  have h80 : (0x80 : UInt8).toNat = 0x80 := rfl
  cases state with
  | none => exact sound_first byte
  | some p =>
    obtain ⟨hlow, hbits⟩ := h p rfl
    rw [step]
    -- within its bounds the octet brings six bits more, out of them it is read anew
    by_cases hmem : p.low.toNat ≤ byte.toNat ∧ byte.toNat ≤ p.high.toNat
    · rw [next_of_mem hmem.1 hmem.2]
      split
      · exact sound_none
      · intro q hq
        obtain rfl := Option.some.inj hq
        exact ⟨by simp only [h80]; omega, Or.inl (by simp only; omega)⟩
    · rw [next_of_not_mem (by omega)]
      exact sound_first byte

/-- An ASCII octet ends a character that was begun, and is read for itself. -/
private theorem decodeFrom_ascii {state : Option Owing} (h : Sound state) {byte : UInt8}
    (hbyte : byte.toNat ≤ 0x7F) (rest : Bytes) :
    decodeFrom state (byte :: rest) =
      decodeFrom state [] ++ Char.ofNat byte.toNat :: decodeFrom none rest := by
  cases state with
  | none =>
    rw [decodeFrom_cons, step, first_ascii hbyte]
    rfl
  | some p =>
    obtain ⟨hlow, -⟩ := h p rfl
    rw [decodeFrom_cons, step, next_of_not_mem (by omega), first_ascii hbyte]
    rfl

/-- An ASCII octet is read for itself, wherever it comes. -/
theorem decodeFrom_append_ascii {state : Option Owing} (h : Sound state) {byte : UInt8}
    (hbyte : byte.toNat ≤ 0x7F) (before rest : Bytes) :
    decodeFrom state (before ++ byte :: rest) =
      decodeFrom state before ++ Char.ofNat byte.toNat :: decodeFrom none rest := by
  induction before generalizing state with
  | nil => exact decodeFrom_ascii h hbyte rest
  | cons b more ih =>
    rw [List.cons_append, decodeFrom_cons, decodeFrom_cons, ih (sound_step h b),
      List.append_assoc]

/-! ### Carriage returns -/

/-- No other number is that of a carriage return. -/
private theorem ofNat_ne_cr {n : Nat} (h : n ≠ 13) : Char.ofNat n ≠ '\r' := by
  intro heq
  have hnat : (Char.ofNat n).toNat = 13 := congrArg Char.toNat heq
  by_cases hvalid : n.isValidChar
  · rw [Char.ofNat, dif_pos hvalid] at hnat
    exact h hnat
  · rw [Char.ofNat, dif_neg hvalid] at hnat
    exact absurd hnat (by decide)

/-- A first octet that is no carriage return gives none. -/
private theorem cr_not_mem_first {byte : UInt8} (h : byte ≠ Control.carriageReturn) :
    '\r' ∉ (first byte).2 := by
  have hnat : byte.toNat ≠ 13 := fun heq => h (UInt8.toNat_inj.mp heq)
  rcases Nat.lt_or_ge byte.toNat 0x80 with hascii | hhigh
  · rw [first_ascii (by omega), List.mem_singleton]
    exact fun heq => ofNat_ne_cr hnat heq.symm
  · have hchars : (first byte).2 = [] ∨ (first byte).2 = [replacement] := by
      rw [first, if_neg (by rw [UInt8.le_iff_toNat_le]; exact Nat.not_le_of_lt hhigh)]
      repeat' split
      all_goals first | exact Or.inl rfl | exact Or.inr rfl
    rcases hchars with hchars | hchars <;> rw [hchars] <;> decide

/-- In a sound state no other octet gives a carriage return. -/
private theorem cr_not_mem_step {state : Option Owing} (hstate : Sound state) {byte : UInt8}
    (h : byte ≠ Control.carriageReturn) : '\r' ∉ (step state byte).2 := by
  cases state with
  | none => exact cr_not_mem_first h
  | some p =>
    obtain ⟨hlow, hbits⟩ := hstate p rfl
    rw [step]
    -- the octet belongs to the character, which is no ASCII one, or it is read anew
    by_cases hmem : p.low.toNat ≤ byte.toNat ∧ byte.toNat ≤ p.high.toNat
    · rw [next_of_mem hmem.1 hmem.2]
      split
      · rw [List.mem_singleton]
        exact fun heq => ofNat_ne_cr (by omega) heq.symm
      · exact List.not_mem_nil
    · rw [next_of_not_mem (by omega), List.mem_cons, not_or]
      exact ⟨by decide, cr_not_mem_first h⟩

/-- There is a carriage return in decoded text only where there is one in the octets. -/
private theorem cr_not_mem_decodeFrom {bytes : Bytes} (h : Control.carriageReturn ∉ bytes)
    {state : Option Owing} (hstate : Sound state) : '\r' ∉ decodeFrom state bytes := by
  induction bytes generalizing state with
  | nil =>
    cases state with
    | none => exact List.not_mem_nil
    | some p => exact (by decide : '\r' ∉ [replacement])
  | cons byte rest ih =>
    rw [List.mem_cons, not_or] at h
    rw [decodeFrom_cons, List.mem_append, not_or]
    exact ⟨cr_not_mem_step hstate (Ne.symm h.1), ih h.2 (sound_step hstate byte)⟩

/-- Cutting at carriage returns can be done before or after decoding. -/
theorem ended_decode (bytes : Bytes) :
    Text.ended (· == '\r') (decodeFrom none bytes) =
      (Text.ended (· == Control.carriageReturn) bytes).map (decodeFrom none) := by
  have hchars : ∀ {line : Bytes}, Control.carriageReturn ∉ line →
      ∀ c ∈ decodeFrom none line, (c == '\r') = false := by
    intro line hline c hc
    rw [beq_eq_false_iff_ne]
    rintro rfl
    exact cr_not_mem_decodeFrom hline sound_none hc
  have hbytes : ∀ {line : Bytes}, Control.carriageReturn ∉ line →
      ∀ b ∈ line, (b == Control.carriageReturn) = false := by
    intro line hline b hb
    rw [beq_eq_false_iff_ne]
    rintro rfl
    exact hline hb
  -- at the first carriage return, if there is one
  by_cases hcr : Control.carriageReturn ∈ bytes
  · obtain ⟨line, rest, hsplit, hline⟩ := List.eq_append_cons_of_mem hcr
    rw [hsplit, decodeFrom_append_ascii sound_none (by decide),
      Text.ended_append_cons (by decide) (hchars hline), ended_decode rest,
      Text.ended_append_cons (by decide) (hbytes hline), List.map_cons]
  · rw [Text.ended_of_forall (hchars hcr), Text.ended_of_forall (hbytes hcr), List.map_nil]
termination_by bytes.length
decreasing_by rw [hsplit, List.length_append, List.length_cons]; omega

/-- The lines of decoded octets. -/
theorem endedLines_decode (bytes : Bytes) :
    Text.endedLines (decode bytes) =
      (Text.ended (· == Control.carriageReturn) bytes).map decode := by
  rw [Text.endedLines_eq, decode, String.toList_ofList, ended_decode, List.map_map]
  rfl

end PmacPoll.Utf8
