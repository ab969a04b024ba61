import PmacPoll.Channel.Inbox

/-!
# Feeding a scanner

`Scanner.feed` takes a prefix of its input, `Scanner.feed_split`, and what it takes determines the
result: whatever follows a taken prefix is handed back untouched, `Scanner.feed_of_isDone`. So a
scanner may be fed in pieces, `Scanner.feed_append`.

`Scanner.feed_skipMessage` joins the two automata that look for the end of a message. A scanner that
stops at its size limit stands in the middle of a message, and the skipping automaton, started with
the one bit that the scanner leaves behind, goes on to the same end.

As long as no message ends, a scanner stores what it is fed, `Scanner.feed_of_room`, up to its
limit, `Scanner.feed_of_full`.
-/

namespace PmacPoll.Reply.Scanner

/-! ### Pieces -/

/-- Of no input nothing is taken. -/
theorem feed_nil (s : Scanner) : s.feed [] = (s, []) := by
  rw [feed]

/-- A closed scanner takes nothing. -/
theorem feed_of_done {s : Scanner} (h : s.isDone = true) (input : Bytes) :
    s.feed input = (s, input) := by
  cases input with
  | nil => rw [feed]
  | cons byte rest => rw [feed, if_pos h]

/-- An open scanner takes a byte. -/
theorem feed_cons {s : Scanner} (h : s.isDone = false) (byte : UInt8) (rest : Bytes) :
    s.feed (byte :: rest) = (s.push byte).feed rest := by
  rw [feed, if_neg (by rw [h]; decide)]

/-- Feeding in two pieces: the second piece goes on from what the first one left. -/
theorem feed_append (s : Scanner) (a b : Bytes) :
    s.feed (a ++ b) =
      if (s.feed a).1.isDone then ((s.feed a).1, (s.feed a).2 ++ b) else (s.feed a).1.feed b := by
  -- byte for byte of the first piece, unless the scanner is done within it
  induction a generalizing s with
  | nil =>
    rw [List.nil_append, feed_nil]
    split
    · next h => rw [feed_of_done h, List.nil_append]
    · rfl
  | cons byte rest ih =>
    by_cases h : s.isDone = true
    · rw [List.cons_append, feed_of_done h, feed_of_done h, if_pos h, List.cons_append]
    · have hopen : s.isDone = false := by simpa using h
      rw [List.cons_append, feed_cons hopen, feed_cons hopen]
      exact ih (s.push byte)

/-- A scanner that is fed in two pieces comes to stand where it does with one. -/
theorem fst_feed_append (s : Scanner) (a b : Bytes) :
    (s.feed (a ++ b)).1 = ((s.feed a).1.feed b).1 := by
  rw [feed_append]
  split
  · next h => rw [feed_of_done h]
  · rfl

/-- A scanner that stays open has taken everything. -/
theorem feed_rest_of_open {s : Scanner} {input : Bytes}
    (h : (s.feed input).1.isDone = false) : (s.feed input).2 = [] := by
  induction input generalizing s with
  | nil => rw [feed_nil]
  | cons byte rest ih =>
    -- a scanner that is done at some byte stays so
    by_cases hs : s.isDone = true
    · rw [feed_of_done hs] at h
      rw [hs] at h
      exact nomatch h
    · have hopen : s.isDone = false := by simpa using hs
      rw [feed_cons hopen] at h ⊢
      exact ih h

/-- What a scanner takes is a prefix of its input, and the rest has no part in the result. -/
theorem feed_split (s : Scanner) (input : Bytes) :
    ∃ s' used rest, input = used ++ rest ∧ s.feed input = (s', rest) ∧
      s.feed used = (s', []) := by
  induction input generalizing s with
  | nil => exact ⟨s, [], [], rfl, feed_nil s, feed_nil s⟩
  | cons byte rest ih =>
    -- the scanner is done and takes nothing, or it takes the byte and goes on
    by_cases h : s.isDone = true
    · exact ⟨s, [], byte :: rest, rfl, feed_of_done h _, feed_nil s⟩
    · have hopen : s.isDone = false := by simpa using h
      obtain ⟨s', used, more, hrest, hfeed, hused⟩ := ih (s.push byte)
      refine ⟨s', byte :: used, more, by rw [hrest]; rfl, ?_, ?_⟩
      · rw [feed_cons hopen, hfeed]
      · rw [feed_cons hopen, hused]

/-- Once a scanner is done, more input is handed back. -/
theorem feed_of_isDone {s s' : Scanner} {input rest : Bytes} (h : s.feed input = (s', rest))
    (hdone : s'.isDone = true) (more : Bytes) : s.feed (input ++ more) = (s', rest ++ more) := by
  rw [feed_append, h, if_pos hdone]

/-- While a scanner is open, more input goes on from there. -/
theorem feed_of_open {s s' : Scanner} {input rest : Bytes} (h : s.feed input = (s', rest))
    (hopen : s'.isDone = false) (more : Bytes) : s.feed (input ++ more) = s'.feed more := by
  rw [feed_append, h, if_neg (by rw [hopen]; decide)]

/-! ### What is taken stays -/

/-- A byte leaves something in a scanner that is not done, or that has something in it already. -/
private theorem isEmpty_push {s : Scanner} (h : s.isDone = false ∨ s.isEmpty = false)
    (byte : UInt8) :
    (s.push byte).isEmpty = false := by
  unfold push
  split
  · next hphase =>
    -- a scanner that is done has something in it
    rcases h with h | h
    · rw [isDone, hphase] at h
      simp at h
    · exact h
  · split
    · simp [isEmpty, close]
    · split
      · split <;> simp [isEmpty, close]
      · simp only
        split <;> simp [isEmpty, close]

/-- A scanner that has taken something keeps it. -/
theorem isEmpty_feed {s : Scanner} (h : s.isEmpty = false) (input : Bytes) :
    (s.feed input).1.isEmpty = false := by
  induction input generalizing s with
  | nil => rw [feed_nil]; exact h
  | cons byte rest ih =>
    by_cases hs : s.isDone = true
    · rw [feed_of_done hs]; exact h
    · rw [feed_cons (by simpa using hs)]
      exact ih (isEmpty_push (Or.inr h) byte)

/-- An open scanner takes something of what it is fed. -/
theorem isEmpty_feed_of_ne {s : Scanner} (h : s.isDone = false) {input : Bytes}
    (hne : input ≠ []) : (s.feed input).1.isEmpty = false := by
  cases input with
  | nil => exact absurd rfl hne
  | cons byte rest =>
    rw [feed_cons h]
    exact isEmpty_feed (isEmpty_push (Or.inl h) byte) rest

/-! ### The end of the message -/

/-- A new scanner is not done. -/
theorem isDone_new (maxLength : Nat) : (new maxLength).isDone = false := rfl

/-- A new scanner reads, outside of any block. -/
theorem phase_new (maxLength : Nat) : (new maxLength).phase = .reading false := rfl

/-- A scanner that is not done is reading. -/
theorem phase_of_open {s : Scanner} (h : s.isDone = false) : ∃ b, s.phase = .reading b := by
  unfold isDone at h
  split at h
  · exact nomatch h
  · next b hb => exact ⟨b, hb⟩

/-- A scanner that is closed is done. -/
theorem isDone_of_closed {s : Scanner} {e : Ending} (h : s.phase = .closed e) :
    s.isDone = true := by
  rw [isDone, h]

/-- A scanner that reads is not. -/
theorem isDone_of_reading {s : Scanner} {b : Bool} (h : s.phase = .reading b) :
    s.isDone = false := by
  rw [isDone, h]

/-- Silence is what ends a reply whose scanner is not done, and no other. -/
theorem isComplete_finish (s : Scanner) : s.finish.isComplete = s.isDone := by
  rw [isDone, finish, ending?, isComplete]
  cases hphase : s.phase with
  | closed ending => cases ending <;> rfl
  | reading b => rfl

/-- What the skipping automaton makes of the bytes that a scanner left, told from the scanner's
    phase: the message is over unless the scanner is reading or was stopped by its limit. -/
def skipFrom (phase : Phase) (rest : Bytes) : Except Bool Bytes :=
  match phase with
  | .reading inBlock => Inbox.skipMessage inBlock rest
  | .closed (.truncated inBlock) => Inbox.skipMessage inBlock rest
  | .closed _ => .ok rest

/-- One byte takes the scanner and the skipping automaton to the same place. -/
private theorem skipFrom_push {s : Scanner} {inBlock : Bool} (h : s.phase = .reading inBlock)
    (byte : UInt8) (rest : Bytes) :
    skipFrom (s.push byte).phase rest = Inbox.skipMessage inBlock (byte :: rest) := by
  rw [push, h, Inbox.skipMessage]
  simp only
  -- the scanner and the skipping look for the same ends in the same order
  by_cases hend : (byte == Control.ack || byte == Control.lineFeed) = true
  · rw [if_pos hend, if_pos hend]
    by_cases hack : (byte == Control.ack) = true <;> simp [hack, skipFrom, close]
  · rw [if_neg hend, if_neg hend]
    by_cases hcr : (byte == Control.carriageReturn && inBlock) = true
    · rw [if_pos hcr, if_pos hcr]
      split <;> rfl
    · rw [if_neg hcr, if_neg hcr]
      split <;> rfl

/-- **The two automata agree**: skipping a message from where a scanner stands ends where skipping
    from where it stopped does. -/
theorem feed_skipMessage {s : Scanner} {inBlock : Bool} (h : s.phase = .reading inBlock)
    (input : Bytes) :
    Inbox.skipMessage inBlock input = skipFrom (s.feed input).1.phase (s.feed input).2 := by
  induction input generalizing s inBlock with
  | nil => rw [feed_nil, h, skipFrom]
  | cons byte rest ih =>
    rw [feed_cons (isDone_of_reading h), ← skipFrom_push h byte rest]
    by_cases hdone : (s.push byte).isDone = true
    · -- The scanner has stopped, and what it left is skipped from here.
      rw [feed_of_done hdone]
    · obtain ⟨b, hb⟩ := phase_of_open (by simpa using hdone)
      rw [← ih hb, hb, skipFrom]

/-! ### Bytes that end no message -/

/-- A byte that ends no message is stored while there is room for one more. -/
theorem push_of_room {s : Scanner} {b : Bool} {byte : UInt8} (hphase : s.phase = .reading b)
    (hend : ¬ (byte == Control.ack || byte == Control.lineFeed) = true)
    (hcr : ¬ (byte == Control.carriageReturn && b) = true) (hroom : s.size + 1 < s.maxLength) :
    s.push byte = { s with
      buffer := s.buffer.push byte, phase := .reading (b || Control.opensBlock byte) } := by
  rw [push, hphase]
  simp only [if_neg hend, if_neg hcr]
  rw [if_pos hroom]

/-- In the last place it gives way to an acknowledge. -/
theorem push_of_full {s : Scanner} {b : Bool} {byte : UInt8} (hphase : s.phase = .reading b)
    (hend : ¬ (byte == Control.ack || byte == Control.lineFeed) = true)
    (hcr : ¬ (byte == Control.carriageReturn && b) = true) (hfull : ¬ s.size + 1 < s.maxLength) :
    s.push byte = s.close Control.ack (.truncated (b || Control.opensBlock byte)) := by
  rw [push, hphase]
  simp only [if_neg hend, if_neg hcr]
  rw [if_neg hfull]

/-- Bytes that end no message are all stored if they leave room for one more. -/
theorem feed_of_room {s : Scanner} {b b' : Bool} {input : Bytes} (hphase : s.phase = .reading b)
    (hskip : Inbox.skipMessage b input = .error b')
    (hroom : s.size + input.length < s.maxLength) :
    (s.feed input).1.phase = .reading b' ∧ (s.feed input).1.data = s.data ++ input := by
  -- no byte is an end, and each one leaves room for those that follow
  induction input generalizing s b with
  | nil =>
    obtain rfl := Except.error.inj hskip
    rw [feed_nil, List.append_nil]
    exact ⟨hphase, rfl⟩
  | cons byte rest ih =>
    rw [Inbox.skipMessage] at hskip
    rw [List.length_cons] at hroom
    split at hskip
    · exact nomatch hskip
    · next hend =>
      split at hskip
      · exact nomatch hskip
      · next hcr =>
        have hpush := push_of_room hphase hend hcr (by omega)
        obtain ⟨hphase', hdata⟩ := ih (s := s.push byte) (by rw [hpush]) hskip (by
          rw [hpush]
          simp only [size, Array.size_push] at hroom ⊢
          omega)
        rw [feed_cons (isDone_of_reading hphase)]
        refine ⟨hphase', hdata.trans ?_⟩
        rw [hpush]
        simp [data]

/-- Bytes that end no message and are too many are cut off, the last place kept for an
    acknowledge. -/
theorem feed_of_full {s : Scanner} {b b' : Bool} {input : Bytes} (hphase : s.phase = .reading b)
    (hskip : Inbox.skipMessage b input = .error b') (hsize : s.size < s.maxLength)
    (hfull : s.maxLength ≤ s.size + input.length) :
    (∃ inBlock, (s.feed input).1.phase = .closed (.truncated inBlock)) ∧
      (s.feed input).1.data =
        s.data ++ input.take (s.maxLength - s.size - 1) ++ [Control.ack] := by
  -- bytes are stored as long as there is room, and the one without room closes the scanner
  induction input generalizing s b with
  | nil =>
    rw [List.length_nil] at hfull
    omega
  | cons byte rest ih =>
    rw [Inbox.skipMessage] at hskip
    rw [List.length_cons] at hfull
    rw [feed_cons (isDone_of_reading hphase)]
    split at hskip
    · exact nomatch hskip
    · next hend =>
      split at hskip
      · exact nomatch hskip
      · next hcr =>
        by_cases hroom : s.size + 1 < s.maxLength
        · have hpush := push_of_room hphase hend hcr hroom
          have hsize' : (s.push byte).size = s.size + 1 := by
            rw [hpush]
            simp [size]
          have hmax : (s.push byte).maxLength = s.maxLength := by rw [hpush]
          obtain ⟨hphase', hdata⟩ := ih (s := s.push byte) (by rw [hpush]) hskip
            (by rw [hsize', hmax]; exact hroom) (by rw [hsize', hmax]; omega)
          refine ⟨hphase', hdata.trans ?_⟩
          have hplaces : s.maxLength - s.size - 1 = (s.maxLength - (s.size + 1) - 1) + 1 := by
            omega
          rw [hsize', hmax, hplaces, List.take_succ_cons, hpush]
          simp [data]
        · have hpush := push_of_full hphase hend hcr hroom
          have hplaces : s.maxLength - s.size - 1 = 0 := by omega
          rw [feed_of_done (by rw [hpush]; rfl), hpush, hplaces]
          exact ⟨⟨_, rfl⟩, by simp [data, close]⟩

/-! ### What is stored -/

/-- A byte is stored, or it closes the scanner with an acknowledge, before which it may be stored
    too. An acknowledge is never stored for itself. -/
private theorem data_push {s : Scanner} (h : s.isDone = false) (byte : UInt8) :
    ((s.push byte).isDone = false ∧ (s.push byte).data = s.data ++ [byte] ∧
      byte ≠ Control.ack) ∨
    ((s.push byte).isDone = true ∧ ∃ kept,
      (s.push byte).data = s.data ++ kept ++ [Control.ack] ∧
      (kept = [] ∨ kept = [byte] ∧ byte ≠ Control.ack)) := by
  obtain ⟨inBlock, hphase⟩ := phase_of_open h
  rw [push, hphase]
  simp only
  -- an end closes the scanner, and other bytes do so only in a block or for want of room
  by_cases hend : (byte == Control.ack || byte == Control.lineFeed) = true
  · rw [if_pos hend]
    exact Or.inr ⟨rfl, [], by simp [data, close], Or.inl rfl⟩
  · have hne : byte ≠ Control.ack := by
      rintro rfl
      exact hend rfl
    rw [if_neg hend]
    split
    · split
      · exact Or.inr ⟨rfl, [byte], by simp [data, close], Or.inr ⟨rfl, hne⟩⟩
      · exact Or.inr ⟨rfl, [], by simp [data, close], Or.inl rfl⟩
    · split
      · exact Or.inl ⟨rfl, by simp [data], hne⟩
      · exact Or.inr ⟨rfl, [], by simp [data, close], Or.inl rfl⟩

/-- What a scanner stores of its input is a prefix of it without an acknowledge, and then an
    acknowledge if the scanner closes. -/
theorem data_feed {s : Scanner} (h : s.isDone = false) (input : Bytes) :
    ∃ kept last, (s.feed input).1.data = s.data ++ kept ++ last ∧ kept <+: input ∧
      Control.ack ∉ kept ∧ (last = [Control.ack] ∨ last = [] ∧ kept = input) := by
  -- the first byte that closes the scanner is the last one taken
  induction input generalizing s with
  | nil =>
    refine ⟨[], [], ?_, List.nil_prefix, List.not_mem_nil, Or.inr ⟨rfl, rfl⟩⟩
    rw [feed_nil, List.append_nil, List.append_nil]
  | cons byte rest ih =>
    rw [feed_cons h]
    rcases data_push h byte with ⟨hopen, hdata, hne⟩ | ⟨hdone, kept, hdata, hkept⟩
    · obtain ⟨kept, last, hfeed, hprefix, hack, hlast⟩ := ih hopen
      refine ⟨byte :: kept, last, ?_, (List.prefix_cons_inj byte).mpr hprefix, ?_, ?_⟩
      · rw [hfeed, hdata]
        simp
      · exact List.not_mem_cons_of_ne_of_not_mem hne.symm hack
      · rcases hlast with hlast | ⟨hlast, rfl⟩
        · exact Or.inl hlast
        · exact Or.inr ⟨hlast, rfl⟩
    · rw [feed_of_done hdone]
      refine ⟨kept, [Control.ack], hdata, ?_, ?_, Or.inl rfl⟩
      · rcases hkept with rfl | ⟨rfl, -⟩
        · exact List.nil_prefix
        · exact ⟨rest, rfl⟩
      · rcases hkept with rfl | ⟨rfl, hne⟩
        · exact List.not_mem_nil
        · exact List.not_mem_cons_of_ne_of_not_mem hne.symm List.not_mem_nil

end PmacPoll.Reply.Scanner
