import PmacPoll.Proofs.MessageFraming

/-!
# What a scanner makes of a stream

However a stream is cut into chunks, a scanner makes of it what its limit and the place of the first
end in it tell, `feedAll_closedForm`. `EndsAt` says where a message may end without any automaton,
by the byte at an index and those before it.

`Standing` is the state after some bytes, computed from the bytes alone. One byte takes the state
after the bytes before it to the state after the bytes with it, `Standing.push`, and from that the
state after any input follows, `Standing.feed`.
-/

namespace PmacPoll.Reply

/-! ### Where a message ends -/

/-- Do the bytes have one that opens a block? -/
def HasOpener (bytes : Bytes) : Prop :=
  Control.bell ∈ bytes ∨ Control.stx ∈ bytes

/-- The byte at an index ends a message: an acknowledge, a line feed, or a carriage return after a
    byte that opens a block. -/
def EndsAt (stream : Bytes) (i : Nat) : Prop :=
  stream[i]? = some Control.ack ∨ stream[i]? = some Control.lineFeed ∨
    stream[i]? = some Control.carriageReturn ∧ HasOpener (stream.take i)

/-- The first index at which a message ends. -/
structure FirstEnd (stream : Bytes) (e : Nat) : Prop where
  ends : EndsAt stream e
  least : ∀ i < e, ¬ EndsAt stream i

instance (bytes : Bytes) : Decidable (HasOpener bytes) := inferInstanceAs (Decidable (_ ∨ _))

instance (stream : Bytes) (i : Nat) : Decidable (EndsAt stream i) :=
  inferInstanceAs (Decidable (_ ∨ _))

instance (stream : Bytes) (e : Nat) : Decidable (FirstEnd stream e) :=
  decidable_of_iff (EndsAt stream e ∧ ∀ i < e, ¬ EndsAt stream i)
    ⟨fun h => ⟨h.1, h.2⟩, fun h => ⟨h.ends, h.least⟩⟩

/-- A block is opened just if some byte opens it. -/
private theorem hasOpener_iff (bytes : Bytes) :
    HasOpener bytes ↔ bytes.any Control.opensBlock = true := by
  simp only [HasOpener, List.any_eq_true, Control.opensBlock, Bool.or_eq_true, beq_iff_eq]
  constructor
  · rintro (h | h)
    · exact ⟨_, h, Or.inl rfl⟩
    · exact ⟨_, h, Or.inr rfl⟩
  · rintro ⟨byte, h, rfl | rfl⟩
    · exact Or.inl h
    · exact Or.inr h

/-- An end is where a byte ends the message of those before it. -/
private theorem endsAt_iff (stream : Bytes) (i : Nat) :
    EndsAt stream i ↔ ∃ byte, stream[i]? = some byte ∧ endsMessage (stream.take i) byte = true := by
  simp only [EndsAt, hasOpener_iff, endsMessage, Bool.or_eq_true, Bool.and_eq_true, beq_iff_eq]
  constructor
  · -- an acknowledge, a line feed, or a carriage return in a block
    rintro (h | h | ⟨h, hopener⟩)
    · exact ⟨_, h, Or.inl (Or.inl rfl)⟩
    · exact ⟨_, h, Or.inl (Or.inr rfl)⟩
    · exact ⟨_, h, Or.inr ⟨rfl, hopener⟩⟩
  · rintro ⟨byte, h, (rfl | rfl) | ⟨rfl, hopener⟩⟩
    · exact Or.inl h
    · exact Or.inr (Or.inl h)
    · exact Or.inr (Or.inr ⟨h, hopener⟩)

/-- A message ends within the stream. -/
theorem EndsAt.lt_length {stream : Bytes} {i : Nat} (h : EndsAt stream i) : i < stream.length := by
  obtain ⟨byte, hbyte, -⟩ := (endsAt_iff stream i).mp h
  exact (List.getElem?_eq_some_iff.mp hbyte).1

/-- Where a message ends does not hang on what follows. -/
theorem endsAt_append {used : Bytes} {i : Nat} (h : i < used.length) (rest : Bytes) :
    EndsAt (used ++ rest) i ↔ EndsAt used i := by
  rw [endsAt_iff, endsAt_iff, List.getElem?_append_left h, List.take_append_of_le_length (by omega)]

/-- The last byte ends a message just if it does so after the bytes before it. -/
private theorem endsAt_snoc (used : Bytes) (byte : UInt8) :
    EndsAt (used ++ [byte]) used.length ↔ endsMessage used byte = true := by
  rw [endsAt_iff, List.getElem?_concat_length, List.take_left]
  simp

/-- No message ends in the bytes. -/
def Endless (bytes : Bytes) : Prop :=
  ∀ i, ¬ EndsAt bytes i

/-- Nothing ends in no bytes. -/
private theorem endless_nil : Endless [] := by
  intro i h
  exact absurd h.lt_length (Nat.not_lt_zero i)

/-- A byte that ends nothing leaves the bytes without an end. -/
private theorem Endless.snoc {used : Bytes} {byte : UInt8} (h : Endless used)
    (hbyte : endsMessage used byte = false) : Endless (used ++ [byte]) := by
  intro i hi
  have hlt := hi.lt_length
  rw [List.length_append, List.length_singleton] at hlt
  by_cases hlast : i = used.length
  · rw [hlast, endsAt_snoc, hbyte] at hi
    exact nomatch hi
  · exact h i ((endsAt_append (by omega) [byte]).mp hi)

/-- Of what begins with endless bytes, the first end is behind them. -/
private theorem Endless.le_of_endsAt {used : Bytes} (h : Endless used) {rest : Bytes} {i : Nat}
    (hi : EndsAt (used ++ rest) i) : used.length ≤ i :=
  Nat.le_of_not_lt fun hlt => h i ((endsAt_append hlt rest).mp hi)

/-- Bytes in which no message ends have no acknowledge and no line feed. -/
theorem Endless.not_mem {used : Bytes} (h : Endless used) :
    Control.ack ∉ used ∧ Control.lineFeed ∉ used := by
  constructor
  · intro hmem
    obtain ⟨i, hi⟩ := List.getElem?_of_mem hmem
    exact h i (Or.inl hi)
  · intro hmem
    obtain ⟨i, hi⟩ := List.getElem?_of_mem hmem
    exact h i (Or.inr (Or.inl hi))

namespace Scanner

/-! ### The state after some bytes -/

/-- What closes a scanner at a byte that ends a message. -/
def endingOf (byte : UInt8) : Ending :=
  if byte = Control.ack then .ack else if byte = Control.lineFeed then .lineFeed else .block

/-- What is stored for a byte that ends a message. The carriage return of a block gives way if there
    is only room for the acknowledge. -/
def lastBytes (max : Nat) (used : Bytes) (byte : UInt8) : Bytes :=
  if byte = Control.carriageReturn ∧ used.length + 2 ≤ max then [byte, Control.ack]
  else [Control.ack]

/-- An acknowledge or a line feed closes the message, and an acknowledge is stored. -/
private theorem push_of_end {s : Scanner} {b : Bool} {byte : UInt8} (hphase : s.phase = .reading b)
    (hend : (byte == Control.ack || byte == Control.lineFeed) = true) :
    s.push byte = s.close Control.ack (endingOf byte) := by
  rw [Scanner.push, hphase]
  dsimp only
  rw [if_pos hend]
  rw [Bool.or_eq_true, beq_iff_eq, beq_iff_eq] at hend
  rcases hend with rfl | rfl <;> rfl

/-- A carriage return closes a block, and is stored before the acknowledge if there is room for
    both. -/
private theorem push_of_return {s : Scanner} (hphase : s.phase = .reading true) :
    s.push Control.carriageReturn =
      if s.size + 2 ≤ s.maxLength then
        { s with buffer := s.buffer.push Control.carriageReturn }.close Control.ack .block
      else s.close Control.ack .block := by
  rw [Scanner.push, hphase]
  rfl

/-- The scanner that has taken some bytes, told from the bytes. -/
inductive Standing (max : Nat) : Bytes → Scanner → Prop where
  /-- No message has ended, and there is room. -/
  | reading {used : Bytes} {s : Scanner} : Endless used → used.length < max →
      s.maxLength = max → s.data = used → s.phase = .reading (used.any Control.opensBlock) →
      Standing max used s
  /-- The last byte ended the message. -/
  | ended {used : Bytes} {byte : UInt8} {s : Scanner} : Endless used → used.length < max →
      endsMessage used byte = true → s.data = used ++ lastBytes max used byte →
      s.phase = .closed (endingOf byte) → Standing max (used ++ [byte]) s
  /-- The last byte took the last place. -/
  | cut {used : Bytes} {byte : UInt8} {s : Scanner} : Endless (used ++ [byte]) →
      used.length + 1 = max → s.data = used ++ [Control.ack] →
      s.phase = .closed (.truncated ((used ++ [byte]).any Control.opensBlock)) →
      Standing max (used ++ [byte]) s

/-- A new scanner has taken nothing. -/
theorem standing_new (maxLength : Nat) : Standing (max maxLength 1) [] (new maxLength) :=
  .reading endless_nil (by simp only [List.length_nil]; omega) rfl rfl rfl

/-- One more byte. -/
theorem Standing.push {max : Nat} {used : Bytes} {s : Scanner} (h : Standing max used s)
    (hopen : s.isDone = false) (byte : UInt8) : Standing max (used ++ [byte]) (s.push byte) := by
  -- only a scanner that reads takes a byte, and what it does depends on whether the byte ends the
  -- message, and then on the room
  cases h with
  | ended _ _ _ _ hphase => simp [isDone_of_closed hphase] at hopen
  | cut _ _ _ hphase => simp [isDone_of_closed hphase] at hopen
  | reading hendless hroom hmax hdata hphase =>
    have hsize : s.size = used.length := by rw [← hdata, data, size, Array.length_toList]
    by_cases hend : (byte == Control.ack || byte == Control.lineFeed) = true
    · -- an acknowledge is stored, whichever of the two it is
      have hlast : lastBytes max used byte = [Control.ack] :=
        if_neg (by rintro ⟨rfl, -⟩; exact absurd hend (by decide))
      rw [push_of_end hphase hend]
      refine .ended hendless hroom (by rw [endsMessage, hend, Bool.true_or]) ?_ rfl
      rw [hlast, ← hdata]
      simp [close, data]
    · by_cases hcr : (byte == Control.carriageReturn && used.any Control.opensBlock) = true
      · -- in a block, a carriage return is stored too if there is room for both
        rw [Bool.and_eq_true, beq_iff_eq] at hcr
        obtain ⟨rfl, hopener⟩ := hcr
        rw [hopener] at hphase
        have hends : endsMessage used Control.carriageReturn = true := by
          rw [endsMessage, hopener]
          rfl
        rw [push_of_return hphase, hmax, hsize]
        refine .ended hendless hroom hends ?_ ?_
        · rw [lastBytes, ← hdata]
          simp only [true_and]
          split <;> simp [close, data]
        · split <;> rfl
      · have hgoes : endsMessage used byte = false := by
          rw [endsMessage, Bool.eq_false_iff, ne_eq, Bool.or_eq_true, not_or]
          exact ⟨hend, hcr⟩
        have hopener : (used ++ [byte]).any Control.opensBlock =
            (used.any Control.opensBlock || Control.opensBlock byte) := by
          rw [List.any_append, List.any_cons, List.any_nil, Bool.or_false]
        by_cases hfits : s.size + 1 < s.maxLength
        · rw [push_of_room hphase hend hcr hfits]
          refine .reading (hendless.snoc hgoes) ?_ hmax ?_ (by rw [hopener])
          · rw [List.length_append, List.length_singleton]
            omega
          · simp [data, ← hdata]
        · rw [push_of_full hphase hend hcr hfits]
          refine .cut (hendless.snoc hgoes) (by omega) ?_ (by rw [hopener]; rfl)
          simp [close, data, ← hdata]

/-- Any input, of which a scanner that is not done takes all. -/
theorem Standing.feed {max : Nat} {used : Bytes} {s : Scanner} (h : Standing max used s)
    (input : Bytes) :
    ∃ taken, input = taken ++ (s.feed input).2 ∧ Standing max (used ++ taken) (s.feed input).1 := by
  -- byte for byte, until the scanner is done
  induction input generalizing used s with
  | nil =>
    rw [feed_nil]
    exact ⟨[], rfl, by rwa [List.append_nil]⟩
  | cons byte rest ih =>
    by_cases hdone : s.isDone = true
    · rw [feed_of_done hdone]
      exact ⟨[], rfl, by rwa [List.append_nil]⟩
    · have hopen : s.isDone = false := by simpa using hdone
      obtain ⟨taken, hrest, hstanding⟩ := ih (h.push hopen byte)
      rw [feed_cons hopen]
      refine ⟨byte :: taken, by rw [List.cons_append, ← hrest], ?_⟩
      rwa [List.append_cons]

/-! ### Chunks -/

/-- Feeds some chunks one after the other, and counts the bytes that are taken of them. -/
def feedAll (s : Scanner) : List Bytes → Scanner × Nat
  | [] => (s, 0)
  | chunk :: more =>
    let (next, rest) := s.feed chunk
    let (last, count) := next.feedAll more
    (last, chunk.length - rest.length + count)

/-- A scanner that is done takes nothing of any chunk. -/
private theorem feedAll_of_done {s : Scanner} (h : s.isDone = true) (chunks : List Bytes) :
    s.feedAll chunks = (s, 0) := by
  induction chunks with
  | nil => rfl
  | cons chunk more ih =>
    simp only [feedAll, feed_of_done h, ih]
    rw [Nat.sub_self]

/-- The chunks add up: what is taken of them is the front of the stream that they make. -/
theorem Standing.feedAll {max : Nat} {used : Bytes} {s : Scanner} (h : Standing max used s)
    (chunks : List Bytes) :
    ∃ taken rest, chunks.flatten = taken ++ rest ∧ (s.feedAll chunks).2 = taken.length ∧
      Standing max (used ++ taken) (s.feedAll chunks).1 ∧
      ((s.feedAll chunks).1.isDone = false → rest = []) := by
  induction chunks generalizing used s with
  | nil => exact ⟨[], [], rfl, rfl, by rwa [List.append_nil], fun _ => rfl⟩
  | cons chunk more ih =>
    obtain ⟨taken, hchunk, hstanding⟩ := h.feed chunk
    have hcount : chunk.length - (s.feed chunk).2.length = taken.length := by
      have hlength := congrArg List.length hchunk
      rw [List.length_append] at hlength
      omega
    simp only [Scanner.feedAll, hcount]
    by_cases hdone : (s.feed chunk).1.isDone = true
    · rw [feedAll_of_done hdone]
      refine ⟨taken, (s.feed chunk).2 ++ more.flatten, ?_, rfl, hstanding,
        fun hopen => nomatch hopen.symm.trans hdone⟩
      rw [List.flatten_cons, ← List.append_assoc, ← hchunk]
    · -- all of the chunk is taken, and the next one goes on from there
      have hnone : (s.feed chunk).2 = [] := feed_rest_of_open (by simpa using hdone)
      obtain ⟨taken', rest, hmore, hcount', hstanding', hrest⟩ := ih hstanding
      refine ⟨taken ++ taken', rest, ?_, ?_, ?_, hrest⟩
      · rw [hnone, List.append_nil] at hchunk
        rw [List.flatten_cons, hmore, ← hchunk, List.append_assoc]
      · rw [hcount', List.length_append]
      · rwa [← List.append_assoc]

/-! ### The closed form -/

/-- The first end of a stream is the byte that ended the message, whatever follows it. -/
theorem firstEnd_iff {used : Bytes} {byte : UInt8} (hendless : Endless used)
    (hends : endsMessage used byte = true) (rest : Bytes) (e : Nat) :
    FirstEnd (used ++ [byte] ++ rest) e ↔ e = used.length := by
  have hend : EndsAt (used ++ [byte] ++ rest) used.length := by
    rw [endsAt_append (by simp), endsAt_snoc]
    exact hends
  have hbehind : ∀ i, EndsAt (used ++ [byte] ++ rest) i → used.length ≤ i := by
    intro i hi
    rw [List.append_assoc] at hi
    exact hendless.le_of_endsAt hi
  constructor
  · -- no earlier byte is an end, so it is the first one
    intro h
    exact Nat.le_antisymm (Nat.le_of_not_lt fun hlt => h.least _ hlt hend) (hbehind e h.ends)
  · rintro rfl
    exact ⟨hend, fun i hi h => absurd (hbehind i h) (Nat.not_le.mpr hi)⟩

/-- What a scanner that may take `max` bytes has made of a stream, of which it has taken the first
    `taken` bytes. -/
structure ClosedForm (max : Nat) (stream : Bytes) (s : Scanner) (taken : Nat) : Prop where
  /-- There is an end within the limit. -/
  ended : ∀ e, FirstEnd stream e → e < max →
    taken = e + 1 ∧ s.isDone = true ∧
    (stream[e]? = some Control.ack → s.finish = ⟨stream.take e ++ [Control.ack], .ack⟩) ∧
    (stream[e]? = some Control.lineFeed →
      s.finish = ⟨stream.take e ++ [Control.ack], .lineFeed⟩) ∧
    (stream[e]? = some Control.carriageReturn →
      s.finish = ⟨stream.take e ++
        if e + 2 ≤ max then [Control.carriageReturn, Control.ack] else [Control.ack], .block⟩)
  /-- There is none, and the limit is met. -/
  full : (∀ e, FirstEnd stream e → max ≤ e) → max ≤ stream.length →
    taken = max ∧ s.isDone = true ∧
    s.finish = ⟨stream.take (max - 1) ++ [Control.ack], .truncated⟩ ∧
    (s.truncatedInBlock = true ↔ HasOpener (stream.take max))
  /-- There is none, and the limit is not met. -/
  unfinished : (∀ e, FirstEnd stream e → max ≤ e) → stream.length < max →
    taken = stream.length ∧ s.isDone = false ∧ s.finish = ⟨stream, .incomplete⟩ ∧
    (s.phase = .reading true ↔ HasOpener stream)
  bounded : s.data.length ≤ max
  /-- The acknowledge of a reply that is done is its last byte and its only one, and there is no
      line feed. -/
  sealed : s.isDone = true → ∃ kept, s.data = kept ++ [Control.ack] ∧ Control.ack ∉ kept ∧
    Control.lineFeed ∉ kept

/-- A closed scanner gives a reply that ended as it was closed. -/
theorem finish_of_closed {s : Scanner} {ending : Ending} (h : s.phase = .closed ending) :
    s.finish = ⟨s.data, ending.termination⟩ := by
  rw [finish, ending?, h]

/-- A scanner that still reads gives an incomplete reply. -/
theorem finish_of_reading {s : Scanner} {inBlock : Bool} (h : s.phase = .reading inBlock) :
    s.finish = ⟨s.data, .incomplete⟩ := by
  rw [finish, ending?, h]

/-- What stands after some bytes has the closed form, if a scanner that is still open took all. -/
theorem Standing.closedForm {max : Nat} {used rest : Bytes} {s : Scanner}
    (h : Standing max used s) (hrest : s.isDone = false → rest = []) :
    ClosedForm max (used ++ rest) s used.length := by
  cases h with
  | reading hendless hroom hmax hdata hphase =>
    -- an open scanner has taken all there is
    obtain rfl := hrest (isDone_of_reading hphase)
    rw [List.append_nil]
    refine ⟨fun e he => absurd he.ends (hendless e), fun _ hfull => by omega,
      fun _ _ => ⟨rfl, isDone_of_reading hphase, ?_, ?_⟩, by rw [hdata]; omega,
      fun hdone => nomatch (isDone_of_reading hphase).symm.trans hdone⟩
    · rw [finish_of_reading hphase, hdata]
    · rw [hphase, Phase.reading.injEq, hasOpener_iff]
  | @ended used byte _ hendless hroom hends hdata hphase =>
    -- its last byte is the first end of the stream, whatever follows
    have hdone := isDone_of_closed hphase
    have hfirst := firstEnd_iff hendless hends rest
    have hnone : ¬ ∀ e, FirstEnd (used ++ [byte] ++ rest) e → max ≤ e := fun h =>
      Nat.not_le.mpr hroom (h _ ((hfirst _).mpr rfl))
    have htake : (used ++ [byte] ++ rest).take used.length = used := by
      rw [List.append_assoc, List.take_left]
    have hbyte : (used ++ [byte] ++ rest)[used.length]? = some byte := by
      rw [List.append_assoc, List.getElem?_append_right (Nat.le_refl _), Nat.sub_self]
      rfl
    refine ⟨fun e he _ => ?_, fun h => absurd h hnone, fun h => absurd h hnone, ?_, fun _ => ?_⟩
    · obtain rfl := (hfirst e).mp he
      rw [htake, hbyte, finish_of_closed hphase, hdata, List.length_append]
      refine ⟨rfl, hdone, ?_, ?_, ?_⟩ <;> (intro h; obtain rfl := Option.some.inj h)
      · rfl
      · rfl
      · simp [lastBytes, endingOf, Ending.termination, Control.carriageReturn, Control.ack,
          Control.lineFeed]
    · rw [hdata, List.length_append, lastBytes]
      split
      · next h =>
        simp only [List.length_cons, List.length_nil]
        omega
      · simp only [List.length_cons, List.length_nil]
        omega
    · obtain ⟨hack, hlineFeed⟩ := hendless.not_mem
      rw [hdata, lastBytes]
      split
      · next h =>
        refine ⟨used ++ [byte], by rw [List.append_assoc]; rfl, ?_, ?_⟩
        · rw [h.1, List.mem_append, not_or]
          exact ⟨hack, by decide⟩
        · rw [h.1, List.mem_append, not_or]
          exact ⟨hlineFeed, by decide⟩
      · exact ⟨used, rfl, hack, hlineFeed⟩
  | @cut used byte _ hendless hfull hdata hphase =>
    -- no end is among the bytes that it took, so none is within the limit
    have hlength : (used ++ [byte]).length = max := by
      rw [List.length_append, List.length_singleton, hfull]
    have hbehind : ∀ e, FirstEnd (used ++ [byte] ++ rest) e → max ≤ e := fun e he =>
      hlength ▸ hendless.le_of_endsAt he.ends
    refine ⟨fun e he hlt => absurd (hbehind e he) (Nat.not_le.mpr hlt), fun _ _ => ?_,
      fun _ hlt => ?_, ?_, fun _ => ⟨used, hdata, ?_⟩⟩
    · have htake : (used ++ [byte] ++ rest).take (max - 1) = used := by
        rw [List.append_assoc, show max - 1 = used.length by omega, List.take_left]
      have hwhole : (used ++ [byte] ++ rest).take max = used ++ [byte] := by
        rw [← hlength, List.take_left]
      refine ⟨hlength, isDone_of_closed hphase, ?_, ?_⟩
      · rw [finish_of_closed hphase, hdata, htake]
        rfl
      · rw [hwhole, truncatedInBlock, hphase, hasOpener_iff]
        simp
    · rw [List.length_append, hlength] at hlt
      omega
    · rw [hdata, List.length_append, List.length_singleton]
      omega
    · obtain ⟨hack, hlineFeed⟩ := hendless.not_mem
      exact ⟨fun h => hack (List.mem_append_left _ h),
        fun h => hlineFeed (List.mem_append_left _ h)⟩

/-- **A scanner in closed form.** Whatever the limit and however a stream is cut into chunks, what a
    scanner makes of it and how much it takes of it is told by the first index at which a message
    ends and by the limit. -/
theorem feedAll_closedForm (maxLength : Nat) (chunks : List Bytes) :
    ClosedForm (max maxLength 1) chunks.flatten ((new maxLength).feedAll chunks).1
      ((new maxLength).feedAll chunks).2 := by
  obtain ⟨taken, rest, hstream, hcount, hstanding, hrest⟩ :=
    (standing_new maxLength).feedAll chunks
  rw [List.nil_append] at hstanding
  rw [hstream, hcount]
  exact hstanding.closedForm hrest

/-- A block whose carriage return is the last byte that fits, in two chunks of which the second has
    more than the block. -/
example :
    ((new 3).feedAll [[0x07, 0x45], [0x0D, 0x31]]).1.finish = ⟨[0x07, 0x45, 0x06], .block⟩ ∧
      ((new 3).feedAll [[0x07, 0x45], [0x0D, 0x31]]).2 = 3 := by decide

end Scanner

end PmacPoll.Reply
