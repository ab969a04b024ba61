import PmacPoll.Proofs.MessageFraming

/-!
# One message

`IsMessage` are bytes that are exactly one message, and `Unended` those in which no message ends.

A reply that is put together from the pieces of one message leaves nothing behind once they are all
there, `Reassembly.inbox_of_isMessage`. If the limit closes it before, the rest of the message is
to be skipped, `Reassembly.inbox_of_unended`.
-/

namespace PmacPoll

/-! ### Skipping in pieces -/

namespace Inbox

/-- Skipping goes on from one piece to the next. -/
theorem skipMessage_append (inBlock : Bool) (a b : Bytes) :
    skipMessage inBlock (a ++ b) =
      match skipMessage inBlock a with
      | .error inBlock => skipMessage inBlock b
      | .ok rest => .ok (rest ++ b) := by
  induction a generalizing inBlock with
  | nil => rfl
  | cons byte rest ih =>
    rw [List.cons_append, skipMessage, skipMessage]
    split
    · rfl
    · split
      · rfl
      · exact ih _

/-- Inside a block a message ends at the same byte or sooner. -/
private theorem skipMessage_inBlock {inBlock : Bool} {input rest : Bytes}
    (h : skipMessage inBlock input = .ok rest) : ∃ sooner, skipMessage true input = .ok sooner := by
  -- what ends the message outside of a block ends it within one, and a carriage return ends it
  -- there only
  induction input generalizing inBlock with
  | nil => exact nomatch h
  | cons byte more ih =>
    rw [skipMessage] at h ⊢
    by_cases hend : (byte == Control.ack || byte == Control.lineFeed) = true
    · exact ⟨more, by rw [if_pos hend]⟩
    · rw [if_neg hend] at h ⊢
      by_cases hcr : (byte == Control.carriageReturn) = true
      · exact ⟨more, by rw [hcr]; rfl⟩
      · rw [if_neg (by simp [hcr])] at h ⊢
        rw [Bool.true_or]
        exact ih h

/-- A block does not close while a message goes on. -/
private theorem inBlock_of_skipMessage {input : Bytes} {inBlock : Bool}
    (h : skipMessage true input = .error inBlock) : inBlock = true := by
  induction input with
  | nil => exact (Except.error.inj h).symm
  | cons byte more ih =>
    rw [skipMessage] at h
    split at h
    · cases h
    · split at h
      · cases h
      · exact ih h

end Inbox

namespace Reply

/-! ### Messages and parts of them -/

/-- No byte is lost between the messages. -/
private theorem flatten_splitMessages (current input : Bytes) :
    (splitMessages current input).1.flatten ++ (splitMessages current input).2 =
      current ++ input := by
  induction input generalizing current with
  | nil => rw [splitMessages, List.flatten_nil, List.nil_append, List.append_nil]
  | cons byte rest ih =>
    rw [splitMessages]
    split
    · rw [List.flatten_cons, List.append_assoc, ih, List.nil_append, List.append_assoc]
      rfl
    · rw [ih, List.append_assoc]
      rfl

/-- The bytes are exactly one message, which ends with the last of them. -/
def IsMessage (bytes : Bytes) : Prop :=
  splitMessages [] bytes = ([bytes], [])

/-- No message ends in the bytes. -/
def Unended (bytes : Bytes) : Prop :=
  splitMessages [] bytes = ([], bytes)

instance : DecidablePred IsMessage := fun _ => inferInstanceAs (Decidable (_ = _))

instance : DecidablePred Unended := fun _ => inferInstanceAs (Decidable (_ = _))

/-- A message has bytes. -/
theorem IsMessage.ne_nil {bytes : Bytes} (h : IsMessage bytes) : bytes ≠ [] := by
  rintro rfl
  exact nomatch (Prod.mk.inj h).1

/-- A message does not end before its last byte. -/
theorem IsMessage.unended {a b : Bytes} (h : IsMessage (a ++ b)) (hb : b ≠ []) : Unended a := by
  rw [IsMessage, splitMessages_append] at h
  have hflatten := flatten_splitMessages [] a
  cases hsplit : (splitMessages [] a).1 with
  | nil =>
    rw [hsplit, List.flatten_nil, List.nil_append, List.nil_append] at hflatten
    exact Prod.ext hsplit hflatten
  | cons first more =>
    -- a message that ends within `a` would be the whole of it
    have hmessages := (Prod.mk.inj h).1
    rw [hsplit, List.cons_append] at hmessages
    obtain ⟨rfl, -⟩ := List.cons.inj hmessages
    have hlength := congrArg List.length hflatten
    have hpos := List.length_pos_iff.mpr hb
    simp only [hsplit, List.flatten_cons, List.length_append, List.length_nil] at hlength
    omega

/-- Nothing follows a message that is the whole. -/
private theorem eq_nil_of_isMessage_append {a b : Bytes} (h : IsMessage (a ++ b))
    (ha : splitMessages [] a = ([a], [])) : b = [] := by
  rw [IsMessage, splitMessages_append, ha] at h
  obtain ⟨hmessages, -⟩ := Prod.mk.inj h
  have hlength := congrArg List.length (List.cons.inj hmessages).1
  rw [List.length_append] at hlength
  exact List.length_eq_zero_iff.mp (by omega)

/-- Bytes in which no message ends are skipped, and what is left to know is whether they opened a
    block. -/
private theorem skipMessage_of_unended {bytes : Bytes} (h : Unended bytes) :
    Inbox.skipMessage false bytes = .error (bytes.any Control.opensBlock) := by
  cases hskip : Inbox.skipMessage false bytes with
  | error b =>
    obtain ⟨-, hany⟩ :=
      split_of_skipMessage_error (show Inbox.skipMessage (List.any [] _) _ = _ from hskip)
    rw [← hany, List.nil_append]
  | ok rest =>
    -- an end within these bytes would make a message of them
    obtain ⟨used, rfl, hused⟩ :=
      split_of_skipMessage_ok (show Inbox.skipMessage (List.any [] _) _ = _ from hskip)
    rw [Unended, splitMessages_append, hused] at h
    exact nomatch (Prod.mk.inj h).1

/-- A message is skipped to its end. -/
private theorem skipMessage_of_isMessage {bytes : Bytes} (h : IsMessage bytes) :
    Inbox.skipMessage false bytes = .ok [] := by
  cases hskip : Inbox.skipMessage false bytes with
  | error b =>
    obtain ⟨hsplit, -⟩ :=
      -- without an end they would be no message
      split_of_skipMessage_error (show Inbox.skipMessage (List.any [] _) _ = _ from hskip)
    exact nomatch (Prod.mk.inj (hsplit.symm.trans h)).1
  | ok rest =>
    obtain ⟨used, rfl, hused⟩ :=
      split_of_skipMessage_ok (show Inbox.skipMessage (List.any [] _) _ = _ from hskip)
    rw [List.nil_append] at hused
    rw [eq_nil_of_isMessage_append h hused]

/-- A message that is skipped from its start ends, even if a block is taken to be open. -/
private theorem exists_skipMessage_of_isMessage {bytes : Bytes} (h : IsMessage bytes)
    (inBlock : Bool) :
    ∃ rest, Inbox.skipMessage inBlock bytes = .ok rest := by
  cases inBlock with
  | false => exact ⟨[], skipMessage_of_isMessage h⟩
  | true => exact Inbox.skipMessage_inBlock (skipMessage_of_isMessage h)

/-- What is left of a message ends with it. -/
private theorem skipMessage_drop {bytes : Bytes} {n : Nat} (h : IsMessage bytes)
    (hlt : n < bytes.length) :
    Inbox.skipMessage ((bytes.take n).any Control.opensBlock) (bytes.drop n) = .ok [] := by
  have hwhole : IsMessage (bytes.take n ++ bytes.drop n) := by rwa [List.take_append_drop]
  have hne : bytes.drop n ≠ [] := by
    rw [ne_eq, List.drop_eq_nil_iff]
    omega
  have hskip := skipMessage_of_isMessage hwhole
  rw [Inbox.skipMessage_append, skipMessage_of_unended (hwhole.unended hne)] at hskip
  exact hskip

/-- When the second of two messages comes in the middle of the first, skipping what is left of the
    first ends, and not with the last byte. -/
theorem exists_skipMessage_crossed {first second : Bytes} {n : Nat} (hfirst : IsMessage first)
    (hsecond : IsMessage second) (hlt : n < first.length) :
    ∃ rest, Inbox.skipMessage ((first.take n).any Control.opensBlock)
      (second.take n ++ (first.drop n ++ second.drop n)) = .ok rest ∧ rest ≠ [] := by
  have hleft := skipMessage_drop hfirst hlt
  rw [Inbox.skipMessage_append]
  -- whether the first part of the second message holds an end of the first
  cases htaken : Inbox.skipMessage ((first.take n).any Control.opensBlock) (second.take n) with
  | ok rest =>
    -- the first part of the second message ends before the first message goes on
    refine ⟨_, rfl, List.append_ne_nil_of_right_ne_nil _ (List.append_ne_nil_of_left_ne_nil ?_ _)⟩
    rw [ne_eq, List.drop_eq_nil_iff]
    omega
  | error inBlock =>
    have hends : ∃ rest, Inbox.skipMessage inBlock (first.drop n) = .ok rest := by
      cases hblock : (first.take n).any Control.opensBlock with
      | false =>
        rw [hblock] at hleft
        cases inBlock with
        | false => exact ⟨[], hleft⟩
        | true => exact Inbox.skipMessage_inBlock hleft
      | true =>
        rw [hblock] at hleft htaken
        rw [Inbox.inBlock_of_skipMessage htaken]
        exact ⟨[], hleft⟩
    obtain ⟨rest, hrest⟩ := hends
    dsimp only
    rw [Inbox.skipMessage_append, hrest]
    refine ⟨_, rfl, List.append_ne_nil_of_right_ne_nil _ ?_⟩
    -- the second message is not all there yet, or it would have ended
    intro hnil
    obtain ⟨_, hwhole⟩ := exists_skipMessage_of_isMessage hsecond
      ((first.take n).any Control.opensBlock)
    rw [List.take_of_length_le (List.drop_eq_nil_iff.mp hnil), hwhole] at htaken
    exact nomatch htaken

/-! ### Scanning bytes that end no message -/

/-- Bytes that end no message and fit are a reply that is not complete. -/
theorem scan_of_room {maxLength : Nat} {bytes : Bytes} (h : Unended bytes)
    (hroom : bytes.length < max maxLength 1) :
    ((Scanner.new maxLength).feed bytes).1.isDone = false ∧
      scan maxLength bytes = ⟨bytes, .incomplete⟩ := by
  obtain ⟨hphase, hdata⟩ := Scanner.feed_of_room (Scanner.phase_new maxLength)
    (skipMessage_of_unended h) (by
      change 0 + bytes.length < max maxLength 1
      omega)
  refine ⟨Scanner.isDone_of_reading hphase, ?_⟩
  rw [scan, Scanner.finish, hdata, Scanner.ending?, hphase]
  rfl

/-- Of bytes that end no message and are too many, the limit keeps the first. -/
theorem scan_of_full {maxLength : Nat} {bytes : Bytes} (h : Unended bytes)
    (hfull : max maxLength 1 ≤ bytes.length) :
    ((Scanner.new maxLength).feed bytes).1.isDone = true ∧
      scan maxLength bytes = ⟨bytes.take (max maxLength 1 - 1) ++ [Control.ack], .truncated⟩ := by
  -- a new scanner has no bytes yet, and room for one at least
  obtain ⟨⟨inBlock, hphase⟩, hdata⟩ := Scanner.feed_of_full (Scanner.phase_new maxLength)
    (skipMessage_of_unended h)
    (by
      change 0 < max maxLength 1
      omega)
    (by
      change max maxLength 1 ≤ 0 + bytes.length
      omega)
  refine ⟨Scanner.isDone_of_closed hphase, ?_⟩
  rw [scan, Scanner.finish, hdata, Scanner.ending?, hphase]
  rfl

/-- What follows a reply that is complete has no part in it. -/
theorem scan_append {maxLength : Nat} {a : Bytes}
    (hdone : ((Scanner.new maxLength).feed a).1.isDone = true) (b : Bytes) :
    scan maxLength (a ++ b) = scan maxLength a := by
  rw [scan, scan, Scanner.fst_feed_append, Scanner.feed_of_done hdone]

end Reply

/-! ### Putting one message together -/

namespace Reassembly

open Reply

variable {maxLength : Nat} {chunks : List Bytes} {r : Reassembly}

/-- Once the whole of a message came, its reply is done and nothing is left over. -/
theorem inbox_of_isMessage (h : Reads maxLength chunks [] r) (hm : IsMessage chunks.flatten) :
    r.scanner.isDone = true ∧ r.inbox = {} ∧
      r.scanner.finish = scan maxLength chunks.flatten := by
  have hframed := framed_of_reads h
  generalize hgiven : ([] : List Reply) = given at hframed
  generalize chunks.flatten = stream at hframed hm
  -- no reply was given before, so the reply is that of the first message or of a part of it
  cases hframed with
  | reading last hsplit =>
    obtain rfl := List.map_eq_nil_iff.mp hgiven.symm
    exact nomatch (Prod.mk.inj (hm.symm.trans hsplit)).1
  | skipping => exact absurd hgiven.symm (List.append_ne_nil_of_right_ne_nil _ (by simp))
  | @complete stream _ _ last pending hsplit hscan hdone =>
    obtain rfl := List.map_eq_nil_iff.mp hgiven.symm
    have hlast : last = stream := by simpa [hsplit] using flatten_splitMessages [] stream
    subst hlast
    obtain rfl := eq_nil_of_isMessage_append hm hsplit
    rw [List.append_nil, hscan]
    exact ⟨hdone, rfl, rfl⟩
  | cut last rest hsplit =>
    obtain rfl := List.map_eq_nil_iff.mp hgiven.symm
    exact nomatch (Prod.mk.inj (hm.symm.trans hsplit)).1

/-- While a message goes on nothing is left over, but if the limit has closed its reply then its
    rest is to be skipped. -/
theorem inbox_of_unended (h : Reads maxLength chunks [] r) (hu : Unended chunks.flatten) :
    r.scanner.finish = scan maxLength chunks.flatten ∧
      (r.scanner.isDone = false → r.inbox = {}) ∧
      (r.scanner.isDone = true →
        r.inbox = { tail := some (chunks.flatten.any Control.opensBlock) }) := by
  have hframed := framed_of_reads h
  generalize hgiven : ([] : List Reply) = given at hframed
  generalize chunks.flatten = stream at hframed hu
  -- only a scanner that reads its first message and one that was cut off have given no message
  cases hframed with
  | reading last hsplit hfeed hopen =>
    obtain rfl := List.map_eq_nil_iff.mp hgiven.symm
    obtain rfl := (Prod.mk.inj (hu.symm.trans hsplit)).2
    exact ⟨by rw [scan, hfeed], fun _ => rfl,
      fun hdone => absurd (hopen.symm.trans hdone) Bool.false_ne_true⟩
  | skipping => exact absurd hgiven.symm (List.append_ne_nil_of_right_ne_nil _ (by simp))
  | complete last pending hsplit =>
    obtain rfl := List.map_eq_nil_iff.mp hgiven.symm
    rw [Unended, splitMessages_append, hsplit] at hu
    cases (Prod.mk.inj hu).1
  | cut last rest hsplit hfeed hdone =>
    obtain rfl := List.map_eq_nil_iff.mp hgiven.symm
    obtain rfl := (Prod.mk.inj (hu.symm.trans hsplit)).2
    exact ⟨by rw [scan, hfeed], fun hopen => absurd (hopen.symm.trans hdone) Bool.false_ne_true,
      fun _ => rfl⟩

end Reassembly

end PmacPoll
