import PmacPoll.Channel
import PmacPoll.Proofs.ScannerFeed

/-!
# Framing of the reply stream

The bytes of a stream are its messages one after another, `splitMessages`. A channel takes them in
chunks of any size, gives a reply of limited length for each message, skips what the limit cuts off,
and keeps what comes too early. None of this shows: the replies are those of the messages, each
scanned alone, `Reassembly.reads_repliesOf`.

`Reassembly.Reads` is the process, one step for a chunk and one for a finished reply.
`Reassembly.Framed` is what it keeps to: a state is told by the messages of the bytes so far and by
what became of the last one.
-/

namespace PmacPoll

/-- What follows a skipped message is the end of the input. -/
private theorem Inbox.length_le_of_skipMessage {inBlock : Bool} {input rest : Bytes}
    (h : skipMessage inBlock input = .ok rest) : rest.length ≤ input.length := by
  induction input generalizing inBlock with
  | nil => exact nomatch h
  | cons byte more ih =>
    rw [skipMessage] at h
    rw [List.length_cons]
    -- what ends the message is taken, and nothing else is given back
    split at h
    · rw [Except.ok.inj h]; omega
    · split at h
      · rw [Except.ok.inj h]; omega
      · have := ih h
        omega

namespace Reply

/-! ### Messages -/

/-- Does a byte end the message that begins with `before`? -/
def endsMessage (before : Bytes) (byte : UInt8) : Bool :=
  byte == Control.ack || byte == Control.lineFeed ||
    (byte == Control.carriageReturn && before.any Control.opensBlock)

/-- The messages of a stream of which `current` came already, and the bytes after the last one. -/
def splitMessages (current : Bytes) : Bytes → List Bytes × Bytes
  | [] => ([], current)
  | byte :: rest =>
    if endsMessage current byte then
      ((current ++ [byte]) :: (splitMessages [] rest).1, (splitMessages [] rest).2)
    else splitMessages (current ++ [byte]) rest

/-- The reply that a scanner makes of some bytes. -/
def scan (maxLength : Nat) (message : Bytes) : Reply :=
  ((Scanner.new maxLength).feed message).1.finish

/-- The replies to a stream, each made of its message alone. Bytes after the last message make one
    only if they are too many. -/
def repliesOf (maxLength : Nat) (stream : Bytes) : List Reply :=
  (splitMessages [] stream).1.map (scan maxLength) ++
    if ((Scanner.new maxLength).feed (splitMessages [] stream).2).1.isDone then
      [scan maxLength (splitMessages [] stream).2]
    else []

/-- The messages of two parts are those of the first and then those that begin with what is left of
    it. -/
theorem splitMessages_append (current a b : Bytes) :
    splitMessages current (a ++ b) =
      ((splitMessages current a).1 ++ (splitMessages (splitMessages current a).2 b).1,
        (splitMessages (splitMessages current a).2 b).2) := by
  induction a generalizing current with
  | nil => rfl
  | cons byte rest ih =>
    rw [List.cons_append, splitMessages, splitMessages]
    split
    · rw [ih]; rfl
    · exact ih _

/-- A byte that ends no message opens a block or leaves things as they are. -/
private theorem any_opensBlock_snoc (current : Bytes) (byte : UInt8) :
    (current ++ [byte]).any Control.opensBlock =
      (current.any Control.opensBlock || Control.opensBlock byte) := by
  rw [List.any_append]
  simp

/-- The skipping automaton stops at the end of a message. -/
theorem split_of_skipMessage_ok {current input rest : Bytes}
    (h : Inbox.skipMessage (current.any Control.opensBlock) input = .ok rest) :
    ∃ used, input = used ++ rest ∧ splitMessages current used = ([current ++ used], []) := by
  induction input generalizing current with
  | nil => exact nomatch h
  | cons byte more ih =>
    rw [Inbox.skipMessage] at h
    by_cases hend : endsMessage current byte = true
    · -- Both automata stop here.
      have hrest : more = rest := by
        unfold endsMessage at hend
        split at h
        · exact Except.ok.inj h
        · next hne =>
          rw [Bool.or_eq_true] at hend
          rw [if_pos (hend.resolve_left hne)] at h
          exact Except.ok.inj h
      refine ⟨[byte], by rw [hrest]; rfl, ?_⟩
      rw [splitMessages, if_pos hend, splitMessages]
    · -- the byte is part of the message for both, and so the marks of a block agree
      have hgo :
          Inbox.skipMessage ((current ++ [byte]).any Control.opensBlock) more = .ok rest := by
        rw [endsMessage, Bool.or_eq_true, not_or] at hend
        rw [if_neg hend.1, if_neg hend.2, ← any_opensBlock_snoc] at h
        exact h
      obtain ⟨used, hmore, hsplit⟩ := ih hgo
      refine ⟨byte :: used, by rw [hmore]; rfl, ?_⟩
      rw [splitMessages, if_neg hend, hsplit]
      simp

/-- While the skipping automaton goes on, the message does. -/
theorem split_of_skipMessage_error {current input : Bytes} {inBlock : Bool}
    (h : Inbox.skipMessage (current.any Control.opensBlock) input = .error inBlock) :
    splitMessages current input = ([], current ++ input) ∧
      (current ++ input).any Control.opensBlock = inBlock := by
  induction input generalizing current with
  | nil =>
    rw [List.append_nil]
    exact ⟨rfl, Except.error.inj h⟩
  | cons byte more ih =>
    rw [Inbox.skipMessage] at h
    split at h
    · simp at h
    · next hne =>
      split at h
      · simp at h
      · next hcr =>
        rw [← any_opensBlock_snoc] at h
        obtain ⟨hsplit, hany⟩ := ih h
        -- neither of the two ways to end a message applies, so the byte goes on with it
        have hend : ¬ endsMessage current byte = true := by
          rw [endsMessage, Bool.or_eq_true, not_or]
          exact ⟨hne, hcr⟩
        rw [splitMessages, if_neg hend, hsplit]
        rw [List.append_assoc] at hany ⊢
        exact ⟨rfl, hany⟩

end Reply

namespace Reassembly

open Reply

/-! ### Taking in a chunk -/

/-- A reply that ends as it should leaves what follows pending. -/
private theorem absorb_of_end {r : Reassembly} {input rest : Bytes} {s : Scanner}
    (htail : r.inbox.tail = none) (hfeed : r.scanner.feed input = (s, rest))
    (hend : ∀ b, s.phase ≠ .closed (.truncated b)) :
    r.absorb input = ⟨s, { r.inbox with pending := r.inbox.pending ++ rest }⟩ := by
  -- `hend` rules the truncated case of the match out
  simp only [absorb, Inbox.skipTail, htail, hfeed]

/-- A reply that is cut off sets the skipping automaton on what follows. -/
private theorem absorb_of_truncated {r : Reassembly} {input rest : Bytes} {s : Scanner}
    {inBlock : Bool}
    (htail : r.inbox.tail = none) (hfeed : r.scanner.feed input = (s, rest))
    (hphase : s.phase = .closed (.truncated inBlock)) :
    r.absorb input =
      match Inbox.skipMessage inBlock rest with
      | .error b => ⟨s, { r.inbox with tail := some b }⟩
      | .ok more => ⟨s, { pending := r.inbox.pending ++ more }⟩ := by
  simp only [absorb, Inbox.skipTail, htail, hfeed, hphase]
  cases Inbox.skipMessage inBlock rest <;> simp

/-- While something is skipped the reply does not get on. -/
theorem absorb_of_tail {r : Reassembly} {input : Bytes} {inBlock : Bool}
    (htail : r.inbox.tail = some inBlock) :
    r.absorb input =
      match Inbox.skipMessage inBlock input with
      | .error b => { r with inbox := { r.inbox with tail := some b } }
      | .ok rest => absorb { r with inbox := { r.inbox with tail := none } } rest := by
  simp only [absorb, Inbox.skipTail, htail]
  cases Inbox.skipMessage inBlock input <;> rfl

/-- With nothing to skip, the scanner takes the bytes as they come. -/
theorem scanner_absorb {r : Reassembly} (htail : r.inbox.tail = none) (input : Bytes) :
    (r.absorb input).scanner = (r.scanner.feed input).1 := by
  simp only [absorb, Inbox.skipTail, htail]
  split <;> rfl

/-- The scanner takes some part of the bytes that come. -/
theorem scanner_absorb_eq_feed (r : Reassembly) (input : Bytes) :
    ∃ used, (r.absorb input).scanner = (r.scanner.feed used).1 := by
  cases htail : r.inbox.tail with
  | none => exact ⟨input, scanner_absorb htail input⟩
  | some inBlock =>
    rw [absorb_of_tail htail]
    cases Inbox.skipMessage inBlock input with
    | error b => exact ⟨[], by rw [Scanner.feed_nil]⟩
    | ok rest => exact ⟨rest, scanner_absorb rfl rest⟩

/-- A reply in the making has nothing to skip. -/
theorem tail_absorb {r : Reassembly} (htail : r.inbox.tail = none) {input : Bytes}
    (hopen : (r.absorb input).scanner.isDone = false) : (r.absorb input).inbox.tail = none := by
  rw [scanner_absorb htail] at hopen
  obtain ⟨b, hphase⟩ := Scanner.phase_of_open hopen
  rw [absorb_of_end htail rfl fun b' h => nomatch hphase.symm.trans h]
  exact htail

/-! ### One reply after another -/

/-- What a channel does with a stream: the chunks that came so far, the replies that were given, and
    the reply in the making. A reply takes in chunks until it is done, and the next one starts with
    the bytes that are left over. -/
inductive Reads (maxLength : Nat) : List Bytes → List Reply → Reassembly → Prop where
  | begin : Reads maxLength [] [] (start maxLength {})
  | take {chunks given r} (chunk : Bytes) : Reads maxLength chunks given r →
      r.scanner.isDone = false → Reads maxLength (chunks ++ [chunk]) given (r.absorb chunk)
  | next {chunks given r} : Reads maxLength chunks given r → r.scanner.isDone = true →
      Reads maxLength chunks (given ++ [r.scanner.finish]) (start maxLength r.inbox)

/-- Where that process stands, told from the messages of the stream: `last` is what came after the
    messages whose replies were given. -/
inductive Framed (maxLength : Nat) : Bytes → List Reply → Reassembly → Prop where
  /-- A scanner has the whole of an unfinished message. -/
  | reading {stream messages scanner} (last : Bytes)
      (hsplit : splitMessages [] stream = (messages, last))
      (hfeed : (Scanner.new maxLength).feed last = (scanner, []))
      (hopen : scanner.isDone = false) :
      Framed maxLength stream (messages.map (scan maxLength)) ⟨scanner, {}⟩
  /-- The reply to an unfinished message was given: it was too long, and its rest is skipped. -/
  | skipping {stream messages} (last : Bytes)
      (hsplit : splitMessages [] stream = (messages, last))
      (hdone : ((Scanner.new maxLength).feed last).1.isDone = true) :
      Framed maxLength stream (messages.map (scan maxLength) ++ [scan maxLength last])
        ⟨Scanner.new maxLength, { tail := some (last.any Control.opensBlock) }⟩
  /-- A reply is done and its message over; what came after it is pending. -/
  | complete {stream messages scanner} (last pending : Bytes)
      (hsplit : splitMessages [] stream = (messages ++ [last], []))
      (hscan : scan maxLength last = scanner.finish) (hdone : scanner.isDone = true) :
      Framed maxLength (stream ++ pending) (messages.map (scan maxLength)) ⟨scanner, { pending }⟩
  /-- A reply is done, and its message goes on. -/
  | cut {stream messages scanner} (last rest : Bytes)
      (hsplit : splitMessages [] stream = (messages, last))
      (hfeed : (Scanner.new maxLength).feed last = (scanner, rest))
      (hdone : scanner.isDone = true) :
      Framed maxLength stream (messages.map (scan maxLength))
        ⟨scanner, { tail := some (last.any Control.opensBlock) }⟩

/-- A new scanner that is still reading some bytes is inside a block if one opened in them. -/
private theorem any_opensBlock_of_reading {maxLength : Nat} {last : Bytes} {s : Scanner}
    {inBlock : Bool} (hfeed : (Scanner.new maxLength).feed last = (s, []))
    (hphase : s.phase = .reading inBlock) : last.any Control.opensBlock = inBlock := by
  have h := Scanner.feed_skipMessage (Scanner.phase_new maxLength) last
  rw [hfeed, hphase, Scanner.skipFrom, Inbox.skipMessage] at h
  exact (split_of_skipMessage_error (show Inbox.skipMessage (List.any [] _) _ = _ from h)).2

/-- A reply that the limit closes in the middle of a message: the skipping automaton goes on where
    the scanner stopped. -/
private theorem framed_of_truncated {maxLength : Nat} {stream last : Bytes}
    {messages : List Bytes} {s : Scanner} {inBlock : Bool}
    (hsplit : splitMessages [] stream = (messages, last))
    (hfeed : (Scanner.new maxLength).feed last = (s, []))
    (hphase : s.phase = .closed (.truncated inBlock))
    (hany : last.any Control.opensBlock = inBlock) (rest : Bytes) :
    Framed maxLength (stream ++ rest) (messages.map (scan maxLength))
      (match Inbox.skipMessage inBlock rest with
      | .error b => ⟨s, { tail := some b }⟩
      | .ok more => ⟨s, { pending := more }⟩) := by
  have hdone := Scanner.isDone_of_closed hphase
  -- whatever comes after the limit has no part in the reply
  have hcut : ∀ more, (Scanner.new maxLength).feed (last ++ more) = (s, more) := by
    intro more
    rw [Scanner.feed_of_isDone hfeed hdone, List.nil_append]
  cases htail : Inbox.skipMessage inBlock rest with
  | error b =>
    obtain ⟨hgo, hanyRest⟩ := split_of_skipMessage_error (hany ▸ htail)
    rw [← hanyRest]
    refine Framed.cut (last ++ rest) rest ?_ (hcut rest) hdone
    rw [splitMessages_append, hsplit, hgo, List.append_nil]
  | ok more =>
    obtain ⟨cutOff, rfl, hend⟩ := split_of_skipMessage_ok (hany ▸ htail)
    rw [← List.append_assoc]
    refine Framed.complete (last ++ cutOff) more ?_ ?_ hdone
    · rw [splitMessages_append, hsplit, hend]
    · rw [scan, hcut]

/-- A reply that closes with its message. -/
private theorem framed_of_closed {maxLength : Nat} {stream last used : Bytes}
    {messages : List Bytes} {s : Scanner} (hsplit : splitMessages [] stream = (messages, last))
    (hfeed : (Scanner.new maxLength).feed (last ++ used) = (s, [])) (hdone : s.isDone = true)
    (hskip : Inbox.skipMessage (last.any Control.opensBlock) used = .ok []) (rest : Bytes) :
    Framed maxLength (stream ++ used ++ rest) (messages.map (scan maxLength))
      ⟨s, { pending := rest }⟩ := by
  obtain ⟨message, hmessage, hover⟩ := split_of_skipMessage_ok hskip
  rw [List.append_nil] at hmessage
  subst hmessage
  refine Framed.complete (last ++ used) rest ?_ (by rw [scan, hfeed]) hdone
  rw [splitMessages_append, hsplit, hover]

/-- Taking in a chunk in the middle of a message. -/
private theorem framed_absorb_reading {maxLength : Nat} {stream last : Bytes}
    {messages : List Bytes} {s : Scanner} (hsplit : splitMessages [] stream = (messages, last))
    (hfeed : (Scanner.new maxLength).feed last = (s, [])) (hopen : s.isDone = false)
    (chunk : Bytes) :
    Framed maxLength (stream ++ chunk) (messages.map (scan maxLength))
      (absorb ⟨s, {}⟩ chunk) := by
  obtain ⟨inBlock, hphase⟩ := Scanner.phase_of_open hopen
  have hany := any_opensBlock_of_reading hfeed hphase
  obtain ⟨s', used, rest, rfl, hs, hused⟩ := Scanner.feed_split s chunk
  have hnew : (Scanner.new maxLength).feed (last ++ used) = (s', []) := by
    rw [Scanner.feed_of_open hfeed hopen, hused]
  -- what the scanner took, as the skipping automaton sees it
  have hskip := Scanner.feed_skipMessage hphase used
  rw [hused, ← hany] at hskip
  -- while the automaton goes on, the stream is still in the same message
  have hgoes : ∀ b, Inbox.skipMessage (last.any Control.opensBlock) used = .error b →
      splitMessages [] (stream ++ used) = (messages, last ++ used) ∧
        (last ++ used).any Control.opensBlock = b := by
    intro b hb
    obtain ⟨hgo, hanyUsed⟩ := split_of_skipMessage_error hb
    refine ⟨?_, hanyUsed⟩
    rw [splitMessages_append, hsplit, hgo, List.append_nil]
  rw [← List.append_assoc]
  cases hphase' : s'.phase with
  -- the chunk is part of the message, and all of it was taken
  | reading b =>
    have hopen' := Scanner.isDone_of_reading hphase'
    have hrest : rest = [] := by
      have h : (s.feed (used ++ rest)).2 = [] :=
        Scanner.feed_rest_of_open (by rw [hs]; exact hopen')
      rwa [hs] at h
    rw [hphase', Scanner.skipFrom, Inbox.skipMessage] at hskip
    rw [absorb_of_end rfl hs (by simp [hphase']), hrest, List.append_nil]
    exact Framed.reading (last ++ used) (hgoes b hskip).1 hnew hopen'
  | closed e =>
    have hdone := Scanner.isDone_of_closed hphase'
    rw [hphase'] at hskip
    cases e with
    -- the limit was reached in this chunk, and the automaton goes on from there
    | truncated b =>
      rw [Scanner.skipFrom, Inbox.skipMessage] at hskip
      rw [absorb_of_truncated rfl hs hphase']
      exact framed_of_truncated (hgoes b hskip).1 hnew hphase' (hgoes b hskip).2 rest
    | _ =>
      rw [absorb_of_end rfl hs (by simp [hphase'])]
      exact framed_of_closed hsplit hnew hdone hskip rest

/-- Taking in a chunk while the rest of a message is skipped. -/
private theorem framed_absorb_skipping {maxLength : Nat} {stream last : Bytes}
    {messages : List Bytes} (hsplit : splitMessages [] stream = (messages, last))
    (hdone : ((Scanner.new maxLength).feed last).1.isDone = true) (chunk : Bytes) :
    Framed maxLength (stream ++ chunk) (messages.map (scan maxLength) ++ [scan maxLength last])
      (absorb ⟨Scanner.new maxLength, { tail := some (last.any Control.opensBlock) }⟩ chunk) := by
  have hscan : ∀ more, (Scanner.new maxLength).feed (last ++ more) =
      (((Scanner.new maxLength).feed last).1, ((Scanner.new maxLength).feed last).2 ++ more) :=
    fun more => Scanner.feed_of_isDone rfl hdone more
  rw [absorb_of_tail rfl]
  cases hskip : Inbox.skipMessage (last.any Control.opensBlock) chunk with
  | error b =>
    obtain ⟨hgo, hany⟩ := split_of_skipMessage_error hskip
    have hlast : scan maxLength last = scan maxLength (last ++ chunk) := by
      rw [scan, scan, hscan]
    rw [← hany, hlast]
    refine Framed.skipping (last ++ chunk) ?_ (by rw [hscan]; exact hdone)
    rw [splitMessages_append, hsplit, hgo, List.append_nil]
  | ok rest =>
    -- The message is over; what follows it starts the next one.
    obtain ⟨cutOff, rfl, hend⟩ := split_of_skipMessage_ok hskip
    have hlast : scan maxLength last = scan maxLength (last ++ cutOff) := by
      rw [scan, scan, hscan]
    have hmap : messages.map (scan maxLength) ++ [scan maxLength last] =
        (messages ++ [last ++ cutOff]).map (scan maxLength) := by
      rw [List.map_append, hlast]; rfl
    rw [hmap, ← List.append_assoc]
    refine framed_absorb_reading ?_ (Scanner.feed_nil _) (Scanner.isDone_new _) rest
    rw [splitMessages_append, hsplit, hend]

/-- **The process keeps to the messages.** -/
theorem framed_of_reads {maxLength : Nat} {chunks : List Bytes} {given : List Reply}
    {r : Reassembly} (h : Reads maxLength chunks given r) :
    Framed maxLength chunks.flatten given r := by
  -- Each step of the process leads from one way to stand to another.
  induction h with
  | begin =>
    have hsplit : splitMessages [] [] = ([], []) := rfl
    exact framed_absorb_reading hsplit (Scanner.feed_nil _) (Scanner.isDone_new _) []
  | take chunk _ hopen ih =>
    rw [List.flatten_append, List.flatten_singleton]
    generalize List.flatten _ = stream at ih ⊢
    cases ih with
    -- a chunk was taken in while a message was read, or while one was skipped
    | reading last hsplit hfeed h => exact framed_absorb_reading hsplit hfeed h chunk
    | skipping last hsplit hdone => exact framed_absorb_skipping hsplit hdone chunk
    | complete last pending hsplit hscan hdone => exact nomatch hopen.symm.trans hdone
    | cut last rest hsplit hfeed hdone => exact nomatch hopen.symm.trans hdone
  | next _ hdone ih =>
    generalize List.flatten _ = stream at ih ⊢
    cases ih with
    -- a reply is given only after it was read, be it complete or cut off
    | reading last hsplit hfeed hopen => exact nomatch hopen.symm.trans hdone
    | skipping last hsplit h => exact nomatch (Scanner.isDone_new maxLength).symm.trans hdone
    | @complete _ messages scanner last pending hsplit hscan h =>
      have hmap : messages.map (scan maxLength) ++ [scanner.finish] =
          (messages ++ [last]).map (scan maxLength) := by
        rw [List.map_append, ← hscan]; rfl
      rw [hmap]
      exact framed_absorb_reading hsplit (Scanner.feed_nil _) (Scanner.isDone_new _) pending
    | @cut _ _ scanner last rest hsplit hfeed h =>
      have hlast : scan maxLength last = scanner.finish := by rw [scan, hfeed]
      have hskipping := framed_absorb_skipping hsplit (by rw [hfeed]; exact h) []
      rw [List.append_nil, hlast] at hskipping
      exact hskipping

/-- The bytes of skipped messages are no one's: nothing waits while something is to be skipped. -/
private theorem Framed.pending_of_tail {maxLength : Nat} {stream : Bytes} {given : List Reply}
    {r : Reassembly} (h : Framed maxLength stream given r) (htail : r.inbox.tail.isSome = true) :
    r.inbox.pending = [] := by
  cases h with
  | complete => exact nomatch htail
  | reading | skipping | cut => rfl

/-- Between two replies, the replies given are those of the stream. -/
private theorem Framed.given_eq {maxLength : Nat} {stream : Bytes} {given : List Reply}
    {r : Reassembly}
    (h : Framed maxLength stream given r) (hopen : r.scanner.isDone = false) :
    given = repliesOf maxLength stream := by
  cases h with
  | reading last hsplit hfeed h =>
    rw [repliesOf, hsplit, hfeed, if_neg (by rw [h]; decide), List.append_nil]
  | skipping last hsplit hdone => rw [repliesOf, hsplit, if_pos hdone]
  | complete last pending hsplit hscan hdone => exact nomatch hopen.symm.trans hdone
  | cut last rest hsplit hfeed hdone => exact nomatch hopen.symm.trans hdone

/-- A reply that is done is the next one of the stream. -/
private theorem Framed.given_snoc_prefix {maxLength : Nat} {stream : Bytes} {given : List Reply}
    {r : Reassembly} (h : Framed maxLength stream given r) (hdone : r.scanner.isDone = true) :
    given ++ [r.scanner.finish] <+: repliesOf maxLength stream := by
  -- a scanner that is done has ended its message, or it was cut off in the last one
  cases h with
  | reading last hsplit hfeed h => exact nomatch h.symm.trans hdone
  | skipping last hsplit h => exact nomatch (Scanner.isDone_new maxLength).symm.trans hdone
  | complete last pending hsplit hscan h =>
    rw [repliesOf, splitMessages_append, hsplit, List.map_append, List.map_append,
      List.map_singleton, hscan, List.append_assoc]
    exact List.prefix_append _ _
  | cut last rest hsplit hfeed h =>
    refine ⟨[], ?_⟩
    rw [List.append_nil, repliesOf, hsplit, hfeed, if_pos h, scan, hfeed]

/-- A reply that is done takes something of the bytes that it starts with. -/
private theorem pending_absorb_lt {maxLength : Nat} {input : Bytes}
    (hdone : (absorb ⟨Scanner.new maxLength, {}⟩ input).scanner.isDone = true) :
    (absorb ⟨Scanner.new maxLength, {}⟩ input).inbox.pending.length < input.length := by
  obtain ⟨s, used, rest, rfl, hs, hused⟩ := Scanner.feed_split (Scanner.new maxLength) input
  -- A scanner that has taken nothing is still new.
  have hne : s.isDone = true → 0 < used.length := by
    intro h
    cases used with
    | nil =>
      rw [Scanner.feed_nil] at hused
      rw [← (Prod.mk.inj hused).1] at h
      exact nomatch (Scanner.isDone_new maxLength).symm.trans h
    | cons byte more => exact Nat.succ_pos _
  by_cases htrunc : ∃ b, s.phase = .closed (.truncated b)
  · obtain ⟨b, hphase⟩ := htrunc
    have hpos := hne (Scanner.isDone_of_closed hphase)
    rw [absorb_of_truncated rfl hs hphase]
    cases hskip : Inbox.skipMessage b rest with
    | error b' => simp only [List.length_nil, List.length_append]; omega
    | ok more =>
      have hle : more.length ≤ rest.length := Inbox.length_le_of_skipMessage hskip
      simp only [List.nil_append, List.length_append]
      omega
  · rw [absorb_of_end rfl hs fun b hb => htrunc ⟨b, hb⟩] at hdone ⊢
    have hpos := hne hdone
    simp only [List.nil_append, List.length_append]
    omega

/-- After finitely many replies the process asks for more bytes. -/
private theorem reads_exists_open {maxLength : Nat} {chunks : List Bytes} {given : List Reply}
    {r : Reassembly} (h : Reads maxLength chunks given r) :
    ∃ given' r', Reads maxLength chunks given' r' ∧ r'.scanner.isDone = false := by
  -- on the number of pending bytes, of which every reply takes some
  induction hn : r.inbox.pending.length using Nat.strongRecOn generalizing given r with
  | ind n ih =>
    by_cases hdone : r.scanner.isDone = true
    · have hnext := Reads.next h hdone
      by_cases hdone' : (start maxLength r.inbox).scanner.isDone = true
      · refine ih _ ?_ hnext rfl
        have hframed := framed_of_reads h
        generalize chunks.flatten = stream at hframed
        cases hframed with
        | reading last hsplit hfeed hopen => exact nomatch hopen.symm.trans hdone
        | skipping last hsplit hd => exact nomatch (Scanner.isDone_new maxLength).symm.trans hdone
        | complete last pending hsplit hscan hd => exact hn ▸ pending_absorb_lt hdone'
        | cut last rest hsplit hfeed hd =>
          exact nomatch (Scanner.isDone_new maxLength).symm.trans hdone'
      · exact ⟨_, _, hnext, by simpa using hdone'⟩
    · exact ⟨given, r, h, by simpa using hdone⟩

/-- More chunks can always be taken in. -/
private theorem reads_append {maxLength : Nat} {chunks : List Bytes} {given : List Reply}
    {r : Reassembly} (h : Reads maxLength chunks given r) (hopen : r.scanner.isDone = false)
    (more : List Bytes) :
    ∃ given' r', Reads maxLength (chunks ++ more) given' r' ∧ r'.scanner.isDone = false := by
  induction more generalizing chunks given r with
  | nil => exact ⟨given, r, by rw [List.append_nil]; exact h, hopen⟩
  | cons chunk more ih =>
    obtain ⟨given', r', h', hopen'⟩ := reads_exists_open (Reads.take chunk h hopen)
    rw [List.append_cons]
    exact ih h' hopen'

/-! ### Reading from a transport -/

/-- The reads for one reply are steps of the process. -/
private theorem reads_of_collect {σ : Type} [Transport σ] {config : Channel.Config}
    {rounds : Nat} {first : Bool} {r r' : Reassembly} {link link' : σ} {u : Unit}
    {maxLength : Nat} {chunks : List Bytes} {given : List Reply}
    (h : Reads maxLength chunks given r)
    (hcollect : Channel.collect config rounds first r link = .ok u (r', link')) :
    ∃ more, Reads maxLength (chunks ++ more) given r' := by
  fun_induction Channel.collect config rounds first r link generalizing chunks with
  | case1 | case2 =>
    -- The reply is done, or silence ends it: no chunk is taken in.
    obtain ⟨-, hr⟩ := EStateM.Result.ok.inj hcollect
    rw [← (Prod.mk.inj hr).1]
    exact ⟨[], by rw [List.append_nil]; exact h⟩
  | case3 | case5 => exact nomatch hcollect
  | case4 _ _ r _ hopen _ _ chunk =>
    rename_i ih
    obtain ⟨more, hmore⟩ := ih (Reads.take chunk.1 h (by simpa using hopen)) hcollect
    exact ⟨chunk.1 :: more, by rw [List.append_cons]; exact hmore⟩
  | case6 _ r _ hopen _ _ chunk =>
    rename_i ih
    obtain ⟨more, hmore⟩ := ih (Reads.take chunk.1 h (by simpa using hopen)) hcollect
    exact ⟨chunk.1 :: more, by rw [List.append_cons]; exact hmore⟩

/-- Reading a reply from a transport is a part of the process. -/
private theorem reads_of_readReply {σ : Type} [Transport σ] {c c' : Channel σ} {reply : Reply}
    {chunks : List Bytes} {given : List Reply}
    (h : Reads c.config.maxReplyBytes chunks given (start c.config.maxReplyBytes c.inbox))
    (hread : Channel.readReply c = .ok reply c') (hcomplete : reply.isComplete = true) :
    ∃ more r, Reads c.config.maxReplyBytes (chunks ++ more) given r ∧
      r.scanner.isDone = true ∧ r.scanner.finish = reply ∧ r.inbox = c'.inbox := by
  simp only [Channel.readReply] at hread
  split at hread
  · next r link hcollect =>
    obtain ⟨more, hmore⟩ := reads_of_collect h hcollect
    obtain ⟨rfl, rfl⟩ := EStateM.Result.ok.inj hread
    exact ⟨more, r, hmore, (Scanner.isComplete_finish _).symm.trans hcomplete, rfl, rfl⟩
  · exact nomatch hread

/-! ### Transparency -/

/-- **Framing is transparent to the size limit and to the cutting.** Wherever the process stands,
    the replies given are the first ones of the stream, each made of its message alone, and all of
    them when it asks for more; nothing waits while the rest of a message is to be skipped. It never
    gets stuck, and it is what reading replies from a transport does. -/
theorem reads_repliesOf (maxLength : Nat) :
    (∀ chunks given r, Reads maxLength chunks given r →
      (r.inbox.tail.isSome = true → r.inbox.pending = []) ∧
      (r.scanner.isDone = true →
        given ++ [r.scanner.finish] <+: repliesOf maxLength chunks.flatten) ∧
      (r.scanner.isDone = false → given = repliesOf maxLength chunks.flatten)) ∧
    (∀ chunks, ∃ r, Reads maxLength chunks (repliesOf maxLength chunks.flatten) r ∧
      r.scanner.isDone = false) ∧
    (∀ (σ : Type) [Transport σ] (c c' : Channel σ) (reply : Reply) chunks given,
      c.config.maxReplyBytes = maxLength →
      Reads maxLength chunks given (start maxLength c.inbox) →
      Channel.readReply c = .ok reply c' → reply.isComplete = true →
      ∃ more r, Reads maxLength (chunks ++ more) given r ∧ r.scanner.isDone = true ∧
        r.scanner.finish = reply ∧ r.inbox = c'.inbox) := by
  refine ⟨?_, ?_, ?_⟩
  · intro chunks given r h
    have hframed := framed_of_reads h
    exact ⟨hframed.pending_of_tail, hframed.given_snoc_prefix, hframed.given_eq⟩
  · -- fed the stream as it comes, a reassembly reads the replies that the whole stream has
    intro chunks
    obtain ⟨given, r, h, hopen⟩ := reads_append Reads.begin (Scanner.isDone_new maxLength) chunks
    rw [List.nil_append] at h
    exact ⟨r, (framed_of_reads h).given_eq hopen ▸ h, hopen⟩
  · rintro σ _ c c' reply chunks given rfl h hread hcomplete
    exact reads_of_readReply h hread hcomplete

/-- At most three bytes a reply: `ABCD` and an acknowledge in two chunks, then `E` in two more. The
    tail of the first message comes with the head of the second one. -/
theorem reads_repliesOf_three :
    ∃ r, Reads 3 [[0x41, 0x42], [0x43, 0x44, 0x06, 0x45], [0x06]]
        [⟨[0x41, 0x42, 0x06], .truncated⟩, ⟨[0x45, 0x06], .ack⟩] r ∧
      r.scanner.isDone = false := by
  have hreplies : repliesOf 3 (List.flatten [[0x41, 0x42], [0x43, 0x44, 0x06, 0x45], [0x06]]) =
      [⟨[0x41, 0x42, 0x06], .truncated⟩, ⟨[0x45, 0x06], .ack⟩] := by decide
  obtain ⟨r, h, hopen⟩ :=
    (reads_repliesOf 3).2.1 [[0x41, 0x42], [0x43, 0x44, 0x06, 0x45], [0x06]]
  rw [hreplies] at h
  exact ⟨r, h, hopen⟩

end Reassembly

end PmacPoll
